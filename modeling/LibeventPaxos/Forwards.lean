import Mathlib.Data.Multiset.AddSub
import LibeventPaxos.PeerCalls
import LibeventPaxos.NodeCalls

/-!
What becomes of a request: a call either numbers the request it was made with, or forwards it to the
leader, or drops it, and nothing else is numbered or forwarded.
-/
namespace LibeventPaxos

open Lib

/-- The request a message forwards. -/
def ConsensusMsg.forwarded : ConsensusMsg → Option (List UInt8)
  | .forwardReq _ data => some data
  | _ => none

namespace Comp

/-- The payloads the component has numbered. -/
def numbered (c : Comp) : List (List UInt8) := c.assigned.map Prod.snd

/-- A forwarded request with the node it goes to. -/
def forwardOf (call : Int × ConsensusMsg) : Option (Int × List UInt8) :=
  call.2.forwarded.map fun data => (call.1, data)

/-- What the component has forwarded. -/
def forwards (c : Comp) : List (Int × List UInt8) := c.upCalls.filterMap forwardOf

/-- The request a call is made with. -/
def requested : CompEvent → Option (List UInt8)
  | .submit data => some data
  | .message msg => msg.forwarded
  | _ => none

/-- Only `consensus_submit_request` at a secondary forwards. -/
def forwardsOn (c : Comp) : CompEvent → Option (Int × List UInt8)
  | .submit data => if c.myRole = .leader then none else some (c.curView.leaderId, data)
  | _ => none

/-- Only the answer of a call may forward. -/
theorem Broadcast.plain {nodeId : NodeId} {call : Int × ConsensusMsg}
    (broadcast : Broadcast nodeId call) : forwardOf call = none := by
  cases broadcast with
  | acceptReq | missingReq | forceExec => rfl

theorem forwardOf_answer (c : Comp) (e : Env × CompEvent) :
    (c.answer e).bind forwardOf = c.forwardsOn e.2 := by
  obtain ⟨env, event⟩ := e
  cases event with
  | message msg =>
    cases msg with
    | acceptReq msgVs reqCanbeExed nodeId record =>
      simp only [answer, forwardsOn]
      split
      next accepts => rfl
      next => rfl
    | missingReq nodeId missingVs =>
      simp only [answer, forwardsOn, buildMissingAck]
      split
      next => rfl
      next value found =>
        split
        next => rfl
        next => rfl
    | acceptAck | missingAck | forceExec | forwardReq => rfl
  | submit data =>
    simp only [answer, forwardsOn]
    split
    next leader => rfl
    next secondary => rfl
  | makeProgress | updateView | acceptorUpdateRecord => rfl

/-- What one call forwards. -/
theorem forwards_handle (c : Comp) (e : Env × CompEvent) (running : c.fault = none) :
    (c.handle e).forwards = c.forwards ++ (c.forwardsOn e.2).toList := by
  obtain ⟨sent, calls, broadcast⟩ := answers_handle c e running
  have nothing : sent.filterMap forwardOf = [] :=
    List.filterMap_eq_nil_iff.mpr fun call member => (broadcast call member).plain
  rw [forwards, calls, List.filterMap_append, List.filterMap_append, nothing, List.append_nil,
    forwards, ← forwardOf_answer]
  cases c.answer e with
  | none => rfl
  | some call =>
    rw [Option.toList_some, Option.bind_some, List.filterMap_cons]
    cases forwardOf call with
    | none => rfl
    | some forward => rfl

/-- What one call numbers. -/
theorem numbered_handle (c : Comp) (e : Env × CompEvent) (running : c.fault = none) :
    (c.handle e).numbered = c.numbered ++ (c.taken e).toList := by
  cases (handle_step c e running).1 with
  | stays nothing assigned =>
    rw [nothing, Option.toList_none, List.append_nil, numbered, assigned, numbered]
  | takes data takes leader assigned =>
    rw [takes, numbered, assigned, List.map_append]
    rfl
  | enters newViewInfo event nothing successor assigned =>
    rw [nothing, Option.toList_none, List.append_nil, numbered, assigned, numbered]

/-- A request is numbered or forwarded, not both. -/
theorem taken_or_forwards (c : Comp) (e : Env × CompEvent) :
    ((c.taken e).toList ++ (c.forwardsOn e.2).toList.map Prod.snd).Sublist
      (requested e.2).toList := by
  obtain ⟨env, event⟩ := e
  cases event with
  | message msg =>
    cases msg with
    | forwardReq nodeId data =>
      simp only [taken, forwardsOn, requested, ConsensusMsg.forwarded]
      split <;> simp
    | acceptReq | acceptAck | missingReq | missingAck | forceExec => exact List.nil_sublist _
  | submit data =>
    simp only [taken, forwardsOn, requested]
    by_cases leader : c.myRole = .leader
    · rw [if_pos leader]
      split <;> simp
    · rw [if_neg (fun both => leader both.1), if_neg leader]
      exact .refl _
  | makeProgress | updateView | acceptorUpdateRecord => exact List.nil_sublist _

end Comp

/-! ## Nodes -/

/-- The request a message forwards. -/
def SysMsg.forwarded : SysMsg → Option (List UInt8)
  | .consensus msg => msg.forwarded
  | _ => none

/-- The request of a proxy. -/
def SysMsg.submitted : SysMsg → Option (List UInt8)
  | .requestSubmit data => some data
  | _ => none

namespace NodeEvent

/-- What `f` reads off the message of an event. -/
def handled {α : Type} (f : SysMsg → Option α) : NodeEvent → Option α
  | .message msg => f msg
  | _ => none

/-- A request of the proxy of the node. -/
def submitted : NodeEvent → Option (List UInt8) := handled SysMsg.submitted

/-- A request another node forwards. -/
def handedOn : NodeEvent → Option (List UInt8) := handled SysMsg.forwarded

end NodeEvent

namespace Node

/-- What a node numbers and forwards in one call is the request of the call. -/
theorem dispatch_accounts (node : Node) (e : NodeEnv × NodeEvent)
    (running : node.comp.fault = none) :
    ∃ taken forwarded, (node.dispatch e).comp.numbered = node.comp.numbered ++ taken ∧
      (node.dispatch e).comp.forwards = node.comp.forwards ++ forwarded ∧
      (taken ++ forwarded.map Prod.snd).Sublist (e.2.submitted.toList ++ e.2.handedOn.toList) ∧
      ∀ call ∈ forwarded, call.1 = node.comp.curView.leaderId := by
  have same {c : Comp} {node' : Node} (has : HasComp c node') :
      node'.comp.numbered = c.numbered ∧ node'.comp.forwards = c.forwards := by
    obtain ⟨fault, equal⟩ := has
    rw [equal]
    exact ⟨rfl, rfl⟩
  obtain ⟨env, nodeEvent⟩ := e
  rcases dispatch_calls node (env, nodeEvent) running with alone | ⟨event, calls, handled⟩
  · obtain ⟨numbered, forwards⟩ := same alone
    exact ⟨[], [], by rw [numbered, List.append_nil], by rw [forwards, List.append_nil],
      List.nil_sublist _, fun call member => by cases member⟩
  · obtain ⟨numbered, forwards⟩ := same handled
    refine ⟨_, _, numbered.trans (Comp.numbered_handle node.comp _ running),
      forwards.trans (Comp.forwards_handle node.comp _ running), ?_, ?_⟩
    · refine (Comp.taken_or_forwards node.comp (env.toEnv, event)).trans ?_
      cases calls with
      | message msg active => exact .refl _
      | submit data active => exact .refl _
      | makeProgress | updateView | acceptorUpdateRecord => exact List.nil_sublist _
    · intro call member
      cases event with
      | submit data =>
        simp only [Comp.forwardsOn] at member
        split at member
        next => cases member
        next =>
          rw [List.mem_singleton.mp member]
      | message | makeProgress | updateView | acceptorUpdateRecord => cases member

end Node

end LibeventPaxos
