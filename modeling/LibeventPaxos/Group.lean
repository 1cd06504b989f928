import Mathlib.Data.Fintype.Basic
import LibeventPaxos.ConsensusFrame

/-!
A replica group: `n` components and the network between them. Whatever a component has sent may
arrive at its target at any later time, any number of times, or never; of a `missing_ack` only the
front of the record arrives.
-/
namespace LibeventPaxos

open Lib

abbrev Group (n : ℕ) := Fin n → Comp

/-- An event at one node. -/
abbrev GroupEvent (n : ℕ) := Fin n × Env × CompEvent

namespace Group

variable {n : ℕ}

/-- `send_for_consensus_comp`: a negative target is every other node; no node is its own peer. -/
def Reaches (source target : Fin n) (call : Int × ConsensusMsg) : Prop :=
  source ≠ target ∧ (call.1 < 0 ∨ call.1 = (target : ℕ))

instance (source target : Fin n) (call : Int × ConsensusMsg) :
    Decidable (Reaches source target call) :=
  inferInstanceAs (Decidable (source ≠ target ∧ (call.1 < 0 ∨ call.1 = (target : ℕ))))

/-- A message that arrives was sent by another node. -/
def Sent (g : Group n) (target : Fin n) : CompEvent → Prop
  | .message msg => ∃ source, ∃ call ∈ (g source).upCalls,
      Reaches source target call ∧ call.2.Received msg
  | _ => True

instance (g : Group n) (target : Fin n) : ∀ event, Decidable (Sent g target event)
  | .message msg => inferInstanceAs (Decidable (∃ source, ∃ call ∈ (g source).upCalls,
      Reaches source target call ∧ call.2.Received msg))
  | .submit _ => .isTrue trivial
  | .makeProgress => .isTrue trivial
  | .updateView _ => .isTrue trivial
  | .acceptorUpdateRecord _ _ => .isTrue trivial

/-- The record that is read of a `missing_ack` is one that was sent: what lies behind the message
are the bytes it lacks. Other messages are read as they were sent anyhow. -/
def Intact (g : Group n) (target : Fin n) : CompEvent → Prop
  | .message (.missingAck nodeId missingVs record) => ∃ source, ∃ call ∈ (g source).upCalls,
      Reaches source target call ∧ call.2 = .missingAck nodeId missingVs record
  | _ => True

instance (g : Group n) (target : Fin n) : ∀ event, Decidable (Intact g target event)
  | .message (.missingAck nodeId missingVs record) => inferInstanceAs (Decidable (∃ source,
      ∃ call ∈ (g source).upCalls,
        Reaches source target call ∧ call.2 = .missingAck nodeId missingVs record))
  | .message (.acceptReq _ _ _ _) => .isTrue trivial
  | .message (.acceptAck _ _) => .isTrue trivial
  | .message (.missingReq _ _) => .isTrue trivial
  | .message (.forceExec _ _) => .isTrue trivial
  | .message (.forwardReq _ _) => .isTrue trivial
  | .submit _ => .isTrue trivial
  | .makeProgress => .isTrue trivial
  | .updateView _ => .isTrue trivial
  | .acceptorUpdateRecord _ _ => .isTrue trivial

/-- `system_initialize` on every node: at most one is started as the seed. -/
def start (n : ℕ) (seed : Option (Fin n)) : Group n :=
  fun i => Comp.init (decide (seed = some i)) i n

def act (g : Group n) (e : GroupEvent n) : Group n :=
  Function.update g e.1 (Comp.handle (g e.1) e.2)

def machine (n : ℕ) (seed : Option (Fin n)) : Machine (Group n) (GroupEvent n) where
  initial g := g = start n seed
  enabled g e := (g e.1).fault = none ∧ Sent g e.1 e.2.2
  apply := act

instance (seed : Option (Fin n)) (g : Group n) (e : GroupEvent n) :
    Decidable ((machine n seed).enabled g e) :=
  inferInstanceAs (Decidable ((g e.1).fault = none ∧ Sent g e.1 e.2.2))

@[simp] theorem act_self (g : Group n) (e : GroupEvent n) :
    act g e e.1 = Comp.handle (g e.1) e.2 := Function.update_self ..

theorem act_other (g : Group n) (e : GroupEvent n) (i : Fin n) (other : i ≠ e.1) :
    act g e i = g i := Function.update_of_ne other ..

/-- An intact message is in flight to its target as it is read. -/
theorem Sent.exact {g : Group n} {target : Fin n} {msg : ConsensusMsg}
    (sent : Sent g target (.message msg)) (intact : Intact g target (.message msg)) :
    ∃ source, ∃ call ∈ (g source).upCalls, Reaches source target call ∧ call.2 = msg := by
  obtain ⟨source, ⟨address, built⟩, member, reaches, received⟩ := sent
  cases received with
  | whole => exact ⟨source, (address, built), member, reaches, rfl⟩
  | short nodeId missingVs record read front => exact intact

/-- A property of each node is kept if the node that acts keeps it. -/
theorem act_forall (g : Group n) (e : GroupEvent n) (holds : Fin n → Comp → Prop)
    (before : ∀ i, holds i (g i)) (acts : holds e.1 (Comp.handle (g e.1) e.2)) (i : Fin n) :
    holds i (act g e i) := by
  by_cases same : i = e.1
  · subst same
    rwa [act_self]
  · rw [act_other g e i same]
    exact before i

/-! ## Assigned stamps and payloads -/

/-- Some node has given the stamp to a request with this payload. -/
def Assigned (g : Group n) (vs : ViewStamp) (data : List UInt8) : Prop :=
  ∃ i, (vs, data) ∈ (g i).assigned

theorem assigned_grows (g : Group n) (e : GroupEvent n) (running : (g e.1).fault = none)
    (i : Fin n) : (g i).assigned <+: (act g e i).assigned := by
  by_cases same : i = e.1
  · subst same
    rw [act_self]
    cases (Comp.handle_step (g e.1) e.2 running).1 with
    | stays nothing assigned view role seen => rw [assigned]
    | takes data some_data leader assigned view role seen =>
      rw [assigned]
      exact List.prefix_append _ _
    | enters newViewInfo event nothing successor assigned view role seen => rw [assigned]
  · rw [act_other g e i same]

theorem Assigned.act {g : Group n} {vs : ViewStamp} {data : List UInt8}
    (assigned : Assigned g vs data) (e : GroupEvent n) (running : (g e.1).fault = none) :
    Assigned (act g e) vs data := by
  obtain ⟨i, member⟩ := assigned
  exact ⟨i, (assigned_grows g e running i).subset member⟩

/-- Every payload stored or sent was given its stamp by some node. -/
def Sourced (g : Group n) : Prop := ∀ i, (g i).From (Assigned g)

theorem start_sourced (seed : Option (Fin n)) : Sourced (start n seed) := by
  intro i
  constructor
  · intro vs _ value found
    cases found
  · intro call member
    cases member

theorem Sourced.act {g : Group n} (sourced : Sourced g) (e : GroupEvent n)
    (running : (g e.1).fault = none) (sent : Sent g e.1 e.2.2) (intact : Intact g e.1 e.2.2) :
    Sourced (act g e) := by
  have before : ∀ i, (g i).From (Assigned (Group.act g e)) := fun i =>
    (sourced i).mono fun _ _ assigned => assigned.act e running
  refine act_forall g e (fun _ c => c.From (Assigned (Group.act g e))) before ?_
  refine (before e.1).handle running e.2 ?_ ?_
  · intro env msg event
    rw [event] at sent intact
    obtain ⟨source, call, member, -, rfl⟩ := sent.exact intact
    exact (before source).calls call member
  · intro data some_data _
    refine ⟨e.1, ?_⟩
    rw [act_self]
    cases (Comp.handle_step (g e.1) e.2 running).1 with
    | stays nothing => rw [nothing] at some_data; cases some_data
    | takes data' some_data' leader assigned =>
      obtain rfl := Option.some.inj (some_data.symm.trans some_data')
      rw [assigned]
      simp
    | enters newViewInfo event nothing => rw [nothing] at some_data; cases some_data

end Group

end LibeventPaxos
