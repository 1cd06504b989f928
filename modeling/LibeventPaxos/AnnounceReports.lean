import LibeventPaxos.ScanCapacity
import LibeventPaxos.NodeCalls

/-!
What an announcement makes a node report: the elected node takes its own undecided range and the
empty slots in it, every other node sends its range and the slots it has found empty.
-/
namespace LibeventPaxos

open Lib

/-- The undecided range of the component and the ids in it that have no record. -/
def Comp.ownReport (c : Comp) : Report :=
  ⟨(EdgeMod.undecidedRange c).1, (EdgeMod.undecidedRange c).2,
    c.missingIds (EdgeMod.undecidedRange c).1 (EdgeMod.undecidedRange c).2⟩

theorem Comp.ownReport_ordered (c : Comp) : c.ownReport.Ordered where
  sorted := c.missingIds_sorted _ _
  inside r member := by
    obtain ⟨low, high, -⟩ := (c.mem_missingIds _ _ r).mp member
    exact ⟨low, high⟩

namespace EdgeMod

/-- A range set up without a fault and with no slot listed before is the leader's own. -/
theorem initializeEdgeMod_own (c : Comp) (edge : EdgeMod) (cleared : edge.curEmptySlots = 0)
    (length : 0 ≤ initialLength c) (faultless : (initializeEdgeMod c edge).2 = none) :
    let edge' := (initializeEdgeMod c edge).1
    edge'.start = c.ownReport.start ∧ edge'.stop = c.ownReport.stop ∧
      edge'.listed = c.ownReport.ids ∧ edge'.Allocated ∧
      edge'.msgCount = some (Function.update (fun _ => false) (c.nodeId : Int) true) := by
  obtain ⟨slots, scan⟩ : ∃ slots,
      initializeEdgeMod c edge = leaderCalEdge c (restarted c edge slots) := by
    cases req : edge.reqEdge with
    | none => exact ⟨_, initializeEdgeMod_first c edge req length⟩
    | some slots =>
      refine ⟨slots, initializeEdgeMod_again c edge slots req length ?_⟩
      by_contra outside
      rw [initializeEdgeMod_refused c edge slots req (.inr (Int.not_le.mp outside))] at faultless
      cases faultless
  intro edge'
  have result := leaderCalEdge_eq c (restarted c edge slots)
    (clearFront slots (initialLength c).toNat) rfl
  rw [scan, result] at faultless
  split at faultless
  next room =>
    have same : edge' = ((restarted c edge slots).countingSelf c).recorded
        (clearFront slots (initialLength c).toNat) c.ownReport.ids := by
      show (initializeEdgeMod c edge).1 = _
      rw [scan, result, if_pos room]
      rfl
    have cur : (restarted c edge slots).curEmptySlots = 0 := cleared
    refine ⟨by rw [same]; rfl, by rw [same]; rfl, ?_, ?_, by rw [same]; rfl⟩
    · rw [same, listed]
      simp only [recorded, countingSelf, cur, Option.getD_some, List.take_zero, List.nil_append,
        Nat.zero_add, List.take_left]
    · refine ⟨_, by rw [same]; rfl, ?_⟩
      rw [same]
      simp only [recorded, countingSelf, cur, List.take_zero, List.nil_append, Nat.zero_add,
        List.length_append]
      omega
  next full => cases faultless

end EdgeMod

namespace Node

/-! ## What an announcement must find -/

/-- What is said of every id of a list is checked on the list. -/
instance (priority := high) decidableForallIds (ids : List UInt32) (p : UInt32 → Prop)
    [DecidablePred p] : Decidable (∀ r ∈ ids, p r) :=
  List.decidableBAll p ids

/-- The ids a follower finds without a record in the range left in `mod->edge` are the empty slots
of its own range; the start of the range may be left out. -/
structure ScansOwnHoles (c : Comp) (edge : EdgeMod) : Prop where
  below : c.highestSeenVs.reqId ≠ 0xFFFFFFFF
  inside : ∀ r ∈ c.missingIds edge.start edge.stop,
    c.ownReport.start.toNat ≤ r.toNat ∧ r.toNat ≤ c.ownReport.stop.toNat
  found : ∀ r ∈ c.ownReport.ids, r ≠ c.ownReport.start →
    edge.start.toNat ≤ r.toNat ∧ r.toNat ≤ edge.stop.toNat

instance (c : Comp) (edge : EdgeMod) : Decidable (ScansOwnHoles c edge) :=
  decidable_of_iff (c.highestSeenVs.reqId ≠ 0xFFFFFFFF ∧
      (∀ r ∈ c.missingIds edge.start edge.stop,
        c.ownReport.start.toNat ≤ r.toNat ∧ r.toNat ≤ c.ownReport.stop.toNat) ∧
      ∀ r ∈ c.ownReport.ids, r ≠ c.ownReport.start →
        edge.start.toNat ≤ r.toNat ∧ r.toNat ≤ edge.stop.toNat)
    ⟨fun ⟨below, inside, found⟩ => ⟨below, inside, found⟩,
      fun scans => ⟨scans.below, scans.inside, scans.found⟩⟩

/-- The node has seen a request of its view. The elected node has no slot listed and asks for a
length there is; every other node finds its own holes. -/
structure ReportsRange (node : Node) (msg : LeleMsg) : Prop where
  seen : SeesView node.comp
  leads : msg.content = node.nodeId →
    node.electionMod.edge.curEmptySlots = 0 ∧ 0 ≤ EdgeMod.initialLength node.comp
  follows : msg.content ≠ node.nodeId → ScansOwnHoles node.comp node.electionMod.edge

instance (node : Node) (msg : LeleMsg) : Decidable (ReportsRange node msg) :=
  decidable_of_iff (SeesView node.comp ∧
      (msg.content = node.nodeId →
        node.electionMod.edge.curEmptySlots = 0 ∧ 0 ≤ EdgeMod.initialLength node.comp) ∧
      (msg.content ≠ node.nodeId → ScansOwnHoles node.comp node.electionMod.edge))
    ⟨fun ⟨seen, leads, follows⟩ => ⟨seen, leads, follows⟩,
      fun reports => ⟨reports.seen, reports.leads, reports.follows⟩⟩

/-! ## What a node makes of an announcement -/

/-- What the acknowledgement of an announcement says, apart from the range and the slots. -/
structure AckFor (node : Node) (msg : LeleMsg) (data : List UInt32) : Prop where
  type : msg.type = .announceAck
  nodeId : msg.nodeId = node.nodeId
  nextView : msg.nextView = node.electionMod.nextView
  report : (⟨msg.startReq, msg.lastReq, data⟩ : Report) = ⟨node.comp.ownReport.start,
    node.comp.ownReport.stop, node.comp.missingIds node.electionMod.edge.start
      node.electionMod.edge.stop⟩
  count : msg.pnum = data.length

/-- What `leader_election_handle_announce` does to a node that returns. -/
structure Announced (node : Node) (content : NodeId) (node' : Node) : Prop where
  comp : node'.comp = node.comp
  state : node'.state = .postLele
  newLeader : node'.electionMod.newLeader = content
  leads : content = node.nodeId →
    node'.electionMod.edge = (EdgeMod.initializeEdgeMod node.comp node.electionMod.edge).1 ∧
      (EdgeMod.initializeEdgeMod node.comp node.electionMod.edge).2 = none ∧
      node'.electionMod.announceAckMsg = node.electionMod.announceAckMsg ∧
      node'.acksSent = node.acksSent
  follows : content ≠ node.nodeId → node.comp.highestSeenVs.reqId ≠ 0xFFFFFFFF →
    SeesView node.comp → ∃ msg data, AckFor node msg data ∧
      node'.electionMod.announceAckMsg = some (.leaderElection msg data) ∧
      node'.acksSent = node.acksSent ++ [(content, .leaderElection msg data)]

section Announce

variable {env : NodeEnv} {node : Node} {msg : LeleMsg}

/-- The range of a node that has seen a request of its view ends at the request. -/
theorem undecidedRange_stop (seen : SeesView node.comp) :
    (EdgeMod.undecidedRange node.comp).2 = node.comp.highestSeenVs.reqId := by
  rw [undecidedRange_of_seen seen]

/-- A handler that fails has kept and sent nothing new. -/
theorem handleAnnounce_failed
    (fails : (node.leaderElectionHandleAnnounce env msg).comp.fault ≠ none)
    (running : node.comp.fault = none) :
    (node.leaderElectionHandleAnnounce env msg).electionMod.announceAckMsg =
        node.electionMod.announceAckMsg ∧
      (node.leaderElectionHandleAnnounce env msg).acksSent = node.acksSent := by
  revert fails
  simp only [leaderElectionHandleAnnounce, leaderElectionInitializeEdgeMod, leaderElectionCalEdge]
  split
  next own => split <;> exact fun _ => ⟨rfl, rfl⟩
  next other =>
    split
    next seen =>
      split
      next huge => exact fun _ => ⟨rfl, rfl⟩
      next sized =>
        split
        next fault _ => exact fun _ => ⟨rfl, rfl⟩
        next => exact fun fails => absurd running fails
    next nothing => exact fun fails => absurd running fails

theorem handleAnnounce_announced
    (running : (node.leaderElectionHandleAnnounce env msg).comp.fault = none) :
    Announced node msg.content (node.leaderElectionHandleAnnounce env msg) := by
  revert running
  simp only [leaderElectionHandleAnnounce]
  by_cases own : msg.content = node.nodeId
  · rw [if_pos (by exact own)]
    simp only [leaderElectionInitializeEdgeMod, withMod]
    generalize result : EdgeMod.initializeEdgeMod node.comp node.electionMod.edge = scan
    obtain ⟨edge, fault⟩ := scan
    cases fault with
    | some fault => exact fun faultless => absurd faultless (Option.some_ne_none _)
    | none =>
      intro _
      refine ⟨rfl, rfl, rfl, fun _ => ?_, fun other => absurd own other⟩
      rw [result]
      exact ⟨rfl, rfl, rfl, rfl⟩
  · rw [if_neg (by exact own)]
    simp only [leaderElectionCalEdge]
    -- a range that ends at 0xFFFFFFFF is taken for none, and nothing is scanned
    by_cases last : (EdgeMod.undecidedRange node.comp).2 = 0xFFFFFFFF
    · rw [if_neg (not_not_intro last)]
      intro _
      refine ⟨rfl, rfl, rfl, fun leads => absurd leads own, fun _ below seen => ?_⟩
      rw [undecidedRange_stop seen] at last
      exact absurd last below
    · rw [if_pos last]
      by_cases length : EdgeMod.edgeLength (EdgeMod.undecidedRange node.comp).1
          (EdgeMod.undecidedRange node.comp).2 < 0
      · rw [if_pos length]
        exact fun faultless => absurd faultless (Option.some_ne_none _)
      · rw [if_neg length, emptySlots_eq _ _ _ (Int.not_lt.mp length)]
        by_cases room : (node.comp.missingIds node.electionMod.edge.start
            node.electionMod.edge.stop).length ≤
              (EdgeMod.edgeLength (EdgeMod.undecidedRange node.comp).1
                (EdgeMod.undecidedRange node.comp).2).toNat
        · rw [if_pos room]
          by_cases halts : node.electionMod.edge.ScanHalts
          · simp only [if_pos halts]
            intro _
            refine ⟨rfl, rfl, rfl, fun leads => absurd leads own, fun _ _ _ => ?_⟩
            exact ⟨_, _, ⟨rfl, rfl, rfl, rfl, rfl⟩, rfl, List.filter_append ..⟩
          · simp only [if_neg halts]
            exact fun faultless => absurd faultless (Option.some_ne_none _)
        · rw [if_neg room]
          exact fun faultless => absurd faultless (Option.some_ne_none _)

/-- The elected node has set its range up. -/
theorem Announced.startsFrom {node' : Node} (announced : Announced node msg.content node')
    (reports : node.ReportsRange msg) (own : msg.content = node.nodeId) :
    StartsFrom node.comp.ownReport node' := by
  obtain ⟨edge, faultless, -, -⟩ := announced.leads own
  obtain ⟨cleared, length⟩ := reports.leads own
  obtain ⟨start, stop, listed, allocated, counts⟩ :=
    EdgeMod.initializeEdgeMod_own node.comp node.electionMod.edge cleared length faultless
  have nodeId : node'.nodeId = (node.comp.nodeId : Int) := by
    rw [Node.nodeId, announced.comp]
  refine ⟨node.comp.ownReport_ordered, ?_, ?_, ?_, ?_, ?_⟩
  · rw [edge, start]
  · rw [edge, stop]
  · rw [edge, listed]
  · rw [edge]
    exact allocated
  · rw [edge, counts]
    refine ⟨_, rfl, fun other => ?_⟩
    rw [Function.update_apply, nodeId]
    split
    next same => rw [same, decide_eq_true rfl]
    next differs => rw [decide_eq_false differs]

end Announce

/-! ## Announcements among the calls of an event -/

section Calls

variable {env : NodeEnv} {node called : Node} {msg announce : LeleMsg}

theorem learnerCall_called (call : node.learnerCall env msg = some (called, announce)) :
    Elects node called ∧ Unannounced node called := by
  simp only [learnerCall] at call
  split at call
  next newer =>
    obtain ⟨decided, -, same⟩ := Option.map_eq_some_iff.mp call
    obtain ⟨rfl, rfl⟩ := Prod.mk.inj same
    refine ⟨Elects.trans ?_ (elects_sendToOtherNodes _ _), rfl, rfl, rfl, id, acksSent_send rfl rfl⟩
    exact elects_withMod node _ rfl
  next older => cases call

theorem accepting_elects (node : Node) (msg : LeleMsg) :
    Elects node (node.accepting msg) ∧ Unannounced node (node.accepting msg) := by
  refine ⟨Elects.trans ?_ (elects_acceptorUpdateRecord _), rfl, rfl, rfl, id, rfl⟩
  exact ⟨⟨_, _, rfl⟩, fun _ _ => rfl, rfl, .inl rfl, rfl, rfl, rfl, rfl, fun _ => id,
    List.subset_append_left _ _⟩

/-- Up to the call the node has written its acceptor's record and told the others what it has
learned. -/
theorem announceCall_called (call : node.announceCall env msg = some (called, announce)) :
    Elects node called ∧ Unannounced node called := by
  cases type : msg.type with
  | accept =>
    simp only [announceCall, type] at call
    split at call
    next accepts =>
      obtain ⟨elects, same⟩ := learnerCall_called call
      obtain ⟨before, same'⟩ := accepting_elects node msg
      exact ⟨before.trans elects, same'.trans same⟩
    next refuses => cases call
  | acceptAck =>
    simp only [announceCall, type] at call
    exact learnerCall_called call
  | announce =>
    simp only [announceCall, type] at call
    obtain ⟨rfl, -⟩ := Prod.mk.inj (Option.some.inj call)
    exact ⟨.refl node, .refl node⟩
  | announceAck =>
    simp only [announceCall, type] at call
    split at call
    next early =>
      obtain ⟨rfl, -⟩ := Prod.mk.inj (Option.some.inj call)
      exact ⟨.refl node, .refl node⟩
    next late => cases call
  | _ =>
    simp only [announceCall, type] at call
    cases call

/-- What follows the announcement changes nothing but the other messages sent. -/
structure Finishes (after final : Node) : Prop where
  comp : final.comp = after.comp
  state : final.state = after.state
  electionMod : final.electionMod = after.electionMod
  acks : final.acksSent = after.acksSent

theorem leaderElectionDo_finishes (data : List UInt32)
    (call : node.announceCall env msg = some (called, announce)) (other : msg.type ≠ .announceAck) :
    Finishes (called.leaderElectionHandleAnnounce env announce)
      (node.leaderElectionDo env msg data) := by
  have same : ∀ after : Node, Finishes after after := fun _ => ⟨rfl, rfl, rfl, rfl⟩
  cases type : msg.type with
  | accept =>
    simp only [announceCall, type] at call
    split at call
    next accepts =>
      simp only [leaderElectionDo, type]
      rw [handleAccept_eq accepts, (learnerCall_some call).1]
      simp only [andThen]
      split
      next runs => exact ⟨rfl, rfl, rfl, acksSent_send rfl rfl⟩
      next fails => exact same _
    next refuses => cases call
  | acceptAck =>
    simp only [announceCall, type] at call
    simp only [leaderElectionDo, type, (learnerCall_some call).1]
    exact same _
  | announce =>
    simp only [announceCall, type] at call
    obtain ⟨rfl, rfl⟩ := Prod.mk.inj (Option.some.inj call)
    simp only [leaderElectionDo, type]
    exact same _
  | announceAck => exact absurd type other
  | _ =>
    simp only [announceCall, type] at call
    cases call

end Calls

/-! ## Acknowledgements -/

/-- The view the elected node opens when it has merged the acknowledgements up to now. -/
def openedView (node : Node) : View :=
  ⟨node.electionMod.nextView, node.electionMod.newLeader, node.electionMod.edge.boundary⟩

/-- What an acknowledgement of a node not heard before makes of the node. -/
structure TakesAck (env : NodeEnv) (node : Node) (msg : LeleMsg) (data : List UInt32)
    (msgCount : NodeId → Bool) (node' : Node) : Prop where
  edge : node'.electionMod.edge =
    ((node.electionMod.edge.hearing msg.nodeId).mergeAck env msg data).1
  nextView : node'.electionMod.nextView = node.electionMod.nextView
  newLeader : node'.electionMod.newLeader = node.electionMod.newLeader
  kept : node'.electionMod.announceAckMsg = node.electionMod.announceAckMsg
  acks : node'.acksSent = node.acksSent
  comp : HasComp node.comp node' ∧ node'.state = node.state ∨
    node'.state = .active ∧ node.viewId + 1 = node.electionMod.nextView ∧
      node.groupSize / 2 + 1 ≤ EdgeMod.heard node.groupSize
        (Function.update msgCount msg.nodeId true) ∧
      node'.comp = Comp.consensusUpdateRole { node.comp with
        curView := node'.openedView, db := Comp.boundaryDb env.toEnv node.comp node'.openedView }

section Ack

variable {env : NodeEnv} {node : Node} {msg : LeleMsg} {data : List UInt32}

/-- The elected node opens its view, or stays where it is. -/
theorem leaderElectionLeaderClose_cases (env : NodeEnv) (node : Node)
    (running : node.comp.fault = none) (kept : node.evLeaderPing ≠ .freed) :
    let node' := node.leaderElectionLeaderClose env
    node'.electionMod = node.electionMod ∧ node'.acksSent = node.acksSent ∧
      (HasComp node.comp node' ∧ node'.state = node.state ∨
        node'.state = .active ∧ node.viewId + 1 = node.electionMod.nextView ∧
          node'.comp = Comp.consensusUpdateRole { node.comp with
            curView := node.openedView
            db := Comp.boundaryDb env.toEnv node.comp node.openedView }) := by
  have closes : node.leaderElectionLeaderClose env =
      (node.updateView env node.openedView).andThen fun after =>
        after.sendToOtherNodes (.leaderElection (buildClose env node.openedView) []) := rfl
  have mod := (electionMod_updateView env node node.openedView).1
  have sent := acksSent_same (sent_afterUpdateView env node node.openedView)
  intro node'
  have told : node'.electionMod = node.electionMod ∧ node'.acksSent = node.acksSent := by
    simp only [node', closes, andThen]
    split
    next runs => exact ⟨mod, (acksSent_send rfl rfl).trans sent⟩
    next fails => exact ⟨mod, sent⟩
  refine ⟨told.1, told.2, ?_⟩
  rcases updateView_cases env node node.openedView running kept with
    ⟨ignored, -⟩ | ⟨-, failed⟩ | entered
  · refine .inl ?_
    simp only [node', closes, ignored, andThen_of_running _ _ running]
    exact ⟨⟨_, rfl⟩, rfl⟩
  · refine .inl ?_
    have faulty : (node.fail .assertion).comp.fault ≠ none := Option.some_ne_none _
    simp only [node', closes, failed, andThen_of_fault _ _ faulty]
    exact ⟨⟨_, rfl⟩, rfl⟩
  · have runs : (node.updateView env node.openedView).comp.fault = none := by
      rw [entered.comp]
      exact running
    refine .inr ?_
    simp only [node', closes, andThen_of_running _ _ runs]
    exact ⟨entered.state, entered.successor, entered.comp⟩

/-- An acknowledgement is merged, or changes neither the range nor the component. -/
theorem mergeAnnounceAck_cases (env : NodeEnv) (node : Node) (msg : LeleMsg) (data : List UInt32)
    (running : node.comp.fault = none) (kept : node.evLeaderPing ≠ .freed) :
    let node' := node.mergeAnnounceAck env msg data
    (Unannounced node node' ∧ HasComp node.comp node' ∧ node'.state = node.state) ∨
      ∃ msgCount, node.electionMod.edge.msgCount = some msgCount ∧
        InGroup node.groupSize msg.nodeId ∧ msgCount msg.nodeId = false ∧
          TakesAck env node msg data msgCount node' := by
  have same : Unannounced node node ∧ HasComp node.comp node ∧ node.state = node.state :=
    ⟨.refl node, .same rfl, rfl⟩
  simp only [mergeAnnounceAck]
  cases counts : node.electionMod.edge.msgCount with
  | none => exact .inl ⟨⟨rfl, rfl, rfl, id, rfl⟩, ⟨_, rfl⟩, rfl⟩
  | some msgCount =>
    simp only
    by_cases group : InGroup node.groupSize msg.nodeId
    swap
    · rw [if_neg group]
      exact .inl ⟨⟨rfl, rfl, rfl, id, rfl⟩, ⟨_, rfl⟩, rfl⟩
    rw [if_pos group]
    by_cases heard : msgCount msg.nodeId = true
    · rw [if_pos heard]
      exact .inl same
    rw [if_neg heard]
    refine .inr ⟨msgCount, rfl, group, Bool.eq_false_iff.mpr heard, ?_⟩
    -- the sender is counted before its ids are merged
    have hearing : ({ node.electionMod.edge with
        msgCount := some (Function.update msgCount msg.nodeId true) } : EdgeMod) =
          node.electionMod.edge.hearing msg.nodeId := by
      rw [EdgeMod.hearing, counts, Option.map_some]
    rw [hearing]
    generalize result : (node.electionMod.edge.hearing msg.nodeId).mergeAck env msg data = merged
    obtain ⟨edge, fault⟩ := merged
    cases fault with
    | some fault => exact ⟨by rw [result]; rfl, rfl, rfl, rfl, rfl, .inl ⟨⟨_, rfl⟩, rfl⟩⟩
    | none =>
      simp only
      split
      next majority =>
        have closes := leaderElectionLeaderClose_cases env
          (node.withMod { node.electionMod with edge := edge }) running kept
        obtain ⟨mod, acks, ends⟩ := closes
        refine ⟨by rw [mod, result]; rfl, by rw [mod]; rfl, by rw [mod]; rfl, by rw [mod]; rfl,
          acks, ?_⟩
        rcases ends with stays | ⟨active, successor, comp⟩
        · exact .inl stays
        · refine .inr ⟨active, successor, majority, ?_⟩
          rw [comp, openedView, openedView, mod]
          rfl
      next minority => exact ⟨by rw [result]; rfl, rfl, rfl, rfl, rfl, .inl ⟨⟨_, rfl⟩, rfl⟩⟩

end Ack

/-! ## Events without an announcement -/

/-- The node announces nothing and merges nothing; it may send the acknowledgement it keeps once
more. -/
structure Repeats (node node' : Node) : Prop where
  post : node'.state = .postLele → node.state = .postLele ∧
    node'.electionMod.edge = node.electionMod.edge ∧
    node'.electionMod.newLeader = node.electionMod.newLeader
  kept : ∀ msg, node'.electionMod.announceAckMsg = some msg →
    node.electionMod.announceAckMsg = some msg
  acks : ∀ call ∈ node'.acksSent, call ∈ node.acksSent ∨
    node.electionMod.announceAckMsg = some call.2

section Repeats

variable {env : NodeEnv} {node node' : Node}

theorem Unannounced.repeats (same : Unannounced node node') : Repeats node node' where
  post post := ⟨same.post post, same.edge, same.newLeader⟩
  kept _ kept := same.kept ▸ kept
  acks _ member := .inl (same.acks ▸ member)

theorem unannounced_handlePingReq (env : NodeEnv) (node : Node) (nodeId : NodeId) (view : View)
    (timestamp : TimeVal) : Unannounced node (node.handlePingReq env nodeId view timestamp) := by
  simp only [handlePingReq]
  split
  next successor => exact unannounced_updateView env node view
  next =>
    split
    next lagged => exact ⟨rfl, rfl, rfl, id, acksSent_send rfl rfl⟩
    next =>
      split
      next same =>
        split_ifs <;>
          first
          | exact ⟨rfl, rfl, rfl, id, rfl⟩
          | exact ⟨rfl, rfl, rfl, fun post => (by cases post), rfl⟩
      next other => exact .refl node

theorem unannounced_handleMsg (msg : SysMsg)
    (unhandled : node.electionMsg (.message msg) = none) :
    Unannounced node (node.handleMsg env msg) := by
  cases msg with
  | pingAck nodeId view timestamp =>
    simp only [handleMsg, handlePingAck_ignored, ite_self]
    exact .refl node
  | pingReq nodeId view timestamp =>
    simp only [handleMsg]
    split
    next listens => exact unannounced_handlePingReq env node nodeId view timestamp
    next => exact .refl node
  | consensus msg =>
    simp only [handleMsg]
    split
    next active => exact ⟨rfl, rfl, rfl, id, rfl⟩
    next => exact .refl node
  | requestSubmit data =>
    simp only [handleMsg]
    split
    next active => exact ⟨rfl, rfl, rfl, id, rfl⟩
    next => exact .refl node
  | leaderElection msg data =>
    simp only [electionMsg] at unhandled
    simp only [handleMsg, handleLeaderElectionMsg]
    split
    next election =>
      split
      next other =>
        split
        next late =>
          split
          next close built =>
            -- a message of an election that is over is answered with a FIN
            have fin : close.type = .fin := by
              obtain ⟨value, -, same⟩ := Option.map_eq_some_iff.mp built
              rw [← same]
              rfl
            refine ⟨rfl, rfl, rfl, id, acksSent_send rfl ?_⟩
            simp [SysMsg.isAck, fin]
          next => exact .refl node
        next => exact .refl node
      next current =>
        rw [if_pos ⟨election, not_not.mp current⟩] at unhandled
        cases unhandled
    next => exact .refl node

theorem repeats_leaderElectionOnTimeout (env : NodeEnv) (node : Node) :
    Repeats node (node.leaderElectionOnTimeout env) := by
  simp only [leaderElectionOnTimeout]
  split
  next post =>
    split
    next other =>
      split
      next msg kept =>
        -- a follower in the post stage sends the acknowledgement it keeps again
        refine ⟨fun post => ⟨post, rfl, rfl⟩, fun _ => id, fun call member => ?_⟩
        have sent : ({ node with sent := node.sent ++ [(node.electionMod.newLeader, msg)] } :
            Node).acksSent = node.acksSent ++
              [(node.electionMod.newLeader, msg)].filter fun call => call.2.isAck :=
          List.filter_append ..
        have member' : call ∈ node.acksSent ++
            [(node.electionMod.newLeader, msg)].filter fun call => call.2.isAck := sent ▸ member
        rcases List.mem_append.mp member' with old | again
        · exact .inl old
        · rw [List.mem_singleton.mp (List.mem_of_mem_filter again)]
          exact .inr kept
      next => exact Unannounced.repeats ⟨rfl, rfl, rfl, id, rfl⟩
    next own => exact Unannounced.repeats ⟨rfl, rfl, rfl, id, rfl⟩
  next inElection =>
    refine Unannounced.repeats (Unannounced.andThen (unannounced_leaderElectionPropose env node) ?_)
    exact ⟨rfl, rfl, rfl, id, rfl⟩
  next => exact (Unannounced.refl node).repeats

/-- Every event but a message of the election the node is in. -/
theorem dispatch_repeats (node : Node) (e : NodeEnv × NodeEvent)
    (unhandled : node.electionMsg e.2 = none) : Repeats node (node.dispatch e) := by
  obtain ⟨env, event⟩ := e
  cases event with
  | message msg => exact (unannounced_handleMsg msg unhandled).repeats
  | leaderPing =>
    refine Unannounced.repeats ?_
    simp only [dispatch, leaderPingPeriod, initializeExpectPing]
    split_ifs <;>
      first
      | exact ⟨rfl, rfl, rfl, id, acksSent_send rfl rfl⟩
      | exact ⟨rfl, rfl, rfl, id, rfl⟩
  | expectPing =>
    simp only [dispatch, expectedLeaderPingPeriod, initializeExpectPing, initializeLeaderPing]
    split
    next leads =>
      split_ifs <;> exact Unannounced.repeats ⟨rfl, rfl, rfl, id, rfl⟩
    next follows =>
      split
      next heard => split_ifs <;> exact Unannounced.repeats ⟨rfl, rfl, rfl, id, rfl⟩
      next silent =>
        -- the election begins outside the post stage, on a cleared module if it is the first
        refine ⟨fun post => (by cases post), fun msg kept => ?_, fun call member => .inl member⟩
        simp only [initializeLeaderElection] at kept
        split at kept
        next allocated => exact kept
        next first => cases kept
  | makeProgress =>
    refine Unannounced.repeats ?_
    simp only [dispatch, makeProgressOn, initializeLeaderMakeProgress, andThen]
    split_ifs <;> exact ⟨rfl, rfl, rfl, id, rfl⟩
  | electionTimeout =>
    have fired := repeats_leaderElectionOnTimeout env
      (node.withMod { node.electionMod with slientPeriod := .idle })
    exact ⟨fired.post, fired.kept, fired.acks⟩

end Repeats

end Node

end LibeventPaxos
