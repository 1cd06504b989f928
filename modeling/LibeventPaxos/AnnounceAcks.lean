import LibeventPaxos.EdgeMerge

/-!
The acknowledgements a new leader receives, in any order: the range and the empty slots it has after
them, and the acknowledgements for which its merge is right.
-/
namespace LibeventPaxos

open Lib

/-- The module once a node is counted as heard. -/
def EdgeMod.hearing (edge : EdgeMod) (nodeId : NodeId) : EdgeMod :=
  { edge with
    msgCount := edge.msgCount.map fun msgCount => Function.update msgCount nodeId true }

/-- An acknowledgement, with what its handler draws from outside the program. -/
structure Ack where
  env : NodeEnv
  msg : LeleMsg
  data : List UInt32

namespace Ack

def report (ack : Ack) : Report := ⟨ack.msg.startReq, ack.msg.lastReq, ack.data⟩

def sender (ack : Ack) : NodeId := ack.msg.nodeId

end Ack

namespace Node

/-! ## One acknowledgement -/

/-- The first part of `leader_election_handle_announce_ack`. -/
def earlyAnnounce (node : Node) (ack : Ack) : Node :=
  if node.electionMod.edge.start = 0xFFFFFFFF ∧ node.nodeId = ack.msg.content then
    node.leaderElectionHandleAnnounce ack.env ack.msg
  else node

/-- The module the merge works on. -/
def mergedEdge (node : Node) (ack : Ack) : EdgeMod :=
  (node.earlyAnnounce ack).electionMod.edge.hearing ack.sender

def receive (node : Node) (ack : Ack) : Node :=
  node.leaderElectionHandleAnnounceAck ack.env ack.msg ack.data

theorem receive_eq (node : Node) (ack : Ack) :
    node.receive ack = (node.earlyAnnounce ack).andThen fun node =>
      node.mergeAnnounceAck ack.env ack.msg ack.data := rfl

/-- Closing the election leaves the merged range as it is. -/
theorem edge_leaderElectionLeaderClose (env : NodeEnv) (node : Node) :
    (node.leaderElectionLeaderClose env).electionMod.edge = node.electionMod.edge := by
  have entered := (electionMod_updateView env node ⟨node.electionMod.nextView,
    node.electionMod.newLeader, node.electionMod.edge.boundary⟩).1
  simp only [leaderElectionLeaderClose, andThen]
  split
  next runs => exact congrArg LeleMod.edge entered
  next fails => exact congrArg LeleMod.edge entered

/-- The acknowledgement of a node that was not heard before is merged. -/
theorem edge_mergeAnnounceAck (env : NodeEnv) (node : Node) (msg : LeleMsg) (data : List UInt32)
    (msgCount : NodeId → Bool) (allocated : node.electionMod.edge.msgCount = some msgCount)
    (group : InGroup node.groupSize msg.nodeId) (unheard : msgCount msg.nodeId = false) :
    (node.mergeAnnounceAck env msg data).electionMod.edge =
      ((node.electionMod.edge.hearing msg.nodeId).mergeAck env msg data).1 := by
  have counting : ({ node.electionMod.edge with
      msgCount := some (Function.update msgCount msg.nodeId true) } : EdgeMod) =
        node.electionMod.edge.hearing msg.nodeId := by
    rw [EdgeMod.hearing, allocated, Option.map_some]
  simp only [mergeAnnounceAck, allocated, if_pos group, unheard, counting]
  generalize (node.electionMod.edge.hearing msg.nodeId).mergeAck env msg data = result
  obtain ⟨edge, fault⟩ := result
  cases fault with
  | some fault => rfl
  | none =>
    simp only [Bool.false_eq_true, if_false]
    split
    next majority => exact edge_leaderElectionLeaderClose env _
    next waiting => rfl

/-- The handler ends, and reads no more ids than the message has. -/
structure MergesAck (node : Node) (ack : Ack) : Prop where
  announced : (node.earlyAnnounce ack).comp.fault = none
  ends : ((node.mergedEdge ack).mergeAck ack.env ack.msg ack.data).2 = none
  inside : EdgeMod.ReadsInside ack.env (node.mergedEdge ack) ack.msg ack.data

/-- The start of the range is not -1, which stands for a range not set up, and the ids are all
among the slots that are left or all beyond them. -/
structure Meets (node : Node) (ack : Ack) : Prop where
  started : ¬ (node.electionMod.edge.start = 0xFFFFFFFF ∧ node.nodeId = ack.msg.content)
  fits : node.electionMod.edge.Matched ack.report ∨ node.electionMod.edge.Passed ack.report

theorem Meets.earlyAnnounce {node : Node} {ack : Ack} (meets : node.Meets ack) :
    node.earlyAnnounce ack = node := if_neg meets.started

/-! ## Any number of acknowledgements -/

/-- The new leader has scanned its own range. -/
structure StartsFrom (own : Report) (node : Node) : Prop where
  ordered : own.Ordered
  start : node.electionMod.edge.start = own.start
  stop : node.electionMod.edge.stop = own.stop
  listed : node.electionMod.edge.listed = own.ids
  allocated : node.electionMod.edge.Allocated
  counted : ∃ msgCount, node.electionMod.edge.msgCount = some msgCount ∧
    ∀ nodeId, msgCount nodeId = decide (nodeId = node.nodeId)

/-- Until the next acknowledgement the node leaves its range alone. -/
structure Waits (node between : Node) : Prop where
  edge : between.electionMod.edge = node.electionMod.edge
  running : between.comp.fault = none

/-- An acknowledgement of another node than the leader and those heard before. -/
structure Proper (leader : NodeId) (groupSize : ℕ) (acks : List Ack) (ack : Ack) : Prop where
  group : InGroup groupSize ack.sender
  other : ack.sender ≠ leader
  fresh : ack.sender ∉ acks.map Ack.sender
  counted : EdgeMod.Counted ack.msg ack.data

/-- The leader has received the acknowledgements, the latest first, and at each the guard held. -/
inductive Receives (guard : Node → Ack → Prop) (start : Node) : List Ack → Node → Prop
  | none : Receives guard start [] start
  | next {acks : List Ack} {node between : Node} {ack : Ack}
      (earlier : Receives guard start acks node)
      (waits : Waits node between) (proper : Proper start.nodeId between.groupSize acks ack)
      (guarded : guard between ack) : Receives guard start (ack :: acks) (between.receive ack)

/-- What all nodes heard so far have reported, the leader included. -/
def reports (own : Report) (acks : List Ack) : List Report := acks.map Ack.report ++ [own]

/-- What holds after each acknowledgement. -/
structure Absorbed (own : Report) (leader : NodeId) (acks : List Ack) (edge : EdgeMod) : Prop where
  merging : edge.Merging (reports own acks)
  merges : acks ≠ [] ∨ own.start ∉ own.ids → Merges (reports own acks) edge
  counted : ∃ msgCount, edge.msgCount = some msgCount ∧
    ∀ nodeId, msgCount nodeId = true ↔ nodeId = leader ∨ nodeId ∈ acks.map Ack.sender

section Run

variable {own : Report} {start node between : Node} {acks : List Ack} {ack : Ack}

theorem largest_singleton (value : UInt32) : Largest [value] value := by
  refine ⟨List.mem_singleton_self value, ?_⟩
  intro other member
  rw [List.mem_singleton.mp member]

theorem StartsFrom.absorbed (starts : StartsFrom own start) :
    Absorbed own start.nodeId [] start.electionMod.edge := by
  have sorted : start.electionMod.edge.listed.Pairwise fun a b => a.toNat < b.toNat := by
    rw [starts.listed]
    exact starts.ordered.sorted
  -- of one report the open ids are its own
  have own_ids : ∀ r, r ∈ own.ids ↔
      r.toNat ≤ own.stop.toNat ∧ OpenIn (reports own []) r := by
    intro r
    simp only [reports, List.map_nil, List.nil_append, OpenIn, List.forall_mem_singleton]
    constructor
    · exact fun member => ⟨(starts.ordered.inside r member).2, .inl member⟩
    · rintro ⟨inside, member | beyond⟩
      · exact member
      · omega
  have first : Largest ((reports own []).map Report.start) start.electionMod.edge.start := by
    rw [starts.start]
    exact largest_singleton own.start
  have last : Largest ((reports own []).map Report.stop) start.electionMod.edge.stop := by
    rw [starts.stop]
    exact largest_singleton own.stop
  constructor
  · refine ⟨starts.allocated, first, last, sorted, ?_, ?_⟩
    · intro r member
      rw [starts.listed] at member
      rw [starts.start]
      exact (starts.ordered.inside r member).1
    · intro r _
      rw [starts.listed, starts.stop]
      exact own_ids r
  · rintro (some_ack | unlisted)
    · exact absurd rfl some_ack
    · refine ⟨first, last, sorted, ?_⟩
      intro r
      rw [starts.listed, starts.start, starts.stop, ← own_ids r]
      constructor
      · intro member
        refine ⟨?_, member⟩
        rcases Nat.eq_or_lt_of_le (starts.ordered.inside r member).1 with same | above
        · rw [UInt32.toNat_inj.mp same] at unlisted
          exact absurd member unlisted
        · exact above
      · exact fun both => both.2
  · obtain ⟨msgCount, same, alone⟩ := starts.counted
    refine ⟨msgCount, same, ?_⟩
    intro nodeId
    rw [alone nodeId, decide_eq_true_eq]
    simp

/-- The merge of an acknowledgement that fits, with the sender counted. -/
theorem Absorbed.merge {leader : NodeId} {edge : EdgeMod}
    (absorbed : Absorbed own leader acks edge) (counted : EdgeMod.Counted ack.msg ack.data)
    (fits : edge.Matched ack.report ∨ edge.Passed ack.report ∨ edge.Covered ack.env ack.report) :
    ∃ edge', (edge.hearing ack.sender).mergeAck ack.env ack.msg ack.data = (edge', none) ∧
      Absorbed own leader (ack :: acks) edge' := by
  obtain ⟨merging, -, msgCount, counts, members⟩ := absorbed
  -- counting the sender changes nothing the merge looks at
  have hearing : (edge.hearing ack.sender).Merging (reports own acks) :=
    ⟨merging.allocated, merging.start, merging.stop, merging.sorted, merging.low, merging.holes⟩
  have merged : ∃ edge' slots, (edge.hearing ack.sender).mergeAck ack.env ack.msg ack.data =
      (edge', none) ∧ EdgeMod.Merged (edge.hearing ack.sender) ack.report slots edge' ∧
        Merges (reports own (ack :: acks)) edge' := by
    rcases fits with matched | passed | covered
    · have matched : (edge.hearing ack.sender).Matched ack.report :=
        ⟨matched.listed, matched.larger, matched.first⟩
      obtain ⟨-, edge', left, result, merged, sorted, kept⟩ :=
        EdgeMod.mergeAck_matched ack.env (edge.hearing ack.sender) ack.msg ack.data counted
          hearing.allocated hearing.sorted matched
      exact ⟨edge', _, result, merged,
        hearing.matched counted.ordered matched left sorted kept merged⟩
    · have passed : (edge.hearing ack.sender).Passed ack.report :=
        ⟨passed.cleared, passed.low, passed.beyond, passed.large⟩
      obtain ⟨-, edge', result, merged⟩ :=
        EdgeMod.mergeAck_passed ack.env (edge.hearing ack.sender) ack.msg ack.data counted
          hearing.allocated passed
      exact ⟨edge', _, result, merged, hearing.passed passed merged⟩
    · have covered : (edge.hearing ack.sender).Covered ack.env ack.report :=
        ⟨covered.cleared, covered.within, covered.behind⟩
      obtain ⟨edge', result, merged⟩ :=
        EdgeMod.mergeAck_covered ack.env (edge.hearing ack.sender) ack.msg ack.data counted
          hearing.allocated covered
      exact ⟨edge', _, result, merged, hearing.covered covered merged⟩
  obtain ⟨edge', slots, result, merged, merges⟩ := merged
  refine ⟨edge', result, EdgeMod.Merging.of_merges merged.allocated merges, fun _ => merges,
    Function.update msgCount ack.sender true, ?_, ?_⟩
  · rw [merged.msgCount, EdgeMod.hearing, counts, Option.map_some]
  · intro nodeId
    rw [List.map_cons, List.mem_cons, Function.update_apply]
    by_cases same : nodeId = ack.sender
    · simp [same]
    · rw [if_neg same, members nodeId]
      simp [same]

/-- A merge in one of the two first cases reads no id behind the message. -/
theorem Absorbed.readsInside {leader : NodeId} {edge : EdgeMod}
    (absorbed : Absorbed own leader acks edge) (counted : EdgeMod.Counted ack.msg ack.data)
    (fits : edge.Matched ack.report ∨ edge.Passed ack.report) :
    EdgeMod.ReadsInside ack.env (edge.hearing ack.sender) ack.msg ack.data := by
  have merging := absorbed.merging
  rcases fits with matched | passed
  · exact (EdgeMod.mergeAck_matched ack.env (edge.hearing ack.sender) ack.msg ack.data counted
      merging.allocated merging.sorted ⟨matched.listed, matched.larger, matched.first⟩).1
  · exact (EdgeMod.mergeAck_passed ack.env (edge.hearing ack.sender) ack.msg ack.data counted
      merging.allocated ⟨passed.cleared, passed.low, passed.beyond, passed.large⟩).1

/-- One acknowledgement that fits is handled and merged. -/
theorem Absorbed.receive (absorbed : Absorbed own start.nodeId acks node.electionMod.edge)
    (waits : Waits node between) (proper : Proper start.nodeId between.groupSize acks ack)
    (meets : between.Meets ack) :
    between.MergesAck ack ∧ Absorbed own start.nodeId (ack :: acks)
      (between.receive ack).electionMod.edge := by
  rw [← waits.edge] at absorbed
  obtain ⟨msgCount, counts, members⟩ := absorbed.counted
  have unheard : msgCount ack.sender = false := by
    rw [Bool.eq_false_iff]
    intro known
    rcases (members ack.sender).mp known with leader | earlier
    · exact proper.other leader
    · exact proper.fresh earlier
  have early := meets.earlyAnnounce
  have module : between.mergedEdge ack = between.electionMod.edge.hearing ack.sender := by
    rw [mergedEdge, early]
  have received : (between.receive ack).electionMod.edge =
      ((between.electionMod.edge.hearing ack.sender).mergeAck ack.env ack.msg ack.data).1 := by
    rw [receive_eq, early, andThen_of_running between _ waits.running]
    exact edge_mergeAnnounceAck ack.env between ack.msg ack.data msgCount counts proper.group
      unheard
  obtain ⟨edge', result, merged⟩ := absorbed.merge proper.counted (meets.fits.imp_right .inl)
  constructor
  · constructor
    · rw [early]
      exact waits.running
    · rw [module, result]
    · rw [module]
      exact absorbed.readsInside proper.counted meets.fits
  · rw [received, result]
    exact merged

/-- After every acknowledgement of a run whose acknowledgements all fit. -/
theorem Receives.absorbed (starts : StartsFrom own start)
    (receives : Receives Meets start acks node) :
    Receives MergesAck start acks node ∧ Absorbed own start.nodeId acks node.electionMod.edge := by
  induction receives with
  | none => exact ⟨.none, starts.absorbed⟩
  | next earlier waits proper meets ih =>
    obtain ⟨handled, absorbed⟩ := ih
    obtain ⟨handles, merged⟩ := absorbed.receive waits proper meets
    exact ⟨handled.next waits proper handles, merged⟩

theorem mem_reports_of_perm {acks' : List Ack} (own : Report) (order : acks.Perm acks')
    (report : Report) : report ∈ reports own acks ↔ report ∈ reports own acks' := by
  simp only [reports, List.mem_append, (order.map Ack.report).mem_iff]

end Run

/-- Acknowledgements that all fit are handled, the leader has the range and the empty slots it
should have, and no other order of them changes that. -/
theorem acks_merged (own : Report) (start node : Node) (acks : List Ack)
    (starts : StartsFrom own start) (receives : Receives Meets start acks node) :
    Receives MergesAck start acks node ∧
      (acks ≠ [] ∨ own.start ∉ own.ids → Merges (reports own acks) node.electionMod.edge) ∧
      ∀ (acks' : List Ack) (node' : Node), acks.Perm acks' → Receives Meets start acks' node' →
        node.electionMod.edge.start = node'.electionMod.edge.start ∧
          node.electionMod.edge.stop = node'.electionMod.edge.stop ∧
          node.electionMod.edge.listed = node'.electionMod.edge.listed := by
  obtain ⟨handled, absorbed⟩ := receives.absorbed starts
  refine ⟨handled, absorbed.merges, ?_⟩
  intro acks' node' order receives'
  obtain ⟨-, absorbed'⟩ := receives'.absorbed starts
  by_cases nobody : acks = []
  · subst nobody
    obtain rfl := order.nil_eq
    cases receives
    cases receives'
    exact ⟨rfl, rfl, rfl⟩
  · have nobody' : acks' ≠ [] := fun empty => nobody (by
      rw [empty] at order
      exact order.eq_nil)
    exact (absorbed.merges (.inl nobody)).unique (absorbed'.merges (.inl nobody'))
      (mem_reports_of_perm own order)

/-- The leader has seen id 4 of view 2 as well, and lacks the three before it. -/
def leaderWithHoles : Node :=
  let node := { electedNode with
    comp := { electedNode.comp with
      highestSeenVs := ⟨2, 4⟩
      db := electedNode.comp.db.storeRecord (vstol ⟨2, 4⟩) (.request ⟨⟨1, 0⟩, 0, 1, [65]⟩) } }
  node.handleMsg lateEnv (.leaderElection announcement [])

/-- Another node has seen nothing beyond the id and lacks id 1. -/
def ackOf (nodeId : NodeId) (lastReq : UInt32) : Ack :=
  ⟨lateEnv, ⟨.announceAck, nodeId, 3, 1, 0, 0, lastReq, 0⟩, [1]⟩

theorem proper_ackOf {nodeId : NodeId} {lastReq : UInt32} {acks : List Ack}
    (group : InGroup 5 nodeId) (other : nodeId ≠ 0) (fresh : nodeId ∉ acks.map Ack.sender)
    (inside : 1 ≤ lastReq.toNat) : Proper leaderWithHoles.nodeId 5 acks (ackOf nodeId lastReq) where
  group := group
  other := other
  fresh := fresh
  counted :=
    { count := rfl
      ordered := by
        refine ⟨List.pairwise_singleton _ _, ?_⟩
        intro r member
        rw [List.mem_singleton.mp member]
        exact ⟨by simp [ackOf], inside⟩ }

theorem meets_ackOf {node : Node} {nodeId : NodeId} {lastReq : UInt32}
    (start : node.electionMod.edge.start = 0)
    (listed : 1 ∈ node.electionMod.edge.remaining (ackOf nodeId lastReq).report)
    (larger : 3 ∈ node.electionMod.edge.remaining (ackOf nodeId lastReq).report) :
    node.Meets (ackOf nodeId lastReq) where
  started both := by
    rw [start] at both
    exact absurd both.1 (by decide)
  fits := by
    refine .inl ⟨?_, ⟨3, larger, ?_⟩, fun _ => .inl start⟩
    · intro r member
      rw [List.mem_singleton.mp member]
      exact listed
    · intro r member
      rw [List.mem_singleton.mp member]
      decide

theorem startsFrom_leaderWithHoles : StartsFrom ⟨0, 4, [1, 2, 3]⟩ leaderWithHoles where
  ordered := by
    refine ⟨by decide, ?_⟩
    intro r member
    simp only [List.mem_cons, List.not_mem_nil, or_false] at member
    rcases member with rfl | rfl | rfl
    · decide
    · decide
    · decide
  start := by decide
  stop := by decide
  listed := by decide
  allocated := ⟨_, rfl, by decide⟩
  counted := by
    refine ⟨_, rfl, ?_⟩
    intro nodeId
    have counted : Function.update (fun _ => false) (0 : NodeId) true nodeId =
        decide (nodeId = (0 : NodeId)) := by
      rw [Function.update_apply]
      by_cases self : nodeId = (0 : NodeId)
      · rw [if_pos self, decide_eq_true self]
      · rw [if_neg self, decide_eq_false self]
    exact counted

/-- Nodes 1 and 2 end at different ids; id 3 is empty at the leader and beyond both. -/
theorem two_acks_merged :
    ((leaderWithHoles.receive (ackOf 1 2)).receive (ackOf 2 1)).electionMod.edge.listed = [1, 3] ∧
      ((leaderWithHoles.receive (ackOf 2 1)).receive (ackOf 1 2)).electionMod.edge.listed =
        [1, 3] := by
  have one : Receives Meets leaderWithHoles [ackOf 2 1, ackOf 1 2] _ :=
    .next (.next .none ⟨rfl, by decide⟩
      (proper_ackOf (by decide) (by decide) (by decide) (by decide))
      (meets_ackOf (by decide) (by decide) (by decide))) ⟨rfl, by decide⟩
      (proper_ackOf (by decide) (by decide) (by decide) (by decide))
      (meets_ackOf (by decide) (by decide) (by decide))
  have other : Receives Meets leaderWithHoles [ackOf 1 2, ackOf 2 1] _ :=
    .next (.next .none ⟨rfl, by decide⟩
      (proper_ackOf (by decide) (by decide) (by decide) (by decide))
      (meets_ackOf (by decide) (by decide) (by decide))) ⟨rfl, by decide⟩
      (proper_ackOf (by decide) (by decide) (by decide) (by decide))
      (meets_ackOf (by decide) (by decide) (by decide))
  obtain ⟨-, merges, same⟩ := acks_merged ⟨0, 4, [1, 2, 3]⟩ leaderWithHoles _ [ackOf 2 1, ackOf 1 2]
    startsFrom_leaderWithHoles one
  have listed := (same _ _ (List.Perm.swap _ _ _) other).2.2
  have first : ((leaderWithHoles.receive (ackOf 1 2)).receive
      (ackOf 2 1)).electionMod.edge.listed = [1, 3] := by decide
  exact ⟨first, listed.symm.trans first⟩

/-- Node 1 has seen two ids more than the leader and lacks the first, whose number is not below the
number of ids reported: the leader lists no slot and takes id 2 as decided. -/
theorem missed_slot :
    ¬ ∀ (own : Report) (start node : Node) (acks : List Ack), StartsFrom own start →
      Receives (fun _ _ => True) start acks node →
        Receives MergesAck start acks node ∧
          (acks ≠ [] → Merges (reports own acks) node.electionMod.edge) := by
  intro always
  obtain ⟨-, merges⟩ := always ⟨0, 0, []⟩ toldOnce (toldOnce.receive (ackOf 1 2)) [ackOf 1 2]
    ⟨⟨by decide, fun r member => absurd member List.not_mem_nil⟩, by decide, by decide, by decide,
      ⟨_, rfl, by decide⟩, startsFrom_leaderWithHoles.counted⟩
    (.next .none ⟨rfl, by decide⟩ (proper_ackOf (by decide) (by decide) (by decide) (by decide))
      trivial)
  have reported : OpenIn (reports ⟨0, 0, []⟩ [ackOf 1 2]) 1 := by
    simp only [OpenIn, reports, List.map_cons, List.map_nil, List.cons_append, List.nil_append,
      List.forall_mem_cons]
    exact ⟨.inl (by decide), .inr (by decide), by simp⟩
  have holes := ((merges (List.cons_ne_nil _ _)).holes 1).mpr ⟨by decide, by decide, reported⟩
  exact absurd holes (by decide)

end Node

end LibeventPaxos
