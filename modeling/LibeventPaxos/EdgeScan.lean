import Mathlib.Data.List.Sort
import LibeventPaxos.ViewCrossing
import LibeventPaxos.ViewFence

/-!
The two scans for empty slots of an election, and the acknowledgement a follower builds from its
own: the scan runs over the range of `mod->edge`, which is the new leader's and not the follower's.
-/
namespace LibeventPaxos

open Lib

namespace Comp

/-- The ids of a range without a record in the current view, in increasing order. -/
def missingIds (c : Comp) (start stop : UInt32) : List UInt32 :=
  ((List.range' start.toNat (stop.toNat + 1 - start.toNat)).filter fun k =>
    !c.has ⟨c.curView.viewId, UInt32.ofNat k⟩).map UInt32.ofNat

theorem mem_missingIds (c : Comp) (start stop r : UInt32) :
    r ∈ c.missingIds start stop ↔
      start.toNat ≤ r.toNat ∧ r.toNat ≤ stop.toNat ∧ c.stored ⟨c.curView.viewId, r⟩ = none := by
  simp only [missingIds, List.mem_map, List.mem_filter, List.mem_range'_1, has, Bool.not_eq_true',
    Option.isSome_eq_false_iff, Option.isNone_iff_eq_none]
  constructor
  · rintro ⟨k, ⟨⟨low, high⟩, absent⟩, rfl⟩
    have stop_lt := stop.toNat_lt
    have value : (UInt32.ofNat k).toNat = k := by
      rw [UInt32.toNat_ofNat', Nat.mod_eq_of_lt (by omega)]
    rw [value]
    exact ⟨low, by omega, absent⟩
  · rintro ⟨low, high, absent⟩
    refine ⟨r.toNat, ⟨⟨low, by omega⟩, ?_⟩, UInt32.ofNat_toNat⟩
    rw [UInt32.ofNat_toNat]
    exact absent

theorem missingIds_sorted (c : Comp) (start stop : UInt32) :
    (c.missingIds start stop).Pairwise fun a b => a.toNat < b.toNat := by
  have stop_lt := stop.toNat_lt
  rw [missingIds, List.pairwise_map]
  have sorted : ((List.range' start.toNat (stop.toNat + 1 - start.toNat)).filter fun k =>
      !c.has ⟨c.curView.viewId, UInt32.ofNat k⟩).Pairwise (· < ·) :=
    (List.pairwise_lt_range' ..).filter _
  refine sorted.imp_of_mem ?_
  intro a b a_member b_member less
  have a_range := List.mem_range'_1.mp (List.mem_of_mem_filter a_member)
  have b_range := List.mem_range'_1.mp (List.mem_of_mem_filter b_member)
  rw [UInt32.toNat_ofNat', UInt32.toNat_ofNat', Nat.mod_eq_of_lt (by omega),
    Nat.mod_eq_of_lt (by omega)]
  exact less

end Comp

namespace EdgeMod

/-- A scan of the range ends: its bound is not the largest id. -/
def ScanHalts (edge : EdgeMod) : Prop :=
  ¬ (edge.start.toNat ≤ edge.stop.toNat ∧ edge.stop.toNat + 1 = 2 ^ 32)

instance (edge : EdgeMod) : Decidable edge.ScanHalts :=
  inferInstanceAs (Decidable (¬ (edge.start.toNat ≤ edge.stop.toNat ∧
    edge.stop.toNat + 1 = 2 ^ 32)))

end EdgeMod

namespace Node

/-! ## The scan of a follower -/

/-- One id, seen by the loop that collects the missing ones. -/
private theorem calEdgeStep_collect (c : Comp) (length : Int) (fits : 0 ≤ length) (k : ℕ)
    (found : List ℕ) :
    calEdgeStep c length k (found.map UInt32.ofNat, none) =
      if (!c.has ⟨c.curView.viewId, UInt32.ofNat k⟩) = true then
        if found.length < length.toNat then .next ((found ++ [k]).map UInt32.ofNat, none)
        else .ret (found.map UInt32.ofNat, some .outOfBounds)
      else .next (found.map UInt32.ofNat, none) := by
  have lookup : c.db.retrieveRecord (vstol ⟨c.curView.viewId, UInt32.ofNat k⟩) =
      c.stored ⟨c.curView.viewId, UInt32.ofNat k⟩ := rfl
  simp only [calEdgeStep, lookup, Comp.has]
  split
  next value present => simp [present]
  next absent =>
    simp only [absent, Option.isSome_none, Bool.not_false, if_true, List.length_map,
      List.map_append, List.map_singleton]
    by_cases more : found.length < length.toNat
    · rw [if_pos more, if_pos (by omega)]
    · rw [if_neg more, if_neg (by omega)]

/-- The scan collects the missing ids of the range of `mod->edge`. -/
theorem emptySlots_eq (c : Comp) (edge : EdgeMod) (length : Int) (fits : 0 ≤ length) :
    emptySlots c edge length =
      if (c.missingIds edge.start edge.stop).length ≤ length.toNat then
        (c.missingIds edge.start edge.stop,
          if edge.ScanHalts then none else some .counterWrapped)
      else ((c.missingIds edge.start edge.stop).take length.toNat, some .outOfBounds) := by
  have loop := forInclusive_collect (fun k => !c.has ⟨c.curView.viewId, UInt32.ofNat k⟩)
    length.toNat (fun found => (found.map UInt32.ofNat, none))
    (fun found => (found.map UInt32.ofNat, some Fault.outOfBounds)) 32 edge.start.toNat
    edge.stop.toNat (calEdgeStep c length)
    (fun k found _ _ _ => calEdgeStep_collect c length fits k found)
  simp only [List.map_nil] at loop
  simp only [emptySlots, loop, Comp.missingIds, List.length_map, ← List.map_take]
  by_cases enough : ((List.range' edge.start.toNat (edge.stop.toNat + 1 - edge.start.toNat)).filter
      fun k => !c.has ⟨c.curView.viewId, UInt32.ofNat k⟩).length ≤ length.toNat
  · simp only [if_pos enough]
    by_cases halts : edge.ScanHalts
    · rw [if_pos halts, if_neg halts]
    · rw [if_neg halts, if_pos (not_not.mp halts)]
  · simp only [if_neg enough]

/-! ## The acknowledgement of an announcement -/

/-- `LELE_MSG_SIZE`: four fields of eight bytes, two of four and two of four that are padded. -/
def leleMsgSize : ℕ := 56

/-- `header.data_size` of the message `leader_election_cal_edge` builds. -/
def calEdgeDataSize (node : Node) : ℕ :=
  let (start, stop) := EdgeMod.undecidedRange node.comp
  if stop ≠ 0xFFFFFFFF then
    let (slots, _) := emptySlots node.comp node.electionMod.edge (EdgeMod.edgeLength start stop)
    leleMsgSize + 4 * slots.length
  else leleMsgSize

/-- The node has seen a request of the current view. -/
def SeesView (c : Comp) : Prop := c.highestSeenVs.viewId = c.curView.viewId

instance (c : Comp) : Decidable (SeesView c) :=
  inferInstanceAs (Decidable (c.highestSeenVs.viewId = c.curView.viewId))

/-- The message reports the undecided range of the node and the holes in it. -/
structure ReportsHoles (c : Comp) (msg : LeleMsg) (data : List UInt32) (dataSize : ℕ) : Prop where
  counted : msg.pnum = data.length
  size : dataSize = leleMsgSize + 4 * data.length
  start : SeesView c → msg.startReq =
    if c.highestToCommitVs.viewId = c.curView.viewId then c.highestToCommitVs.reqId else 0
  stop : SeesView c → msg.lastReq = c.highestSeenVs.reqId
  sorted : data.Pairwise fun a b => a.toNat < b.toNat
  holes : SeesView c → ∀ r, r ∈ data ↔ msg.startReq.toNat ≤ r.toNat ∧ r.toNat ≤ msg.lastReq.toNat ∧
    c.stored ⟨c.curView.viewId, r⟩ = none
  nothing : ¬ SeesView c → msg.lastReq.toNat ≤ msg.startReq.toNat ∧ data = []

/-- The node has sent such a message to the elected node and keeps it to send it again. -/
def Acknowledges (node after : Node) : Prop :=
  ∃ msg data, after.comp.fault = none ∧
    after.electionMod.announceAckMsg = some (.leaderElection msg data) ∧
    after.sent = node.sent ++ [(node.electionMod.newLeader, .leaderElection msg data)] ∧
    ReportsHoles node.comp msg data node.calEdgeDataSize

/-- The scan of `mod->edge` finds the holes of the follower's own range, and there is room. -/
structure FindsOwnHoles (c : Comp) (edge : EdgeMod) (start stop : UInt32) : Prop where
  length : 0 ≤ EdgeMod.edgeLength start stop
  room : (c.missingIds start stop).length ≤ EdgeMod.edgeLength start stop
  halts : edge.ScanHalts
  same : ∀ r, c.stored ⟨c.curView.viewId, r⟩ = none →
    ((edge.start.toNat ≤ r.toNat ∧ r.toNat ≤ edge.stop.toNat) ↔
      (start.toNat ≤ r.toNat ∧ r.toNat ≤ stop.toNat))

/-- The states in which the acknowledgement is right. -/
structure ReportsOwnRange (env : NodeEnv) (node : Node) : Prop where
  seen : SeesView node.comp
  scanned : node.comp.highestSeenVs.reqId ≠ 0xFFFFFFFF →
    FindsOwnHoles node.comp node.electionMod.edge (EdgeMod.undecidedRange node.comp).1
      node.comp.highestSeenVs.reqId
  /-- At the largest id nothing is scanned and the number of ids is left as `malloc` returned it. -/
  unscanned : node.comp.highestSeenVs.reqId = 0xFFFFFFFF → env.heapLele.pnum = 0 ∧
    node.comp.missingIds (EdgeMod.undecidedRange node.comp).1 0xFFFFFFFF = []

section Report

variable {env : NodeEnv} {node : Node}

theorem undecidedRange_of_seen {c : Comp} (seen : SeesView c) :
    EdgeMod.undecidedRange c =
      (if c.highestToCommitVs.viewId = c.curView.viewId then c.highestToCommitVs.reqId else 0,
        c.highestSeenVs.reqId) := by
  have view : c.highestSeenVs.viewId = c.curView.viewId := seen
  rw [EdgeMod.undecidedRange, if_pos view, view]
  by_cases committed : c.highestToCommitVs.viewId = c.curView.viewId
  · rw [if_pos committed, if_pos committed.symm]
  · rw [if_neg committed, if_neg fun same => committed same.symm]

/-- Ranges with the same ids without a record have equal scans. -/
theorem missingIds_congr {c : Comp} {edge : EdgeMod} {start stop : UInt32}
    (same : ∀ r, c.stored ⟨c.curView.viewId, r⟩ = none →
      ((edge.start.toNat ≤ r.toNat ∧ r.toNat ≤ edge.stop.toNat) ↔
        (start.toNat ≤ r.toNat ∧ r.toNat ≤ stop.toNat))) :
    c.missingIds edge.start edge.stop = c.missingIds start stop := by
  have distinct : ∀ low high, (c.missingIds low high).Nodup := by
    intro low high
    refine (c.missingIds_sorted low high).imp ?_
    rintro a b less rfl
    exact lt_irrefl _ less
  refine List.Perm.eq_of_pairwise ?_ (c.missingIds_sorted edge.start edge.stop)
    (c.missingIds_sorted start stop) ?_
  · intro a b _ _ less more
    omega
  · rw [List.perm_ext_iff_of_nodup (distinct _ _) (distinct _ _)]
    intro r
    rw [Comp.mem_missingIds, Comp.mem_missingIds]
    constructor
    · rintro ⟨low, high, absent⟩
      obtain ⟨low', high'⟩ := (same r absent).mp ⟨low, high⟩
      exact ⟨low', high', absent⟩
    · rintro ⟨low, high, absent⟩
      obtain ⟨low', high'⟩ := (same r absent).mpr ⟨low, high⟩
      exact ⟨low', high', absent⟩

/-- The message of a node that has seen nothing of the view, and of one that has seen the largest
id, claims everything up to the largest id. -/
theorem acknowledges_unscanned (running : node.comp.fault = none)
    (largest : (EdgeMod.undecidedRange node.comp).2 = 0xFFFFFFFF) :
    Acknowledges node (node.leaderElectionCalEdge env) ↔ SeesView node.comp ∧
      env.heapLele.pnum = 0 ∧
      node.comp.missingIds (EdgeMod.undecidedRange node.comp).1 0xFFFFFFFF = [] := by
  obtain ⟨start, range⟩ : ∃ start, EdgeMod.undecidedRange node.comp = (start, 0xFFFFFFFF) :=
    ⟨_, Prod.ext rfl largest⟩
  have size : node.calEdgeDataSize = leleMsgSize := by
    simp only [calEdgeDataSize, range, ne_eq, not_true_eq_false, if_false]
  rw [Acknowledges, size]
  simp only [leaderElectionCalEdge, range, ne_eq, not_true_eq_false, if_false, sendToOneNode,
    withMod, Option.some.injEq, SysMsg.leaderElection.injEq]
  constructor
  · rintro ⟨msg, data, -, ⟨rfl, rfl⟩, -, reports⟩
    have seen : SeesView node.comp := by
      by_contra unseen
      have empty := (reports.nothing unseen).1
      have first : start = 0 := by
        have other : ¬ node.comp.highestSeenVs.viewId = node.comp.curView.viewId := unseen
        rw [EdgeMod.undecidedRange, if_neg other] at range
        exact (congrArg Prod.fst range).symm
      simp only [first] at empty
      exact absurd empty (by decide)
    refine ⟨seen, reports.counted, ?_⟩
    apply List.eq_nil_iff_forall_not_mem.mpr
    intro r member
    obtain ⟨low, high, absent⟩ := (node.comp.mem_missingIds start 0xFFFFFFFF r).mp member
    exact List.not_mem_nil ((reports.holes seen r).mpr ⟨low, high, absent⟩)
  · rintro ⟨seen, counted, none_missing⟩
    refine ⟨_, _, running, ⟨rfl, rfl⟩, rfl, counted, rfl, ?_, ?_, List.Pairwise.nil, ?_, ?_⟩
    · intro _
      rw [undecidedRange_of_seen seen] at range
      exact (congrArg Prod.fst range).symm
    · intro _
      rw [undecidedRange_of_seen seen] at range
      exact (congrArg Prod.snd range).symm
    · intro _ r
      rw [← none_missing, node.comp.mem_missingIds]
    · exact fun unseen => absurd seen unseen

/-- The message of a node whose range ends before the largest id. -/
theorem acknowledges_scanned (running : node.comp.fault = none) {start stop : UInt32}
    (range : EdgeMod.undecidedRange node.comp = (start, stop)) (ends : stop ≠ 0xFFFFFFFF) :
    Acknowledges node (node.leaderElectionCalEdge env) ↔
      FindsOwnHoles node.comp node.electionMod.edge start stop := by
  -- a range with an end is one of the current view
  have seen : SeesView node.comp := by
    by_contra unseen
    have other : ¬ node.comp.highestSeenVs.viewId = node.comp.curView.viewId := unseen
    rw [EdgeMod.undecidedRange, if_neg other] at range
    exact ends (congrArg Prod.snd range).symm
  have bounds := (undecidedRange_of_seen seen).symm.trans range
  have first := congrArg Prod.fst bounds
  have last := congrArg Prod.snd bounds
  simp only at first last
  rw [Acknowledges]
  -- the three refusals of the scan, in the order of the code, each leave no ack
  by_cases length : EdgeMod.edgeLength start stop < 0
  · simp only [leaderElectionCalEdge, range, if_pos ends, if_pos length]
    constructor
    · rintro ⟨msg, data, faultless, -⟩
      exact absurd faultless (Option.some_ne_none _)
    · intro finds
      exact absurd finds.length (by omega)
  · have scan := emptySlots_eq node.comp node.electionMod.edge (EdgeMod.edgeLength start stop)
      (by omega)
    by_cases room : (node.comp.missingIds node.electionMod.edge.start
        node.electionMod.edge.stop).length ≤ (EdgeMod.edgeLength start stop).toNat
    · rw [if_pos room] at scan
      by_cases halts : node.electionMod.edge.ScanHalts
      · rw [if_pos halts] at scan
        have size : node.calEdgeDataSize = leleMsgSize + 4 * (node.comp.missingIds
            node.electionMod.edge.start node.electionMod.edge.stop).length := by
          simp only [calEdgeDataSize, range, if_pos ends, scan]
        rw [size]
        simp only [leaderElectionCalEdge, range, if_pos ends, if_neg length, scan, sendToOneNode,
          withMod, Option.some.injEq, SysMsg.leaderElection.injEq]
        constructor
        · rintro ⟨msg, data, -, ⟨rfl, rfl⟩, -, reports⟩
          -- the reported holes are those of the range, so the two intervals agree on what is absent
          have same : ∀ r, node.comp.stored ⟨node.comp.curView.viewId, r⟩ = none →
              ((node.electionMod.edge.start.toNat ≤ r.toNat ∧
                r.toNat ≤ node.electionMod.edge.stop.toNat) ↔
                (start.toNat ≤ r.toNat ∧ r.toNat ≤ stop.toNat)) := by
            intro r absent
            have holes := reports.holes seen r
            rw [node.comp.mem_missingIds] at holes
            constructor
            · rintro ⟨low, high⟩
              obtain ⟨low', high', -⟩ := holes.mp ⟨low, high, absent⟩
              exact ⟨low', high'⟩
            · rintro ⟨low, high⟩
              obtain ⟨low', high', -⟩ := holes.mpr ⟨low, high, absent⟩
              exact ⟨low', high'⟩
          rw [missingIds_congr same] at room
          exact ⟨by omega, by omega, halts, same⟩
        · intro finds
          refine ⟨_, _, running, ⟨rfl, rfl⟩, rfl, rfl, rfl, fun _ => first.symm,
            fun _ => last.symm, node.comp.missingIds_sorted _ _, ?_,
            fun unseen => absurd seen unseen⟩
          intro _ r
          rw [missingIds_congr finds.same, node.comp.mem_missingIds]
      · rw [if_neg halts] at scan
        simp only [leaderElectionCalEdge, range, if_pos ends, if_neg length, scan]
        constructor
        · rintro ⟨msg, data, faultless, -⟩
          exact absurd faultless (Option.some_ne_none _)
        · intro finds
          exact absurd finds.halts halts
    · rw [if_neg room] at scan
      simp only [leaderElectionCalEdge, range, if_pos ends, if_neg length, scan]
      constructor
      · rintro ⟨msg, data, faultless, -⟩
        exact absurd faultless (Option.some_ne_none _)
      · intro finds
        have fits := finds.room
        rw [← missingIds_congr finds.same] at fits
        exact absurd fits (by omega)

end Report

/-- The acknowledgement of an announcement reports the follower's holes exactly if it has seen a
request of the view and the range left in `mod->edge` has the same holes as its own. -/
theorem acknowledges_iff (env : NodeEnv) (node : Node) (running : node.comp.fault = none) :
    Acknowledges node (node.leaderElectionCalEdge env) ↔ ReportsOwnRange env node := by
  by_cases largest : (EdgeMod.undecidedRange node.comp).2 = 0xFFFFFFFF
  · rw [acknowledges_unscanned running largest]
    constructor
    · rintro ⟨seen, counted, none_missing⟩
      rw [undecidedRange_of_seen seen] at largest
      exact ⟨seen, fun ends => absurd largest ends, fun _ => ⟨counted, none_missing⟩⟩
    · intro reports
      have last := largest
      rw [undecidedRange_of_seen reports.seen] at last
      obtain ⟨counted, none_missing⟩ := reports.unscanned last
      exact ⟨reports.seen, counted, none_missing⟩
  · have range : EdgeMod.undecidedRange node.comp =
        ((EdgeMod.undecidedRange node.comp).1, (EdgeMod.undecidedRange node.comp).2) := rfl
    rw [acknowledges_scanned running range largest]
    constructor
    · intro finds
      have seen : SeesView node.comp := by
        by_contra unseen
        have other : ¬ node.comp.highestSeenVs.viewId = node.comp.curView.viewId := unseen
        rw [EdgeMod.undecidedRange, if_neg other] at largest
        exact largest rfl
      have last := congrArg Prod.snd (undecidedRange_of_seen seen)
      simp only at last
      rw [last] at finds largest
      exact ⟨seen, fun _ => finds, fun same => absurd same largest⟩
    · intro reports
      have last := congrArg Prod.snd (undecidedRange_of_seen reports.seen)
      simp only at last
      rw [last] at largest ⊢
      exact reports.scanned largest

/-- A node that has seen the stamp (1,1) and stored nothing, with some range in `mod->edge`. -/
def toldOf (start stop : UInt32) : Node :=
  let node := init false 0 3 ⟨8, 0⟩ ⟨0, 0⟩ lateEnv
  { node with
    comp := { node.comp with curView := ⟨1, 1, 0⟩, highestSeenVs := ⟨1, 1⟩ }
    electionMod := { node.electionMod with
      edge := { node.electionMod.edge with start := start, stop := stop } } }

theorem own_range_reported :
    Acknowledges (toldOf 0 1) ((toldOf 0 1).leaderElectionCalEdge lateEnv) :=
  (acknowledges_iff lateEnv (toldOf 0 1) (by decide)).mpr
    ⟨by decide, fun _ => ⟨by decide, by decide, by decide, fun _ _ => Iff.rfl⟩,
      fun largest => absurd largest (by decide)⟩

/-- In a follower that never led an election the range is still the empty one it starts with. -/
theorem initial_range_scanned :
    ¬ ∀ (env : NodeEnv) (node : Node), node.comp.fault = none →
      Acknowledges node (node.leaderElectionCalEdge env) := by
  intro always
  have range : EdgeMod.undecidedRange (toldOf 0xFFFFFFFF 0).comp = (0, 1) := by decide
  have finds := (acknowledges_scanned (by decide) range (by decide)).mp
    (always lateEnv (toldOf 0xFFFFFFFF 0) (by decide))
  exact absurd ((finds.same 0 (by decide)).mpr ⟨by decide, by decide⟩).1 (by decide)

end Node

end LibeventPaxos
