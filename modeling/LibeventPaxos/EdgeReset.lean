import Mathlib.Data.List.GetD
import LibeventPaxos.EdgeScan

/-!
What a further announcement does to the range a new leader has merged: it starts the range over
from the leader's own stamps, forgets whom it has heard, and keeps the slots it has listed.
-/
namespace LibeventPaxos

open Lib

namespace EdgeMod

/-! ## The scan of the new leader -/

/-- The module after the scan has written some ids behind the slots already listed. -/
def recorded (edge : EdgeMod) (slots ids : List UInt32) : EdgeMod :=
  { edge with
    reqEdge := some (slots.take edge.curEmptySlots ++ ids ++
      slots.drop (edge.curEmptySlots + ids.length))
    curEmptySlots := edge.curEmptySlots + ids.length }

/-- How many ids fit behind the listed slots, by the recorded capacity and by the allocated one. -/
def scanRoom (edge : EdgeMod) (slots : List UInt32) : ℕ :=
  min (edge.maxEmptySlots - edge.curEmptySlots).toNat (slots.length - edge.curEmptySlots)

/-- The fault at the first id that does not fit. -/
def fullFault (edge : EdgeMod) (slots : List UInt32) : Fault :=
  if edge.curEmptySlots + scanRoom edge slots < edge.maxEmptySlots then .outOfBounds else .assertion

/-- `mod->edge.msg_count[my_node->node_id] = 1`. -/
def countingSelf (c : Comp) (edge : EdgeMod) : EdgeMod :=
  { edge with
    msgCount := edge.msgCount.map fun msgCount => Function.update msgCount (c.nodeId : Int) true }

theorem set_written (slots ids : List UInt32) (cur : ℕ) (id : UInt32)
    (inside : cur + ids.length < slots.length) :
    (slots.take cur ++ ids ++ slots.drop (cur + ids.length)).set (cur + ids.length) id =
      slots.take cur ++ (ids ++ [id]) ++ slots.drop (cur + (ids ++ [id]).length) := by
  have front : (slots.take cur ++ ids).length = cur + ids.length := by
    rw [List.length_append, List.length_take, Nat.min_eq_left (by omega)]
  have next : slots.drop (cur + ids.length) =
      slots[cur + ids.length] :: slots.drop (cur + (ids ++ [id]).length) := by
    rw [List.length_append, List.length_singleton, ← Nat.add_assoc]
    exact List.drop_eq_getElem_cons inside
  rw [List.set_append, if_neg (by omega), front, Nat.sub_self, next, List.set_cons_zero]
  simp

/-- One id, seen by the loop that collects the missing ones. -/
private theorem leaderCalEdgeStep_collect (c : Comp) (edge : EdgeMod) (slots : List UInt32) (k : ℕ)
    (found : List ℕ) (fits : found.length ≤ scanRoom edge slots) :
    leaderCalEdgeStep c k (edge.recorded slots (found.map UInt32.ofNat), none) =
      if (!c.has ⟨c.curView.viewId, UInt32.ofNat k⟩) = true then
        if found.length < scanRoom edge slots then
          .next (edge.recorded slots ((found ++ [k]).map UInt32.ofNat), none)
        else .ret (edge.recorded slots (found.map UInt32.ofNat), some (fullFault edge slots))
      else .next (edge.recorded slots (found.map UInt32.ofNat), none) := by
  have lookup : c.db.retrieveRecord (vstol ⟨c.curView.viewId, UInt32.ofNat k⟩) =
      c.stored ⟨c.curView.viewId, UInt32.ofNat k⟩ := rfl
  simp only [leaderCalEdgeStep, lookup, Comp.has]
  split
  next value present => simp [present]
  next absent =>
    simp only [absent, Option.isSome_none, Bool.not_false, if_true]
    have size : (slots.take edge.curEmptySlots ++ found.map UInt32.ofNat ++
        slots.drop (edge.curEmptySlots + found.length)).length =
          min edge.curEmptySlots slots.length + found.length +
            (slots.length - (edge.curEmptySlots + found.length)) := by
      simp [Nat.add_assoc]
    simp only [recorded, List.length_map, size]
    by_cases more : found.length < scanRoom edge slots
    · have room := more
      rw [scanRoom] at room
      have written := set_written slots (found.map UInt32.ofNat) edge.curEmptySlots
        (UInt32.ofNat k) (by rw [List.length_map]; omega)
      rw [List.length_map] at written
      rw [if_pos more, if_pos (by omega), if_pos (by omega), written]
      simp [Nat.add_assoc]
    · have full : found.length = scanRoom edge slots := by omega
      have room := full
      rw [scanRoom] at room
      rw [if_neg more, fullFault, ← full]
      by_cases below : ((edge.curEmptySlots : Int) + found.length : Int) < edge.maxEmptySlots
      · rw [if_pos (by omega), if_neg (by omega), if_pos below]
      · rw [if_neg (by omega), if_neg below]

/-- The scan writes the missing ids of the range behind the listed slots. -/
theorem leaderCalEdge_eq (c : Comp) (edge : EdgeMod) (slots : List UInt32)
    (allocated : edge.reqEdge = some slots) :
    leaderCalEdge c edge =
      if (c.missingIds edge.start edge.stop).length ≤ scanRoom edge slots then
        ((edge.countingSelf c).recorded slots (c.missingIds edge.start edge.stop),
          if edge.ScanHalts then none else some .counterWrapped)
      else ((edge.countingSelf c).recorded slots
          ((c.missingIds edge.start edge.stop).take (scanRoom edge slots)),
        some (fullFault edge slots)) := by
  have initial : edge.countingSelf c = (edge.countingSelf c).recorded slots [] := by
    simp only [recorded, countingSelf, List.append_nil, List.length_nil, Nat.add_zero,
      List.take_append_drop, ← allocated]
  have loop := forInclusive_collect (fun k => !c.has ⟨c.curView.viewId, UInt32.ofNat k⟩)
    (scanRoom edge slots)
    (fun found => ((edge.countingSelf c).recorded slots (found.map UInt32.ofNat), none))
    (fun found => ((edge.countingSelf c).recorded slots (found.map UInt32.ofNat),
      some (fullFault edge slots))) 32 edge.start.toNat edge.stop.toNat (leaderCalEdgeStep c)
    (fun k found _ _ fits => leaderCalEdgeStep_collect c (edge.countingSelf c) slots k found fits)
  simp only [List.map_nil, ← initial] at loop
  have counting : ({ edge with
      msgCount := edge.msgCount.map fun msgCount =>
        Function.update msgCount (c.nodeId : Int) true } : EdgeMod) = edge.countingSelf c := rfl
  simp only [leaderCalEdge, counting, loop]
  simp only [Comp.missingIds, List.length_map, ← List.map_take]
  by_cases enough : ((List.range' edge.start.toNat (edge.stop.toNat + 1 - edge.start.toNat)).filter
      fun k => !c.has ⟨c.curView.viewId, UInt32.ofNat k⟩).length ≤ scanRoom edge slots
  · simp only [if_pos enough]
    by_cases halts : edge.ScanHalts
    · rw [if_pos halts, if_neg halts]
    · rw [if_neg halts, if_pos (not_not.mp halts)]
  · simp only [if_neg enough]

/-! ## Starting the range over -/

/-- The capacity `leader_election_initialize_edge_mod` asks for. -/
def initialLength (c : Comp) : Int :=
  if c.highestSeenVs.viewId = c.curView.viewId then
    edgeLength (undecidedRange c).1 (undecidedRange c).2
  else 100

/-- `memset(mod->edge.req_edge,0,sizeof(req_id_t)*length)`. -/
def clearFront (slots : List UInt32) (length : ℕ) : List UInt32 :=
  List.replicate length 0 ++ slots.drop length

theorem length_clearFront (slots : List UInt32) (length : ℕ) (inside : length ≤ slots.length) :
    (clearFront slots length).length = slots.length := by
  rw [clearFront, List.length_append, List.length_replicate, List.length_drop]
  omega

theorem getD_clearFront (slots : List UInt32) (length i : ℕ) :
    (clearFront slots length).getD i 0 = if i < length then 0 else slots.getD i 0 := by
  rw [clearFront]
  split
  next front =>
    rw [List.getD_append _ _ _ _ (by rwa [List.length_replicate]), List.getD_replicate _ front]
  next behind =>
    rw [List.getD_append_right _ _ _ _ (by rw [List.length_replicate]; omega),
      List.length_replicate, List.getD_eq_getElem?_getD, List.getElem?_drop,
      ← List.getD_eq_getElem?_getD, Nat.add_sub_cancel' (by omega)]

/-- The module the scan starts from once its arrays are allocated. -/
def restarted (c : Comp) (edge : EdgeMod) (slots : List UInt32) : EdgeMod :=
  { edge with
    start := (undecidedRange c).1
    stop := (undecidedRange c).2
    maxEmptySlots := initialLength c
    reqEdge := some (clearFront slots (initialLength c).toNat)
    msgCount := some fun _ => false }

/-- A further announcement: the arrays are there. -/
theorem initializeEdgeMod_again (c : Comp) (edge : EdgeMod) (slots : List UInt32)
    (allocated : edge.reqEdge = some slots) (fits : 0 ≤ initialLength c)
    (inside : initialLength c ≤ slots.length) :
    initializeEdgeMod c edge = leaderCalEdge c (restarted c edge slots) := by
  have length : (if c.highestSeenVs.viewId = c.curView.viewId then
      edgeLength (undecidedRange c).1 (undecidedRange c).2 else 100) = initialLength c := rfl
  simp only [initializeEdgeMod, length, allocated]
  rw [if_neg (by omega)]
  rfl

theorem initializeEdgeMod_refused (c : Comp) (edge : EdgeMod) (slots : List UInt32)
    (allocated : edge.reqEdge = some slots)
    (outside : initialLength c < 0 ∨ (slots.length : Int) < initialLength c) :
    (initializeEdgeMod c edge).2 = some .outOfBounds := by
  have length : (if c.highestSeenVs.viewId = c.curView.viewId then
      edgeLength (undecidedRange c).1 (undecidedRange c).2 else 100) = initialLength c := rfl
  simp only [initializeEdgeMod, length, allocated, if_pos outside]

/-! ## What an announcement must not change -/

/-- The ids listed as empty. -/
def listed (edge : EdgeMod) : List UInt32 := (edge.reqEdge.getD []).take edge.curEmptySlots

/-- The node is counted as heard. -/
def counts (edge : EdgeMod) (nodeId : NodeId) : Bool :=
  edge.msgCount.elim false fun msgCount => msgCount nodeId

structure Keeps (groupSize : ℕ) (edge edge' : EdgeMod) : Prop where
  start : edge'.start = edge.start
  stop : edge'.stop = edge.stop
  listed : edge'.listed = edge.listed
  counted : ∀ nodeId, InGroup groupSize nodeId → edge'.counts nodeId = edge.counts nodeId
  boundary : edge'.boundary = edge.boundary

/-- The states a further announcement leaves as they are: nothing was merged into the leader's own
range, and no slot is listed or missing in it. -/
structure Unmerged (c : Comp) (edge : EdgeMod) (slots : List UInt32) : Prop where
  fits : 0 ≤ initialLength c ∧ initialLength c ≤ slots.length
  start : edge.start = (undecidedRange c).1
  stop : edge.stop = (undecidedRange c).2
  halts : edge.ScanHalts
  alone : ∀ nodeId, InGroup c.groupSize nodeId → edge.counts nodeId = decide (nodeId = c.nodeId)
  stored : c.missingIds edge.start edge.stop = []
  cleared : ∀ i, i < edge.curEmptySlots → i < (initialLength c).toNat → slots.getD i 0 = 0

section Again

variable {c : Comp} {edge : EdgeMod} {slots : List UInt32}

/-- The module after a scan that found no fault. -/
private theorem scanned_again (c : Comp) (edge : EdgeMod) (slots ids : List UInt32) :
    let edge' := ((restarted c edge slots).countingSelf c).recorded
      (clearFront slots (initialLength c).toNat) ids
    edge'.start = (undecidedRange c).1 ∧ edge'.stop = (undecidedRange c).2 ∧
      (∀ nodeId, edge'.counts nodeId = decide (nodeId = c.nodeId)) ∧
      edge'.curEmptySlots = edge.curEmptySlots + ids.length := by
  refine ⟨rfl, rfl, ?_, rfl⟩
  intro nodeId
  simp only [counts, recorded, countingSelf, restarted, Option.map_some, Option.elim_some,
    Function.update_apply]
  by_cases self : nodeId = c.nodeId
  · simp [self]
  · simp [self]

/-- Missing ids are listed once more. -/
private theorem missing_of_listed {ids : List UInt32}
    (inside : initialLength c ≤ slots.length)
    (room : ids.length ≤ scanRoom (restarted c edge slots)
      (clearFront slots (initialLength c).toNat))
    (allocated : edge.reqEdge = some slots)
    (same : (((restarted c edge slots).countingSelf c).recorded
      (clearFront slots (initialLength c).toNat) ids).listed = edge.listed) : ids = [] := by
  have size := length_clearFront slots (initialLength c).toNat (by omega)
  have lengths := congrArg List.length same
  simp only [listed, recorded, countingSelf, restarted, allocated, Option.getD_some,
    List.length_take, List.length_append, List.length_drop, size] at lengths
  simp only [scanRoom, size, restarted] at room
  apply List.eq_nil_iff_length_eq_zero.mpr
  omega

private theorem listed_restarted (allocated : edge.reqEdge = some slots)
    (inside : initialLength c ≤ slots.length) :
    (((restarted c edge slots).countingSelf c).recorded
      (clearFront slots (initialLength c).toNat) []).listed = edge.listed ↔
      ∀ i, i < edge.curEmptySlots → i < (initialLength c).toNat → slots.getD i 0 = 0 := by
  have size := length_clearFront slots (initialLength c).toNat (by omega)
  have slot : ∀ i, (((clearFront slots (initialLength c).toNat).take edge.curEmptySlots)[i]? =
      (slots.take edge.curEmptySlots)[i]? ↔
        (i < edge.curEmptySlots → i < (initialLength c).toNat → slots.getD i 0 = 0)) := by
    intro i
    have value := getD_clearFront slots (initialLength c).toNat i
    rw [List.getElem?_take, List.getElem?_take]
    by_cases front : i < edge.curEmptySlots
    · rw [if_pos front, if_pos front]
      rcases Nat.lt_or_ge i slots.length with within | beyond
      · rw [List.getD_eq_getElem _ _ (by omega)] at value
        rw [List.getD_eq_getElem _ _ within] at value ⊢
        rw [List.getElem?_eq_getElem within, List.getElem?_eq_getElem (by omega : i <
          (clearFront slots (initialLength c).toNat).length), Option.some.injEq, value]
        by_cases cleared : i < (initialLength c).toNat
        · rw [if_pos cleared]
          exact ⟨fun zero _ _ => zero.symm, fun zero => (zero front cleared).symm⟩
        · rw [if_neg cleared]
          exact ⟨fun _ _ less => absurd less cleared, fun _ => rfl⟩
      · rw [List.getElem?_eq_none (by omega), List.getElem?_eq_none beyond]
        exact ⟨fun _ _ less => absurd less (by omega), fun _ => rfl⟩
    · rw [if_neg front, if_neg front]
      exact ⟨fun _ less => absurd less front, fun _ => rfl⟩
  simp only [listed, recorded, countingSelf, restarted, allocated, Option.getD_some,
    List.append_nil, List.length_nil, Nat.add_zero, List.take_append_drop]
  rw [List.ext_getElem?_iff]
  constructor
  · intro same i
    exact (slot i).mp (same i)
  · intro zeros i
    exact (slot i).mpr (zeros i)

end Again

/-- A further announcement keeps what was merged exactly if nothing was. -/
theorem keeps_again_iff (c : Comp) (edge : EdgeMod) (slots : List UInt32)
    (allocated : edge.reqEdge = some slots) :
    ((initializeEdgeMod c edge).2 = none ∧ Keeps c.groupSize edge (initializeEdgeMod c edge).1) ↔
      Unmerged c edge slots := by
  by_cases fits : 0 ≤ initialLength c ∧ initialLength c ≤ slots.length
  · rw [initializeEdgeMod_again c edge slots allocated fits.1 fits.2,
      leaderCalEdge_eq c (restarted c edge slots) (clearFront slots (initialLength c).toNat) rfl]
    have range : (restarted c edge slots).start = (undecidedRange c).1 ∧
        (restarted c edge slots).stop = (undecidedRange c).2 := ⟨rfl, rfl⟩
    obtain ⟨start, stop, counted, cur⟩ := scanned_again c edge slots
      (c.missingIds (undecidedRange c).1 (undecidedRange c).2)
    rw [range.1, range.2]
    constructor
    · split
      next room =>
        rintro ⟨faultless, keeps⟩
        have none_missing := missing_of_listed fits.2 room allocated keeps.listed
        have listed := keeps.listed
        rw [none_missing, listed_restarted allocated fits.2] at listed
        -- what is kept of the old edge must be what a fresh start would have computed
        have same_start : edge.start = (undecidedRange c).1 := keeps.start.symm
        have same_stop : edge.stop = (undecidedRange c).2 := keeps.stop.symm
        refine ⟨fits, same_start, same_stop, ?_, ?_, ?_, listed⟩
        · by_contra runs
          have wraps : ¬ (restarted c edge slots).ScanHalts := by
            rw [ScanHalts, range.1, range.2, ← same_start, ← same_stop]
            exact runs
          rw [if_neg wraps] at faultless
          exact Option.some_ne_none _ faultless
        · intro nodeId group
          rw [← keeps.counted nodeId group, counted]
        · rw [same_start, same_stop, none_missing]
      next full =>
        rintro ⟨fault, -⟩
        exact absurd fault (Option.some_ne_none _)
    · intro unmerged
      have none_missing : c.missingIds (undecidedRange c).1 (undecidedRange c).2 = [] := by
        rw [← unmerged.start, ← unmerged.stop]
        exact unmerged.stored
      have halts : (restarted c edge slots).ScanHalts := by
        have same := unmerged.halts
        rw [ScanHalts, unmerged.start, unmerged.stop] at same
        exact same
      rw [none_missing] at counted cur ⊢
      rw [List.length_nil, if_pos (Nat.zero_le _), if_pos halts]
      refine ⟨rfl, unmerged.start.symm, unmerged.stop.symm,
        (listed_restarted allocated fits.2).mpr unmerged.cleared, ?_, ?_⟩
      · intro nodeId group
        rw [counted, unmerged.alone nodeId group]
      · -- the boundary is read from the first slot, which the restart has cleared
        have first := getD_clearFront slots (initialLength c).toNat 0
        simp only [boundary, recorded, countingSelf, restarted, allocated, Option.getD_some,
          List.append_nil, List.length_nil, Nat.add_zero, List.take_append_drop, first,
          unmerged.stop]
        by_cases empty : edge.curEmptySlots = 0
        · simp [empty]
        · have cleared := unmerged.cleared 0 (by omega)
          by_cases front : 0 < (initialLength c).toNat
          · rw [if_pos front, cleared front]
          · rw [if_neg front]
  · constructor
    · rintro ⟨faultless, -⟩
      rw [initializeEdgeMod_refused c edge slots allocated (by omega)] at faultless
      exact absurd faultless (Option.some_ne_none _)
    · exact fun unmerged => absurd unmerged.fits fits

end EdgeMod

namespace Node

/-! ## The elected node -/

/-- The node goes on with the range, the listed slots, the counted nodes and so the boundary it
had. -/
def KeepsMerged (node after : Node) : Prop :=
  after.comp.fault = none ∧
    EdgeMod.Keeps node.groupSize node.electionMod.edge after.electionMod.edge

/-- The elected node has handled an announcement before and is told its own election again. -/
structure ToldAgain (node : Node) (msg : LeleMsg) : Prop where
  running : node.comp.fault = none
  state : node.state = .postLele
  elected : node.electionMod.newLeader = node.nodeId
  type : msg.type = .announce
  nextView : msg.nextView = node.viewId + 1
  content : msg.content = node.electionMod.newLeader

/-- A repeated announcement is harmless exactly if nothing has been merged since the first one and
no slot is missing. -/
theorem keepsMerged_iff (env : NodeEnv) (node : Node) (msg : LeleMsg) (data : List UInt32)
    (slots : List UInt32) (told : ToldAgain node msg)
    (allocated : node.electionMod.edge.reqEdge = some slots) :
    KeepsMerged node (node.handleMsg env (.leaderElection msg data)) ↔
      EdgeMod.Unmerged node.comp node.electionMod.edge slots := by
  rw [← EdgeMod.keeps_again_iff node.comp node.electionMod.edge slots allocated]
  have current : ¬ msg.nextView ≠ node.viewId + 1 := not_not_intro told.nextView
  have own : msg.content = node.nodeId := told.content.trans told.elected
  have election : node.state = .inLele ∨ node.state = .postLele := .inr told.state
  simp only [handleMsg, if_pos election, handleLeaderElectionMsg, if_neg current, leaderElectionDo,
    told.type, leaderElectionHandleAnnounce]
  rw [if_pos (by exact own)]
  simp only [leaderElectionInitializeEdgeMod, withMod]
  generalize EdgeMod.initializeEdgeMod node.comp node.electionMod.edge = result
  obtain ⟨edge, fault⟩ := result
  cases fault with
  | some fault =>
    constructor
    · rintro ⟨faultless, -⟩
      exact absurd faultless (Option.some_ne_none fault)
    · rintro ⟨faultless, -⟩
      exact absurd faultless (Option.some_ne_none fault)
  | none =>
    constructor
    · rintro ⟨-, keeps⟩
      exact ⟨rfl, keeps⟩
    · rintro ⟨-, keeps⟩
      exact ⟨told.running, keeps⟩

/-- Node 0 of five, elected for view 3; it has stored and decided all it has seen of view 2. -/
def electedNode : Node :=
  let node := init false 0 5 ⟨8, 0⟩ ⟨0, 0⟩ lateEnv
  { node with
    state := .postLele
    comp := { node.comp with
      curView := ⟨2, 1, 0⟩
      highestSeenVs := ⟨2, 0⟩
      highestToCommitVs := ⟨2, 0⟩
      highestCommittedVs := ⟨2, 0⟩
      db := Database.empty.storeRecord (vstol ⟨2, 0⟩) (.view ⟨2, 1, 0⟩) }
    electionMod := { node.electionMod with nextView := 3, newLeader := 0 } }

def announcement : LeleMsg := ⟨.announce, 1, 3, 0, 0, 0, 0, 0⟩

/-- It has been told once. -/
def toldOnce : Node := electedNode.handleMsg lateEnv (.leaderElection announcement [])

/-- Node 1 has acknowledged the announcement: it has no holes. -/
def heardOne : Node :=
  toldOnce.handleMsg lateEnv (.leaderElection ⟨.announceAck, 1, 3, 0, 0, 0, 0, 0⟩ [])

theorem unheard_kept :
    KeepsMerged toldOnce (toldOnce.handleMsg lateEnv (.leaderElection announcement [])) := by
  refine (keepsMerged_iff lateEnv toldOnce announcement [] (List.replicate 20 0)
    ⟨by decide, by decide, by decide, by decide, by decide, by decide⟩ (by decide)).mpr
    ⟨by decide, by decide, by decide, by decide, ?_, by decide, ?_⟩
  · intro (nodeId : Int) group
    have members : nodeId = 0 ∨ nodeId = 1 ∨ nodeId = 2 ∨ nodeId = 3 ∨ nodeId = 4 := by
      have low : (0 : Int) ≤ nodeId := group.1
      have high : nodeId < (5 : Int) := group.2
      omega
    rcases members with rfl | rfl | rfl | rfl | rfl
    · decide
    · decide
    · decide
    · decide
    · decide
  · intro i listed
    exact absurd listed (Nat.not_lt_zero i)

/-- The second announcement forgets that node 1 was heard. -/
theorem heard_forgotten :
    ¬ ∀ (env : NodeEnv) (node : Node) (msg : LeleMsg) (data slots : List UInt32),
      ToldAgain node msg → node.electionMod.edge.reqEdge = some slots →
        KeepsMerged node (node.handleMsg env (.leaderElection msg data)) := by
  intro always
  have keeps := always lateEnv heardOne announcement [] (List.replicate 20 0)
    ⟨by decide, by decide, by decide, by decide, by decide, by decide⟩ (by decide)
  exact absurd (keeps.2.counted 1 (by decide)) (by decide)

end Node

end LibeventPaxos
