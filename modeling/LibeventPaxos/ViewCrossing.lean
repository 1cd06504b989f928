import Mathlib.Data.List.TakeWhile
import LibeventPaxos.ConsensusRun

/-!
`try_to_execute` at the end of a view: which boundary records let it deliver the rest of the view
and cross into the next one.
-/
namespace LibeventPaxos

open Lib

namespace Comp

/-! ## A scan over any range of keys -/

/-- The stamps of `count` keys from `start` on. -/
def stampsFrom (start count : ℕ) : List ViewStamp :=
  (List.range count).map fun i => ltovs (UInt64.ofNat (start + i))

theorem stampsFrom_succ (start count : ℕ) :
    stampsFrom start (count + 1) =
      stampsFrom start count ++ [ltovs (UInt64.ofNat (start + count))] := by
  simp [stampsFrom, List.range_succ]

theorem stampsFrom_add (start first second : ℕ) :
    stampsFrom start (first + second) =
      stampsFrom start first ++ stampsFrom (start + first) second := by
  induction second with
  | zero => simp [stampsFrom]
  | succ second ih =>
    rw [← Nat.add_assoc, stampsFrom_succ, ih, stampsFrom_succ, List.append_assoc, Nat.add_assoc]

theorem mem_stampsFrom (start count : ℕ) (vs : ViewStamp) (room : start + count ≤ 2 ^ 64) :
    vs ∈ stampsFrom start count ↔ start ≤ (vstol vs).toNat ∧ (vstol vs).toNat < start + count := by
  simp only [stampsFrom, List.mem_map, List.mem_range]
  constructor
  · rintro ⟨i, less, rfl⟩
    rw [vstol_ltovs, UInt64.toNat_ofNat', Nat.mod_eq_of_lt (by omega)]
    omega
  · rintro ⟨low, high⟩
    refine ⟨(vstol vs).toNat - start, by omega, ?_⟩
    rw [Nat.add_sub_cancel' low, UInt64.ofNat_toNat, ltovs_vstol]

/-- A record is stored under the stamp. -/
def has (c : Comp) (vs : ViewStamp) : Bool := (c.stored vs).isSome

/-- The component after `try_to_execute` has looked at some stamps: it delivers up to the first
that is missing and requests every missing one. -/
def executed (c : Comp) (stamps : List ViewStamp) : Comp :=
  { c with
    highestCommittedVs := stampAfter c.highestCommittedVs (stamps.takeWhile c.has).length
    delivered := c.delivered ++ c.deliveriesAt (stamps.takeWhile c.has)
    upCalls := c.upCalls ++
      (stamps.filter fun vs => !c.has vs).map fun vs => (-1, .missingReq c.nodeId vs) }

theorem executed_nil (c : Comp) : c.executed [] = c := by
  simp [executed, deliveriesAt]

/-- Nothing more is delivered behind a stamp that is missing. -/
theorem takeWhile_has_append {c : Comp} {stamps : List ViewStamp}
    (missing : stamps.all c.has = false) (more : List ViewStamp) :
    (stamps ++ more).takeWhile c.has = stamps.takeWhile c.has := by
  rw [List.takeWhile_append, if_neg]
  intro whole
  have self := (List.takeWhile_prefix c.has).eq_of_length whole
  have all := List.all_eq_true.mpr (List.takeWhile_eq_self_iff.mp self)
  rw [missing] at all
  exact Bool.noConfusion all

/-- One more stamp. -/
private theorem execStep_executed (c : Comp) (stamps : List ViewStamp) (index : ℕ) :
    execStep index (c.executed stamps, stamps.all c.has) =
      .next (c.executed (stamps ++ [ltovs (UInt64.ofNat index)]),
        (stamps ++ [ltovs (UInt64.ofNat index)]).all c.has) := by
  have lookup : (c.executed stamps).db.retrieveRecord (UInt64.ofNat index) =
      c.stored (ltovs (UInt64.ofNat index)) := by
    rw [stored, vstol_ltovs]
    rfl
  simp only [execStep, lookup]
  generalize ltovs (UInt64.ofNat index) = vs
  -- a request that is missing ends what is delivered, a later one changes nothing
  cases found : c.stored vs with
  | none =>
    have absent : c.has vs = false := by rw [has, found, Option.isSome_none]
    have same : (stamps ++ [vs]).takeWhile c.has = stamps.takeWhile c.has := by
      cases all : stamps.all c.has with
      | true =>
        rw [List.takeWhile_append_of_pos (List.all_eq_true.mp all),
          List.takeWhile_cons_of_neg (by simp [absent]), List.append_nil,
          List.takeWhile_eq_self_iff.mpr (List.all_eq_true.mp all)]
      | false => exact takeWhile_has_append all [vs]
    simp only [executed, same, List.filter_append, sendMissingReq, uc, buildMissingReq,
      List.all_append, List.all_cons, absent, Bool.false_and, Bool.and_false]
    simp [absent]
  | some value =>
    have present : c.has vs = true := by rw [has, found, Option.isSome_some]
    have none_missing : ([vs].filter fun vs => !c.has vs) = [] := by simp [present]
    cases all : stamps.all c.has with
    | true =>
      have self : stamps.takeWhile c.has = stamps :=
        List.takeWhile_eq_self_iff.mpr (List.all_eq_true.mp all)
      have longer : (stamps ++ [vs]).takeWhile c.has = stamps ++ [vs] := by
        rw [List.takeWhile_append_of_pos (List.all_eq_true.mp all),
          List.takeWhile_cons_of_pos present, List.takeWhile_nil]
      simp only [executed, longer, self, List.filter_append, none_missing, List.append_nil,
        List.all_append, all, List.all_cons, present, List.all_nil, Bool.and_self, if_true,
        deliverMsgData, viewStampInc_stampAfter, List.length_append, List.length_singleton,
        deliveriesAt, List.map_append, List.append_assoc]
      rfl
    | false =>
      simp only [executed, takeWhile_has_append all, List.filter_append, none_missing,
        List.append_nil, List.all_append, all, Bool.false_and, Bool.false_eq_true, if_false]

/-- The loop of `try_to_execute` over any range, whatever views its keys belong to. -/
theorem execRange_executed (c : Comp) (start stop : DbKey) :
    execRange c start stop =
      if start.toNat ≤ stop.toNat ∧ stop.toNat + 1 = 2 ^ 64 then
        (c.executed (stampsFrom start.toNat (stop.toNat + 1 - start.toNat))).fail .counterWrapped
      else c.executed (stampsFrom start.toNat (stop.toNat + 1 - start.toNat)) := by
  rcases Nat.lt_or_ge stop.toNat start.toNat with empty | nonempty
  · have none_left : stop.toNat + 1 - start.toNat = 0 := by omega
    rw [if_neg (by omega), none_left, execRange, forInclusive_empty _ _ _ _ _ empty]
    exact (executed_nil c).symm
  · -- the invariant: so many stamps were looked at, and the flag tells whether all were there
    have loop := forInclusive_rule
      (fun k s => s = (c.executed (stampsFrom start.toNat (k - start.toNat)),
        (stampsFrom start.toNat (k - start.toNat)).all c.has))
      (fun _ => False) 64 start.toNat stop.toNat execStep (c, true) (by omega)
      (by
        rw [Nat.sub_self]
        simp only [stampsFrom, List.range_zero, List.map_nil, executed_nil, List.all_nil])
      (by
        rintro k s low high rfl
        have further : k + 1 - start.toNat = k - start.toNat + 1 := by omega
        have current : start.toNat + (k - start.toNat) = k := by omega
        rw [execStep_executed, further, stampsFrom_succ, current]
        exact ⟨fun s' same => (LoopStep.next.inj same).symm, by simp⟩)
    simp only [execRange]
    cases exit : forInclusive 64 start.toNat stop.toNat execStep (c, true) with
    | returned s => exact (loop.2.1 s exit).elim
    | finished s =>
      obtain ⟨same, inside⟩ := loop.1 s exit
      rw [if_neg (fun both => inside nonempty both.2), same]
    | wrapped s =>
      obtain ⟨same, -, largest⟩ := loop.2.2 s exit
      rw [if_pos ⟨nonempty, largest⟩, same]

/-! ## The end of a view -/

/-- The stamps of the committed view that are not delivered, up to its last. -/
def undelivered (c : Comp) (last : UInt32) : List ViewStamp :=
  stampsAfter c.highestCommittedVs (last.toNat - c.highestCommittedVs.reqId.toNat)

/-- From `c` on the rest of the view was delivered and the next one entered, or what is missing
was requested and the view not left. -/
structure Crosses (c : Comp) (last : UInt32) (c' : Comp) : Prop where
  running : c'.fault = none
  delivered : c'.delivered =
    c.delivered ++ c.deliveriesAt ((c.undelivered last).takeWhile c.has)
  requested : c'.upCalls = c.upCalls ++
    ((c.undelivered last).filter fun vs => !c.has vs).map fun vs => (-1, .missingReq c.nodeId vs)
  committed : c'.highestCommittedVs =
    if (c.undelivered last).all c.has then crossView c.highestCommittedVs
    else stampAfter c.highestCommittedVs ((c.undelivered last).takeWhile c.has).length

/-- The bounds that make the scan end where the view does. Beyond the view, it must neither find
anything to deliver nor anything to request. -/
structure LongBound (c : Comp) (boundary : ViewStamp) : Prop where
  later : c.highestCommittedVs.viewId.toNat < boundary.viewId.toNat
  missing : (c.undelivered boundary.reqId).all c.has = false
  rest : ∀ vs, (vstol ⟨c.highestCommittedVs.viewId, boundary.reqId⟩).toNat < (vstol vs).toNat →
    (vstol vs).toNat ≤ (vstol boundary).toNat → c.has vs = true
  ends : (vstol boundary).toNat + 1 ≠ 2 ^ 64

/-- The stamps of one view lie behind each other. -/
theorem stampsFrom_vstol (vs : ViewStamp) (n : ℕ) (room : vs.reqId.toNat + n < 4294967296) :
    stampsFrom ((vstol vs).toNat + 1) n = stampsAfter vs n := by
  rw [stampsFrom, stampsAfter]
  apply List.map_congr_left
  intro i member
  have less := List.mem_range.mp member
  have key : (vstol vs).toNat + 1 + i = (vstol vs).toNat + (i + 1) := by omega
  rw [key, ofNat_vstol vs (i + 1) (by omega), ltovs_vstol]

theorem executed_highestCommittedVs (c : Comp) (stamps : List ViewStamp) :
    (c.executed stamps).highestCommittedVs =
      stampAfter c.highestCommittedVs (stamps.takeWhile c.has).length := rfl

section Bound

variable {c : Comp} {value : DbValue}

theorem executeCommitted_crossing
    (behind : c.highestCommittedVs.viewId.toNat < c.highestToCommitVs.viewId.toNat)
    (found : c.stored ⟨c.highestCommittedVs.viewId + 1, 0⟩ = some value) :
    executeCommitted c =
      let scanned := execRange c (vstol c.highestCommittedVs + 1) (vstol value.asBoundary)
      if scanned.fault.isSome then scanned
      else if vstol scanned.highestCommittedVs = vstol value.asBoundary then
        { scanned with highestCommittedVs := crossView scanned.highestCommittedVs }
      else scanned := by
  have apart : c.highestCommittedVs.viewId ≠ c.highestToCommitVs.viewId := by
    intro same
    rw [same] at behind
    exact lt_irrefl _ behind
  have lookup : c.db.retrieveRecord (vstol ⟨c.highestCommittedVs.viewId + 1, 0⟩) = some value :=
    found
  simp only [executeCommitted, if_pos apart, lookup]

theorem start_toNat
    (behind : c.highestCommittedVs.viewId.toNat < c.highestToCommitVs.viewId.toNat) :
    (vstol c.highestCommittedVs + 1).toNat = (vstol c.highestCommittedVs).toNat + 1 := by
  have key := vstol_toNat c.highestCommittedVs
  have req_lt := c.highestCommittedVs.reqId.toNat_lt
  have view_lt := c.highestToCommitVs.viewId.toNat_lt
  rw [UInt64.toNat_add, UInt64.toNat_one, Nat.mod_eq_of_lt (by omega)]

/-- What is missing in the view would have to be requested. -/
theorem Crosses.all_has {last : UInt32} {c' : Comp} (crosses : Crosses c last c')
    (silent : c'.upCalls = c.upCalls) : (c.undelivered last).all c.has = true := by
  have nothing := crosses.requested
  rw [silent, List.self_eq_append_right, List.map_eq_nil_iff, List.filter_eq_nil_iff] at nothing
  apply List.all_eq_true.mpr
  intro vs member
  have present := nothing vs member
  simpa using present

/-- A scan that delivers nothing and requests nothing does not end the view. -/
theorem not_crosses_of_silent {last : UInt32} {c' : Comp} (silent : c'.upCalls = c.upCalls)
    (stays : c'.highestCommittedVs.viewId ≠ c.highestCommittedVs.viewId + 1) :
    ¬ Crosses c last c' := by
  intro crosses
  have committed := crosses.committed
  rw [if_pos (crosses.all_has silent)] at committed
  exact stays (congrArg ViewStamp.viewId committed)

/-- A boundary that names an earlier view ends the scan before it starts. -/
theorem crosses_early
    (behind : c.highestCommittedVs.viewId.toNat < c.highestToCommitVs.viewId.toNat)
    (found : c.stored ⟨c.highestCommittedVs.viewId + 1, 0⟩ = some value)
    (early : value.asBoundary.viewId.toNat < c.highestCommittedVs.viewId.toNat) :
    ¬ Crosses c value.asBoundary.reqId (executeCommitted c) := by
  have key := vstol_toNat c.highestCommittedVs
  have stop_key := vstol_toNat value.asBoundary
  have stop_lt := value.asBoundary.reqId.toNat_lt
  have start := start_toNat behind
  have idle : execRange c (vstol c.highestCommittedVs + 1) (vstol value.asBoundary) = c := by
    have none_left : (vstol value.asBoundary).toNat + 1 - (vstol c.highestCommittedVs + 1).toNat =
        0 := by omega
    rw [execRange_executed, if_neg (by omega), none_left]
    exact executed_nil c
  have below : vstol c.highestCommittedVs ≠ vstol value.asBoundary := by
    intro same
    rw [(vstol_inj _ _).mp same] at early
    exact lt_irrefl _ early
  rw [executeCommitted_crossing behind found, idle]
  simp only [below, if_false, ite_self]
  exact not_crosses_of_silent rfl (viewId_succ_ne _).symm

/-- A boundary that names the committed view is what the scan is written for. -/
theorem crosses_exact (running : c.fault = none)
    (behind : c.highestCommittedVs.viewId.toNat < c.highestToCommitVs.viewId.toNat)
    (found : c.stored ⟨c.highestCommittedVs.viewId + 1, 0⟩ = some value)
    (reached : c.highestCommittedVs.reqId.toNat ≤ value.asBoundary.reqId.toNat)
    (exact_view : value.asBoundary.viewId = c.highestCommittedVs.viewId) :
    Crosses c value.asBoundary.reqId (executeCommitted c) := by
  have key := vstol_toNat c.highestCommittedVs
  have stop_key := vstol_toNat value.asBoundary
  have stop_lt := value.asBoundary.reqId.toNat_lt
  have view_lt := c.highestToCommitVs.viewId.toNat_lt
  have start := start_toNat behind
  rw [exact_view] at stop_key
  have count : (vstol value.asBoundary).toNat + 1 - (vstol c.highestCommittedVs + 1).toNat =
      value.asBoundary.reqId.toNat - c.highestCommittedVs.reqId.toNat := by omega
  have scanned : execRange c (vstol c.highestCommittedVs + 1) (vstol value.asBoundary) =
      c.executed (c.undelivered value.asBoundary.reqId) := by
    rw [execRange_executed, if_neg (by omega), count, start,
      stampsFrom_vstol c.highestCommittedVs _ (by omega), undelivered]
  have faultless : (c.executed (c.undelivered value.asBoundary.reqId)).fault.isSome = false := by
    change c.fault.isSome = false
    rw [running, Option.isSome_none]
  -- the cursor has reached the boundary exactly if nothing was missing on the way
  have passed : vstol (c.executed (c.undelivered value.asBoundary.reqId)).highestCommittedVs =
      vstol value.asBoundary ↔ (c.undelivered value.asBoundary.reqId).all c.has = true := by
    have length : (c.undelivered value.asBoundary.reqId).length =
        value.asBoundary.reqId.toNat - c.highestCommittedVs.reqId.toNat := by
      simp [undelivered, stampsAfter]
    have shorter := (List.takeWhile_prefix (l := c.undelivered value.asBoundary.reqId)
      c.has).length_le
    have moved := stampAfter_reqId c.highestCommittedVs
      ((c.undelivered value.asBoundary.reqId).takeWhile c.has).length (by omega)
    rw [executed_highestCommittedVs, vstol_inj]
    constructor
    · intro same
      rw [same] at moved
      have self := (List.takeWhile_prefix (l := c.undelivered value.asBoundary.reqId)
        c.has).eq_of_length (by omega)
      exact List.all_eq_true.mpr (List.takeWhile_eq_self_iff.mp self)
    · intro all
      have self := List.takeWhile_eq_self_iff.mpr (List.all_eq_true.mp all)
      rw [self] at moved ⊢
      apply ViewStamp.ext_toNat
      · rw [stampAfter_viewId, exact_view]
      · omega
  rw [executeCommitted_crossing behind found, scanned]
  simp only [faultless, Bool.false_eq_true, if_false, passed]
  by_cases all : (c.undelivered value.asBoundary.reqId).all c.has = true
  · rw [if_pos all]
    refine ⟨running, rfl, rfl, ?_⟩
    rw [if_pos all]
    rfl
  · rw [if_neg all]
    refine ⟨running, rfl, rfl, ?_⟩
    rw [if_neg all]
    rfl

/-- A boundary that names a later view takes the scan beyond the end of the committed one. -/
theorem crosses_late (running : c.fault = none)
    (behind : c.highestCommittedVs.viewId.toNat < c.highestToCommitVs.viewId.toNat)
    (found : c.stored ⟨c.highestCommittedVs.viewId + 1, 0⟩ = some value)
    (reached : c.highestCommittedVs.reqId.toNat ≤ value.asBoundary.reqId.toNat)
    (later : c.highestCommittedVs.viewId.toNat < value.asBoundary.viewId.toNat) :
    Crosses c value.asBoundary.reqId (executeCommitted c) ↔ LongBound c value.asBoundary := by
  have key := vstol_toNat c.highestCommittedVs
  have stop_key := vstol_toNat value.asBoundary
  have stop_lt := value.asBoundary.reqId.toNat_lt
  have stop_key_lt := (vstol value.asBoundary).toNat_lt
  have start := start_toNat behind
  have last_key := vstol_toNat ⟨c.highestCommittedVs.viewId, value.asBoundary.reqId⟩
  simp only at last_key
  obtain ⟨extra, count⟩ : ∃ extra,
      (vstol value.asBoundary).toNat + 1 - (vstol c.highestCommittedVs + 1).toNat =
        value.asBoundary.reqId.toNat - c.highestCommittedVs.reqId.toNat + extra :=
    ⟨_, (Nat.add_sub_cancel' (by omega)).symm⟩
  have first : (vstol c.highestCommittedVs).toNat + 1 +
      (value.asBoundary.reqId.toNat - c.highestCommittedVs.reqId.toNat) =
      (vstol ⟨c.highestCommittedVs.viewId, value.asBoundary.reqId⟩).toNat + 1 := by omega
  obtain ⟨rest, rest_def⟩ : ∃ rest, rest = stampsFrom
      ((vstol ⟨c.highestCommittedVs.viewId, value.asBoundary.reqId⟩).toNat + 1) extra := ⟨_, rfl⟩
  have scanned : execRange c (vstol c.highestCommittedVs + 1) (vstol value.asBoundary) =
      if (vstol value.asBoundary).toNat + 1 = 2 ^ 64 then
        (c.executed (c.undelivered value.asBoundary.reqId ++ rest)).fail .counterWrapped
      else c.executed (c.undelivered value.asBoundary.reqId ++ rest) := by
    have nonempty : (vstol c.highestCommittedVs + 1).toNat ≤ (vstol value.asBoundary).toNat := by
      omega
    rw [execRange_executed, count, start, stampsFrom_add,
      stampsFrom_vstol c.highestCommittedVs _ (by omega), first, ← rest_def, undelivered]
    simp only [← start, nonempty, true_and]
  have members : ∀ vs, vs ∈ rest ↔
      (vstol ⟨c.highestCommittedVs.viewId, value.asBoundary.reqId⟩).toNat < (vstol vs).toNat ∧
        (vstol vs).toNat ≤ (vstol value.asBoundary).toNat := by
    intro vs
    rw [rest_def, mem_stampsFrom _ _ _ (by omega)]
    omega
  -- the committed stamp stays in its view, so it never meets the boundary
  have short : ∀ n, vstol (stampAfter c.highestCommittedVs n) ≠ vstol value.asBoundary := by
    intro n same
    have views := congrArg ViewStamp.viewId ((vstol_inj _ _).mp same)
    rw [stampAfter_viewId] at views
    rw [views] at later
    exact lt_irrefl _ later
  rw [executeCommitted_crossing behind found, scanned]
  by_cases largest : (vstol value.asBoundary).toNat + 1 = 2 ^ 64
  · simp only [if_pos largest]
    constructor
    · intro crosses
      have faultless := crosses.running
      simp [fail] at faultless
    · intro bound
      exact absurd largest bound.ends
  · have faultless : (c.executed (c.undelivered value.asBoundary.reqId ++ rest)).fault.isSome =
        false := by
      change c.fault.isSome = false
      rw [running, Option.isSome_none]
    simp only [if_neg largest, faultless, Bool.false_eq_true, if_false,
      executed_highestCommittedVs, short]
    constructor
    · intro crosses
      have missing : (c.undelivered value.asBoundary.reqId).all c.has = false := by
        by_contra other
        have all := Bool.not_eq_false _ ▸ other
        have committed := crosses.committed
        rw [if_pos all] at committed
        exact (viewId_succ_ne _).symm (congrArg ViewStamp.viewId committed)
      refine ⟨later, missing, ?_, largest⟩
      intro vs above below
      have requested := crosses.requested
      simp only [executed, List.filter_append, List.map_append, List.append_cancel_left_eq,
        List.append_right_eq_self, List.map_eq_nil_iff, List.filter_eq_nil_iff] at requested
      have present := requested vs ((members vs).mpr ⟨above, below⟩)
      simpa using present
    · intro bound
      have kept := takeWhile_has_append bound.missing rest
      have nothing : (rest.filter fun vs => !c.has vs) = [] := by
        apply List.filter_eq_nil_iff.mpr
        intro vs member
        obtain ⟨above, below⟩ := (members vs).mp member
        simp [bound.rest vs above below]
      refine ⟨running, ?_, ?_, ?_⟩
      · simp only [executed, kept]
      · simp only [executed, List.filter_append, nothing, List.append_nil]
      · rw [bound.missing, if_neg Bool.false_ne_true, executed_highestCommittedVs, kept]

end Bound

/-! ## The leader's own scan -/

/-- The leader's scan from a key on comes to an end: its first record is there, and if the highest
seen stamp is the last of all, some record on the way has no quorum. -/
def ScanEnds (env : Env) (c : Comp) (start : DbKey) : Prop :=
  start.toNat ≤ (vstol c.highestSeenVs).toNat → c.stored (ltovs start) ≠ none ∧
    ((vstol c.highestSeenVs).toNat + 1 = 2 ^ 64 →
      ∃ vs, start.toNat ≤ (vstol vs).toNat ∧ NoQuorumAt env c vs)

/-- All the scan of a leader that is behind with deliveries has changed so far. -/
def scannedTo (c : Comp) (reqId : UInt32) : Comp :=
  { c with highestToCommitVs := ⟨c.highestToCommitVs.viewId, reqId⟩ }

/-- Before key `k`: every record so far has a quorum, and the first one was read. -/
private def ScanPassed (env : Env) (c : Comp) (start : DbKey) (k : ℕ) :
    Comp × Option RequestRecord → Prop
  | (c', recordData) => (∃ reqId, c' = c.scannedTo reqId) ∧
      (∀ vs, start.toNat ≤ (vstol vs).toNat → (vstol vs).toNat < k → ¬ NoQuorumAt env c vs) ∧
      (k = start.toNat ∧ recordData = none ∨
        start.toNat < k ∧ c.stored (ltovs start) ≠ none ∧
          ∃ record, recordData = some record ∧ reachedQuorum record c.groupSize = true)

private def ScanLeft (env : Env) (c : Comp) (start : DbKey) : Comp × Option RequestRecord → Prop
  | (c', _) => ∃ reqId,
      (c' = c.scannedTo reqId ∧ c.stored (ltovs start) ≠ none ∧
        ∃ vs, start.toNat ≤ (vstol vs).toNat ∧ NoQuorumAt env c vs) ∨
      (c' = (c.scannedTo reqId).fail .assertion ∧ c.stored (ltovs start) = none)

private theorem leaderExecStep_passed (env : Env) (c : Comp) (start : DbKey) (k : ℕ)
    (s : Comp × Option RequestRecord) (low : start.toNat ≤ k) (room : k < 2 ^ 64)
    (passed : ScanPassed env c start k s) :
    (∀ s', leaderExecStep env false k s = .next s' → ScanPassed env c start (k + 1) s') ∧
    (∀ s', leaderExecStep env false k s = .ret s' → ScanLeft env c start s') := by
  obtain ⟨c', recordData⟩ := s
  obtain ⟨⟨reqId, rfl⟩, quorate, previous⟩ := passed
  have value_key : (UInt64.ofNat k).toNat = k := by
    rw [UInt64.toNat_ofNat', Nat.mod_eq_of_lt room]
  have lookup : (c.scannedTo reqId).db.retrieveRecord (UInt64.ofNat k) =
      c.stored (ltovs (UInt64.ofNat k)) := by
    rw [stored, vstol_ltovs]
    rfl
  have size : (c.scannedTo reqId).groupSize = c.groupSize := rfl
  -- the scan counts keys, so it runs on into the stamps of later views
  have only : ∀ vs : ViewStamp, (vstol vs).toNat = k → vs = ltovs (UInt64.ofNat k) := by
    intro vs same
    rw [← same, UInt64.ofNat_toNat, ltovs_vstol]
  have first : k = start.toNat → ltovs start = ltovs (UInt64.ofNat k) := by
    intro same
    rw [same, UInt64.ofNat_toNat]
  have further : ¬ NoQuorumAt env c (ltovs (UInt64.ofNat k)) →
      ∀ vs, start.toNat ≤ (vstol vs).toNat → (vstol vs).toNat < k + 1 → ¬ NoQuorumAt env c vs := by
    intro here vs above below
    rcases Nat.lt_succ_iff_lt_or_eq.mp below with earlier | same
    · exact quorate vs above earlier
    · rw [only vs same]
      exact here
  simp only [leaderExecStep, lookup, size, Bool.false_eq_true, if_false]
  cases found : c.stored (ltovs (UInt64.ofNat k)) with
  | none =>
    have here : ¬ NoQuorumAt env c (ltovs (UInt64.ofNat k)) := by
      rintro ⟨value, stored, -⟩
      exact Option.some_ne_none value (stored.symm.trans found)
    rcases previous with ⟨same, rfl⟩ | ⟨less, stored, record, rfl, quorum⟩
    · -- nothing read yet: the assertion fails
      refine ⟨by simp, ?_⟩
      intro s' left
      obtain rfl := LoopStep.ret.inj left
      exact ⟨reqId, .inr ⟨rfl, by rw [first same, found]⟩⟩
    · -- the record of the previous request is looked at once more
      simp only [quorum, if_true]
      refine ⟨?_, by simp⟩
      intro s' next
      obtain rfl := LoopStep.next.inj next
      exact ⟨⟨reqId + 1, rfl⟩, further here, .inr ⟨by omega, stored, record, rfl, quorum⟩⟩
  | some value =>
    -- a record read here or before keeps the first one stored
    have there : c.stored (ltovs start) ≠ none := by
      rcases previous with ⟨same, -⟩ | ⟨-, stored, -⟩
      · rw [first same, found]
        exact Option.some_ne_none value
      · exact stored
    cases quorum : reachedQuorum (value.asRequest (env.junk (UInt64.ofNat k))) c.groupSize with
    | true =>
      have here : ¬ NoQuorumAt env c (ltovs (UInt64.ofNat k)) := by
        rintro ⟨value', stored, none_there⟩
        obtain rfl := Option.some.inj (found.symm.trans stored)
        rw [vstol_ltovs, quorum] at none_there
        exact Bool.noConfusion none_there
      simp only [quorum, if_true]
      refine ⟨?_, by simp⟩
      intro s' next
      obtain rfl := LoopStep.next.inj next
      exact ⟨⟨reqId + 1, rfl⟩, further here, .inr ⟨by omega, there, _, rfl, quorum⟩⟩
    | false =>
      simp only [quorum, Bool.false_eq_true, if_false]
      refine ⟨by simp, ?_⟩
      intro s' left
      obtain rfl := LoopStep.ret.inj left
      refine ⟨reqId, .inl ⟨rfl, there, ltovs (UInt64.ofNat k), ?_, value, found, ?_⟩⟩
      · rw [vstol_ltovs, value_key]
        exact low
      · rw [vstol_ltovs]
        exact quorum

/-- A leader that has not delivered what it may only moves its commit stamp. -/
theorem leaderExecFrom_apart (env : Env) (c : Comp) (start : DbKey) (running : c.fault = none)
    (apart : c.highestCommittedVs ≠ c.highestToCommitVs) :
    ∃ reqId fault, leaderExecFrom env c start = { c.scannedTo reqId with fault := fault } ∧
      (fault = none ↔ ScanEnds env c start) := by
  -- with the commit stamps apart the scan only moves the point, whatever it finds
  have flag : (viewStampComp c.highestCommittedVs c.highestToCommitVs == 0) = false := by
    rw [beq_eq_false_iff_ne, ne_eq, viewStampComp_eq_zero]
    exact apart
  have unfaulted : ∀ reqId, c.scannedTo reqId = { c.scannedTo reqId with fault := none } := by
    intro reqId
    rw [← running]
    rfl
  simp only [leaderExecFrom, flag]
  rcases Nat.lt_or_ge (vstol c.highestSeenVs).toNat start.toNat with empty | nonempty
  · refine ⟨c.highestToCommitVs.reqId, none, ?_, fun _ above => absurd above (by omega),
      fun _ => rfl⟩
    rw [forInclusive_empty _ _ _ _ _ empty, ← unfaulted]
    rfl
  · have loop := forInclusive_rule (ScanPassed env c start) (ScanLeft env c start) 64 start.toNat
      (vstol c.highestSeenVs).toNat (leaderExecStep env false) (c, none) (by omega)
      ⟨⟨c.highestToCommitVs.reqId, rfl⟩, fun vs above below => absurd above (by omega),
        .inl ⟨rfl, rfl⟩⟩
      (fun k s low high passed => leaderExecStep_passed env c start k s low
        (by have := (vstol c.highestSeenVs).toNat_lt; omega) passed)
    cases exit : forInclusive 64 start.toNat (vstol c.highestSeenVs).toNat
        (leaderExecStep env false) (c, none) with
    -- the loop ran to the highest stamp seen
    | finished s =>
      obtain ⟨⟨⟨reqId, same⟩, -, previous⟩, inside⟩ := loop.1 s exit
      refine ⟨reqId, none, same.trans (unfaulted reqId), fun _ _ => ?_, fun _ => rfl⟩
      rcases previous with ⟨unread, -⟩ | ⟨-, stored, -⟩
      · omega
      · exact ⟨stored, fun largest => absurd largest (inside nonempty)⟩
    | returned s =>
      obtain ⟨reqId, ⟨same, stored, vs, above, short⟩ | ⟨same, unstored⟩⟩ := loop.2.1 s exit
      · exact ⟨reqId, none, same.trans (unfaulted reqId), fun _ _ => ⟨stored, fun _ =>
          ⟨vs, above, short⟩⟩, fun _ => rfl⟩
      · refine ⟨reqId, some .assertion, same,
          fun faultless => absurd faultless (Option.some_ne_none _), ?_⟩
        intro ends
        exact absurd unstored (ends nonempty).1
    -- the largest stamp was seen and the counter of the loop wrapped
    | wrapped s =>
      obtain ⟨⟨⟨reqId, same⟩, quorate, -⟩, -, largest⟩ := loop.2.2 s exit
      refine ⟨reqId, some .counterWrapped, ?_,
        fun faultless => absurd faultless (Option.some_ne_none _), ?_⟩
      · simp only [same]
        rfl
      · intro ends
        obtain ⟨vs, above, short⟩ := (ends nonempty).2 largest
        have less := (vstol vs).toNat_lt
        exact absurd short (quorate vs above (by omega))

/-- A leader that has delivered all it may sends nothing, keeps so and stays in the view. -/
theorem leaderExecFrom_level (env : Env) (c : Comp) (start : DbKey)
    (level : c.highestCommittedVs = c.highestToCommitVs) :
    let c' := leaderExecFrom env c start
    c'.highestCommittedVs = c'.highestToCommitVs ∧
      c'.highestCommittedVs.viewId = c.highestCommittedVs.viewId ∧ c'.upCalls = c.upCalls := by
  have flag : (viewStampComp c.highestCommittedVs c.highestToCommitVs == 0) = true := by
    rw [beq_iff_eq, viewStampComp_eq_zero]
    exact level
  have kept := forInclusive_invariant
    (fun s : Comp × Option RequestRecord => s.1.highestCommittedVs = s.1.highestToCommitVs ∧
      s.1.highestCommittedVs.viewId = c.highestCommittedVs.viewId ∧ s.1.upCalls = c.upCalls)
    64 start.toNat (vstol c.highestSeenVs).toNat (leaderExecStep env true) (c, none)
    ⟨level, rfl, rfl⟩ (by
      -- both stamps are counted up together, or the scan ends
      rintro k ⟨c', recordData⟩ s' ⟨same, view, silent⟩ stepped
      simp only [leaderExecStep, if_true] at stepped
      split at stepped
      next unread =>
        rcases stepped with next | left
        · cases next
        · obtain rfl := LoopStep.ret.inj left
          exact ⟨same, view, silent⟩
      next record read =>
        split at stepped
        next quorum =>
          rcases stepped with next | left
          · obtain rfl := LoopStep.next.inj next
            exact ⟨congrArg viewStampInc same, view, silent⟩
          · cases left
        next short =>
          rcases stepped with next | left
          · cases next
          · obtain rfl := LoopStep.ret.inj left
            exact ⟨same, view, silent⟩)
  intro c'
  simp only [c', leaderExecFrom, flag]
  cases exit : forInclusive 64 start.toNat (vstol c.highestSeenVs).toNat
      (leaderExecStep env true) (c, none) with
  | finished s =>
    rw [exit] at kept
    exact kept
  | returned s =>
    rw [exit] at kept
    exact kept
  | wrapped s =>
    rw [exit] at kept
    exact kept

/-! ## One call of `try_to_execute` -/

/-- The states and boundary records with which the view is crossed as it should be. -/
structure Crossable (env : Env) (c : Comp) (boundary : ViewStamp) : Prop where
  joined : c.curView.viewId ≠ 0
  /-- A leader has its own scan first, which must neither drop the view nor fail. -/
  scans : c.myRole = .leader → c.highestSeenVs.viewId = c.highestToCommitVs.viewId ∧
    ScanEnds env c (vstol c.highestToCommitVs + 1)
  bound : boundary.viewId = c.highestCommittedVs.viewId ∨ LongBound c boundary

section Call

variable {c : Comp} {value : DbValue}

theorem executeCommitted_crosses_iff (running : c.fault = none)
    (behind : c.highestCommittedVs.viewId.toNat < c.highestToCommitVs.viewId.toNat)
    (found : c.stored ⟨c.highestCommittedVs.viewId + 1, 0⟩ = some value)
    (reached : c.highestCommittedVs.reqId.toNat ≤ value.asBoundary.reqId.toNat) :
    Crosses c value.asBoundary.reqId (executeCommitted c) ↔
      value.asBoundary.viewId = c.highestCommittedVs.viewId ∨ LongBound c value.asBoundary := by
  rcases Nat.lt_trichotomy value.asBoundary.viewId.toNat c.highestCommittedVs.viewId.toNat with
    early | same | later
  · refine ⟨fun crosses => absurd crosses (crosses_early behind found early), ?_⟩
    rintro (same | long)
    · rw [same] at early
      exact absurd early (lt_irrefl _)
    · exact absurd long.later (by omega)
  · have view := UInt32.toNat_inj.mp same
    exact ⟨fun _ => .inl view, fun _ => crosses_exact running behind found reached view⟩
  · rw [crosses_late running behind found reached later]
    refine ⟨.inr, ?_⟩
    rintro (same | long)
    · rw [same] at later
      exact absurd later (lt_irrefl _)
    · exact long

/-- What the leader's scan has changed plays no part in the crossing. -/
theorem crosses_scannedTo (last reqId : UInt32) (c' : Comp) :
    Crosses (c.scannedTo reqId) last c' ↔ Crosses c last c' := by
  constructor
  · rintro ⟨running, delivered, requested, committed⟩
    exact ⟨running, delivered, requested, committed⟩
  · rintro ⟨running, delivered, requested, committed⟩
    exact ⟨running, delivered, requested, committed⟩

theorem longBound_scannedTo (reqId : UInt32) (boundary : ViewStamp) :
    LongBound (c.scannedTo reqId) boundary ↔ LongBound c boundary := by
  constructor
  · rintro ⟨later, missing, rest, ends⟩
    exact ⟨later, missing, rest, ends⟩
  · rintro ⟨later, missing, rest, ends⟩
    exact ⟨later, missing, rest, ends⟩

/-- Nothing is left between a stamp and itself; behind the last key the counter wraps. -/
theorem executeCommitted_level (level : c.highestCommittedVs = c.highestToCommitVs) :
    executeCommitted c = c ∨ (executeCommitted c).fault ≠ none := by
  have views : ¬ c.highestCommittedVs.viewId ≠ c.highestToCommitVs.viewId :=
    not_not_intro (congrArg ViewStamp.viewId level)
  rw [executeCommitted, if_neg views, ← level, execRange_executed]
  split
  next wraps => exact .inr (Option.some_ne_none _)
  next ends =>
    left
    have less := (vstol c.highestCommittedVs).toNat_lt
    have none_left : (vstol c.highestCommittedVs).toNat + 1 -
        (vstol c.highestCommittedVs + 1).toNat = 0 := by
      rw [UInt64.toNat_add, UInt64.toNat_one] at ends ⊢
      omega
    rw [none_left]
    exact executed_nil c

/-- A leader whose highest seen stamp is of a later view drops the undelivered rest. -/
theorem not_crosses_dropped (env : Env) (last : UInt32)
    (behind : c.highestCommittedVs.viewId.toNat < c.highestToCommitVs.viewId.toNat)
    (joined : c.curView.viewId ≠ 0) (leader : c.myRole = .leader)
    (moved : c.highestSeenVs.viewId ≠ c.highestToCommitVs.viewId) :
    ¬ Crosses c last (tryToExecute env c) := by
  simp only [tryToExecute, if_neg joined, if_pos leader, leaderTryToExecute, if_pos moved]
  split
  next apart =>
    intro crosses
    have faultless := crosses.running
    simp [fail] at faultless
  next successor =>
    obtain ⟨dropped, dropped_def⟩ : ∃ dropped, dropped = leaderExecFrom env { c with
        highestToCommitVs := ⟨c.highestToCommitVs.viewId + 1, 0⟩
        highestCommittedVs := ⟨c.highestToCommitVs.viewId + 1, 0⟩ }
        (vstol ⟨c.highestToCommitVs.viewId + 1, 0⟩) := ⟨_, rfl⟩
    obtain ⟨level, view, silent⟩ : dropped.highestCommittedVs = dropped.highestToCommitVs ∧
        dropped.highestCommittedVs.viewId = c.highestToCommitVs.viewId + 1 ∧
        dropped.upCalls = c.upCalls := by
      rw [dropped_def]
      exact leaderExecFrom_level env { c with
        highestToCommitVs := ⟨c.highestToCommitVs.viewId + 1, 0⟩
        highestCommittedVs := ⟨c.highestToCommitVs.viewId + 1, 0⟩ } _ rfl
    rw [← dropped_def]
    -- the committed stamp has gone to the later view without delivering what was left of its own
    have away : dropped.highestCommittedVs.viewId ≠ c.highestCommittedVs.viewId + 1 := by
      intro same
      rw [view] at same
      have views := congrArg UInt32.toNat ((UInt32.add_left_inj 1).mp same)
      omega
    split
    next faulty =>
      intro crosses
      rw [crosses.running] at faulty
      exact Bool.noConfusion faulty
    next faultless =>
      rcases executeCommitted_level level with same | raised
      · rw [same]
        exact not_crosses_of_silent silent away
      · exact fun crosses => raised crosses.running

end Call

/-- One call of `try_to_execute` ends the committed view as it should if and only if the boundary
record names that view itself, not its successor as the records of `update_view` do, or else a
record is missing in the view and none is beyond it. -/
theorem crosses_iff (env : Env) (c : Comp) (value : DbValue) (running : c.fault = none)
    (behind : c.highestCommittedVs.viewId.toNat < c.highestToCommitVs.viewId.toNat)
    (found : c.stored ⟨c.highestCommittedVs.viewId + 1, 0⟩ = some value)
    (reached : c.highestCommittedVs.reqId.toNat ≤ value.asBoundary.reqId.toNat) :
    Crosses c value.asBoundary.reqId (tryToExecute env c) ↔
      Crossable env c value.asBoundary := by
  by_cases joined : c.curView.viewId = 0
  · have idle : tryToExecute env c = c := by rw [tryToExecute, if_pos joined]
    rw [idle]
    exact ⟨fun crosses => absurd crosses (not_crosses_of_silent rfl (viewId_succ_ne _).symm),
      fun crossable => absurd joined crossable.joined⟩
  · by_cases leader : c.myRole = .leader
    -- a leader scans first, and only a scan that ends leaves the rest to `executeCommitted`
    · by_cases moved : c.highestSeenVs.viewId = c.highestToCommitVs.viewId
      · have apart : c.highestCommittedVs ≠ c.highestToCommitVs := by
          intro same
          rw [same] at behind
          exact lt_irrefl _ behind
        obtain ⟨reqId, fault, scanned, ends⟩ :=
          leaderExecFrom_apart env c (vstol c.highestToCommitVs + 1) running apart
        simp only [tryToExecute, if_neg joined, if_pos leader, leaderTryToExecute,
          if_neg (not_not_intro moved), scanned]
        cases fault with
        | some fault =>
          rw [if_pos (by rfl)]
          constructor
          · intro crosses
            exact absurd crosses.running (Option.some_ne_none fault)
          · intro crossable
            exact absurd (ends.mpr (crossable.scans leader).2) (Option.some_ne_none fault)
        | none =>
          have same : { c.scannedTo reqId with fault := none } = c.scannedTo reqId := by
            rw [← running]
            rfl
          rw [if_neg (by simp), same, ← crosses_scannedTo (c := c) _ reqId,
            executeCommitted_crosses_iff (c := c.scannedTo reqId) running behind found reached,
            longBound_scannedTo]
          exact ⟨fun bound => ⟨joined, fun _ => ⟨moved, ends.mp rfl⟩, bound⟩,
            fun crossable => crossable.bound⟩
      · exact ⟨fun crosses => absurd crosses
          (not_crosses_dropped env _ behind joined leader moved),
          fun crossable => absurd (crossable.scans leader).1 moved⟩
    · have follows : tryToExecute env c = executeCommitted c := by
        simp only [tryToExecute, if_neg joined, if_neg leader, running, Option.isSome_none,
          Bool.false_eq_true, if_false]
      rw [follows, executeCommitted_crosses_iff running behind found reached]
      exact ⟨fun bound => ⟨joined, fun leads => absurd leads leader, bound⟩,
        fun crossable => crossable.bound⟩

/-- A follower in view 2 that has one request of view 1 left to deliver, the last of the view. -/
def atBoundary (bytes : ViewBytes) : Comp :=
  { init false 1 3 with
    curView := ⟨2, 0, 1⟩
    highestSeenVs := ⟨2, 0⟩
    highestToCommitVs := ⟨2, 0⟩
    db := (Database.empty.storeRecord (vstol ⟨1, 1⟩) (.request ⟨⟨0, 0⟩, 0, 3, [5]⟩)).storeRecord
      (vstol ⟨2, 0⟩) (.view bytes) }

/-- The record names view 1 and its last request. -/
theorem own_view_crossed :
    Crosses (atBoundary ⟨4294967297, 0, 1⟩) 1
      (tryToExecute quietEnv (atBoundary ⟨4294967297, 0, 1⟩)) :=
  (crosses_iff quietEnv (atBoundary ⟨4294967297, 0, 1⟩) (.view ⟨4294967297, 0, 1⟩) (by decide)
    (by decide) (by decide) (by decide)).mpr
    ⟨by decide, fun leads => absurd leads (by decide), .inl (by decide)⟩

/-- The record names view 2, as one of `update_view` should, with the last request of view 1. -/
theorem next_view_not_crossed :
    ¬ ∀ (env : Env) (c : Comp) (value : DbValue) (last : UInt32), c.fault = none →
      c.curView.viewId ≠ 0 →
      c.highestCommittedVs.viewId.toNat < c.highestToCommitVs.viewId.toNat →
      c.stored ⟨c.highestCommittedVs.viewId + 1, 0⟩ = some value →
      value.asBoundary = ⟨c.highestCommittedVs.viewId + 1, last⟩ →
      c.highestCommittedVs.reqId.toNat ≤ last.toNat →
        Crosses c last (tryToExecute env c) := by
  intro always
  have crosses := always quietEnv (atBoundary ⟨4294967298, 0, 1⟩) (.view ⟨4294967298, 0, 1⟩) 1
    (by decide) (by decide) (by decide) (by decide) (by decide) (by decide)
  have follows : tryToExecute quietEnv (atBoundary ⟨4294967298, 0, 1⟩) =
      executeCommitted (atBoundary ⟨4294967298, 0, 1⟩) := by
    rw [tryToExecute, if_neg (by decide)]
    simp only
    rw [if_neg (by decide), if_neg (by decide)]
  rw [follows] at crosses
  have found : (atBoundary ⟨4294967298, 0, 1⟩).stored
      ⟨(atBoundary ⟨4294967298, 0, 1⟩).highestCommittedVs.viewId + 1, 0⟩ =
        some (.view ⟨4294967298, 0, 1⟩) := by
    decide
  have long := (crosses_late (by decide) (by decide) found (by decide) (by decide)).mp crosses
  exact absurd long.missing (by decide)

end Comp

end LibeventPaxos
