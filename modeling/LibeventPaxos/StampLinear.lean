import LibeventPaxos.StampOrder

/-!
The delivery loops of `try_to_execute` and `leader_try_to_execute` count with 64-bit keys. Inside
one view the key of an iteration is the key of the stamp behind the committed one, until the
counter passes the largest key and starts at 0 again.
-/
namespace LibeventPaxos

open Lib

theorem vstol_lt_iff (a b : ViewStamp) : vstol a < vstol b ↔ viewStampComp a b < 0 := by
  rw [UInt64.lt_iff_toNat_lt, viewStampComp_neg]

theorem vstol_succ (vs : ViewStamp) (room : vs.reqId.toNat < 4294967295) :
    vstol vs + 1 = vstol { vs with reqId := vs.reqId + 1 } := by
  have view_lt := vs.viewId.toNat_lt
  apply UInt64.toNat_inj.mp
  rw [UInt64.toNat_add, vstol_toNat, vstol_toNat, UInt64.toNat_one]
  simp only [UInt32.toNat_add, UInt32.toNat_one]
  omega

/-- The key behind that of a stamp, wrapped at the largest one. -/
theorem vstol_add_one_toNat (vs : ViewStamp) :
    (vstol vs + 1).toNat = ((vstol vs).toNat + 1) % 2 ^ 64 := by
  rw [UInt64.toNat_add, UInt64.toNat_one]

/-- `next` is the stamp right behind `vs` in the view of `vs`. -/
structure Succeeds (vs next : ViewStamp) : Prop where
  view : next.viewId = vs.viewId
  req : next.reqId.toNat = vs.reqId.toNat + 1

theorem Succeeds.of_keys {vs next : ViewStamp} (view : next.viewId = vs.viewId)
    (keys : (vstol vs).toNat + 1 = (vstol next).toNat) : Succeeds vs next := by
  rw [vstol_toNat, vstol_toNat, view] at keys
  exact ⟨view, by omega⟩

/-- Nothing succeeds to the first stamp of all. -/
theorem not_succeeds_zero (vs : ViewStamp) : ¬ Succeeds vs ⟨0, 0⟩ := by
  intro succeeds
  have req := succeeds.req
  simp at req

theorem viewStampInc_eq {vs next : ViewStamp} (succeeds : Succeeds vs next) :
    Comp.viewStampInc vs = next := by
  have req_lt := next.reqId.toNat_lt
  have req := succeeds.req
  apply ViewStamp.ext_toNat
  · rw [succeeds.view]
    rfl
  · simp only [Comp.viewStampInc, UInt32.toNat_add, UInt32.toNat_one]
    omega

/-- The keys between two of one view are keys of that view. -/
theorem ltovs_between {low high : ViewStamp} (key : DbKey) (same : high.viewId = low.viewId)
    (above : (vstol low).toNat ≤ key.toNat) (below : key.toNat ≤ (vstol high).toNat) :
    (ltovs key).viewId = low.viewId := by
  have low_lt := low.reqId.toNat_lt
  have high_lt := high.reqId.toNat_lt
  rw [vstol_toNat] at above below
  rw [same] at below
  apply UInt32.toNat_inj.mp
  rw [ltovs_viewId_toNat]
  omega

namespace Comp

theorem vstol_largestVs {vs : ViewStamp} (largest : vs = largestVs) :
    (vstol vs).toNat + 1 = 2 ^ 64 := by
  rw [largest]
  decide

theorem eq_largestVs {vs : ViewStamp} (top : (vstol vs).toNat + 1 = 2 ^ 64) : vs = largestVs := by
  by_contra smaller
  have below := vstol_lt_of_ne vs smaller
  omega

/-- What an iteration delivers, if anything, is the successor of the committed stamp. -/
def StepsInOrder (before after : Comp) : Prop :=
  after.delivered = before.delivered ∨
  ∃ delivery, after.delivered = before.delivered ++ [delivery] ∧
    Succeeds before.highestCommittedVs delivery.vs

theorem stepsInOrder_quiet {before after : Comp} (same : after.delivered = before.delivered) :
    StepsInOrder before after := .inl same

theorem not_stepsInOrder {before after : Comp} (delivery : Delivery)
    (delivers : after.delivered = before.delivered ++ [delivery])
    (other : ¬ Succeeds before.highestCommittedVs delivery.vs) : ¬ StepsInOrder before after := by
  rintro (quiet | ⟨delivery', delivers', succeeds⟩)
  · have length := congrArg List.length (quiet.symm.trans delivers)
    simp at length
  · have same := List.append_cancel_left (delivers.symm.trans delivers')
    rw [List.singleton_inj.mp same] at other
    exact other succeeds

/-! ## `try_to_execute` -/

/-- The iterations of the loop of `try_to_execute` that ends at `stop`. -/
def ExecIterates (c : Comp) (stop : ViewStamp) : ℕ → Comp × Bool → Prop :=
  Iterates 64 (vstol c.highestCommittedVs + 1).toNat (vstol stop).toNat execStep (c, true)

/-- Every iteration of the loop of `try_to_execute` delivers in order. -/
def ExecInOrder (c : Comp) (stop : ViewStamp) : Prop :=
  ∀ i s s', c.ExecIterates stop i s → execStep i s = .next s' → StepsInOrder s.1 s'.1

/-- The loop comes to key 0 without having met a gap: it reaches the largest key, with every
record behind the committed one stored, and a record is stored under key 0. -/
structure ExecOverruns (c : Comp) (stop : ViewStamp) : Prop where
  largest : c.highestCommittedVs = largestVs ∨ stop = largestVs
  stored : ∀ vs, (vstol c.highestCommittedVs).toNat < (vstol vs).toNat → c.stored vs ≠ none
  zero : c.stored ⟨0, 0⟩ ≠ none

/-- The three ways through the body. -/
theorem execStep_cases (c : Comp) (execFlag : Bool) (key : DbKey) :
    (c.db.retrieveRecord key = none ∧
      execStep key.toNat (c, execFlag) = .next (c.sendMissingReq (ltovs key), false)) ∨
    (c.db.retrieveRecord key ≠ none ∧ execFlag = false ∧
      execStep key.toNat (c, execFlag) = .next (c, false)) ∨
    (c.db.retrieveRecord key ≠ none ∧ execFlag = true ∧
      execStep key.toNat (c, execFlag) = .next ({ c.deliverMsgData (ltovs key) with
        highestCommittedVs := viewStampInc c.highestCommittedVs }, true)) := by
  simp only [execStep, UInt64.ofNat_toNat]
  cases found : c.db.retrieveRecord key with
  | none => exact .inl ⟨rfl, rfl⟩
  | some value =>
    cases execFlag with
    | false => exact .inr (.inl ⟨by simp, rfl, rfl⟩)
    | true => exact .inr (.inr ⟨by simp, rfl, rfl⟩)

/-- What holds before the body of an iteration, as long as `exec_flag` is set: the index is the
key behind the committed stamp, or the counter has wrapped behind a range without gaps. -/
structure ExecInStep (c : Comp) (stop : ViewStamp) (i : ℕ) (s : Comp × Bool) : Prop where
  key : i < 2 ^ 64
  db : s.1.db = c.db
  tracks : s.2 = true →
    ((vstol s.1.highestCommittedVs).toNat + 1 = i ∧
      s.1.highestCommittedVs.viewId = c.highestCommittedVs.viewId ∧
      (vstol c.highestCommittedVs).toNat < i ∧
      ∀ vs, (vstol c.highestCommittedVs).toNat < (vstol vs).toNat → (vstol vs).toNat < i →
        c.stored vs ≠ none) ∨
    (i = 0 ∧ c.stored ⟨0, 0⟩ = none)

theorem vstol_zero : vstol ⟨0, 0⟩ = 0 := by decide

theorem ofNat_key {i : ℕ} (bound : i < 2 ^ 64) : (UInt64.ofNat i).toNat = i := by
  rw [UInt64.toNat_ofNat', Nat.mod_eq_of_lt bound]

theorem execInStep_first (c : Comp) (stop : ViewStamp) (safe : ¬ c.ExecOverruns stop) :
    ExecInStep c stop (vstol c.highestCommittedVs + 1).toNat (c, true) := by
  have start := vstol_add_one_toNat c.highestCommittedVs
  have bound := (vstol c.highestCommittedVs).toNat_lt
  refine ⟨(vstol c.highestCommittedVs + 1).toNat_lt, rfl, fun _ => ?_⟩
  by_cases last : (vstol c.highestCommittedVs).toNat + 1 = 2 ^ 64
  · right
    refine ⟨by rw [start, last, Nat.mod_self], ?_⟩
    by_contra stored
    refine safe ⟨.inl (eq_largestVs last), fun vs above => ?_, stored⟩
    have vs_lt := (vstol vs).toNat_lt
    omega
  · left
    rw [Nat.mod_eq_of_lt (by omega)] at start
    exact ⟨start.symm, rfl, by omega, fun vs above below => by omega⟩

theorem execInStep_again (c : Comp) (stop : ViewStamp)
    (same : stop.viewId = c.highestCommittedVs.viewId) (safe : ¬ c.ExecOverruns stop) (i : ℕ)
    (s s' : Comp × Bool) (reached : i ≤ (vstol stop).toNat) (inStep : ExecInStep c stop i s)
    (goes : execStep i s = .next s') :
    StepsInOrder s.1 s'.1 ∧ ExecInStep c stop ((i + 1) % 2 ^ 64) s' := by
  obtain ⟨c', execFlag⟩ := s
  obtain ⟨bound, db, tracks⟩ := inStep
  have key := ofNat_key bound
  have next_bound : (i + 1) % 2 ^ 64 < 2 ^ 64 := Nat.mod_lt _ (by decide)
  have cases := execStep_cases c' execFlag (UInt64.ofNat i)
  rw [key, db] at cases
  simp only at db tracks
  rcases cases with ⟨gap, step⟩ | ⟨stored, rfl, step⟩ | ⟨stored, rfl, step⟩
  · obtain rfl := LoopStep.next.inj (step.symm.trans goes)
    exact ⟨stepsInOrder_quiet rfl, next_bound, db, by simp⟩
  · obtain rfl := LoopStep.next.inj (step.symm.trans goes)
    exact ⟨stepsInOrder_quiet rfl, next_bound, db, by simp⟩
  · obtain rfl := LoopStep.next.inj (step.symm.trans goes)
    have here : c.stored (ltovs (UInt64.ofNat i)) ≠ none := by
      rw [Comp.stored, vstol_ltovs]
      exact stored
    rcases tracks rfl with ⟨behind, view, above, present⟩ | ⟨rfl, unstored⟩
    · -- inside the range: the index is the key of the next stamp of the view
      have inView : (ltovs (UInt64.ofNat i)).viewId = c.highestCommittedVs.viewId :=
        ltovs_between _ same (by omega) (by omega)
      have succeeds : Succeeds c'.highestCommittedVs (ltovs (UInt64.ofNat i)) :=
        Succeeds.of_keys (inView.trans view.symm) (by rw [vstol_ltovs, key]; exact behind)
      refine ⟨.inr ⟨_, rfl, succeeds⟩, next_bound, db, fun _ => ?_⟩
      have upto : ∀ vs, (vstol c.highestCommittedVs).toNat < (vstol vs).toNat →
          (vstol vs).toNat < i + 1 → c.stored vs ≠ none := by
        intro vs low high
        rcases Nat.lt_succ_iff_lt_or_eq.mp high with earlier | last
        · exact present vs low earlier
        · have this_one : vs = ltovs (UInt64.ofNat i) := by
            rw [← vstol_inj, vstol_ltovs]
            exact UInt64.toNat_inj.mp (last.trans key.symm)
          rwa [this_one]
      by_cases last : i + 1 = 2 ^ 64
      · right
        refine ⟨by rw [last, Nat.mod_self], ?_⟩
        by_contra zero
        refine safe ⟨.inr (eq_largestVs ?_), fun vs low => upto vs low ?_, zero⟩
        · have stop_lt := (vstol stop).toNat_lt
          omega
        · have vs_lt := (vstol vs).toNat_lt
          omega
      · left
        rw [Nat.mod_eq_of_lt (by omega)]
        simp only [viewStampInc_eq succeeds, vstol_ltovs, key]
        exact ⟨trivial, inView, by omega, upto⟩
    · have zero : ltovs (UInt64.ofNat 0) = ⟨0, 0⟩ := by decide
      rw [zero] at here
      exact absurd unstored here

theorem ExecIterates.inStep {c : Comp} {stop : ViewStamp} {i : ℕ} {s : Comp × Bool}
    (same : stop.viewId = c.highestCommittedVs.viewId) (safe : ¬ c.ExecOverruns stop)
    (reached : c.ExecIterates stop i s) : ExecInStep c stop i s := by
  induction reached with
  | first enters => exact execInStep_first c stop safe
  | again i s s' earlier goes test ih =>
    exact (execInStep_again c stop same safe i s s' (Iterates.le_stop earlier) ih goes).2

/-- A loop that overruns gets to index 0 with `exec_flag` set. -/
theorem ExecOverruns.reaches_zero {c : Comp} {stop : ViewStamp} (overruns : c.ExecOverruns stop) :
    ∃ c', c.ExecIterates stop 0 (c', true) ∧ c'.db = c.db := by
  have bound := (vstol c.highestCommittedVs).toNat_lt
  have stop_lt := (vstol stop).toNat_lt
  have start := vstol_add_one_toNat c.highestCommittedVs
  have top := overruns.largest.imp vstol_largestVs vstol_largestVs
  -- by induction on how far the index is behind the committed stamp
  have runs : ∀ n, (vstol c.highestCommittedVs).toNat + n < 2 ^ 64 →
      ∃ c', c.ExecIterates stop (((vstol c.highestCommittedVs).toNat + (n + 1)) % 2 ^ 64)
        (c', true) ∧ c'.db = c.db := by
    intro n
    induction n with
    | zero =>
      intro _
      have enters : (vstol c.highestCommittedVs + 1).toNat ≤ (vstol stop).toNat := by
        rcases top with last | last <;> omega
      have first : Iterates 64 _ _ execStep (c, true) _ (c, true) := .first enters
      refine ⟨c, ?_, rfl⟩
      rw [Nat.zero_add, ← start]
      exact first
    | succ n ih =>
      intro inside
      obtain ⟨c', reached, db⟩ := ih (by omega)
      have stop_key : (vstol stop).toNat + 1 = 2 ^ 64 := by
        rcases top with last | last <;> omega
      rw [Nat.mod_eq_of_lt (by omega)] at reached
      have moved : (vstol c.highestCommittedVs).toNat + (n + 1 + 1) =
          (vstol c.highestCommittedVs).toNat + (n + 1) + 1 := by omega
      have above : (vstol c.highestCommittedVs).toNat <
          (vstol c.highestCommittedVs).toNat + (n + 1) := by omega
      rw [moved]
      generalize (vstol c.highestCommittedVs).toNat + (n + 1) = i at reached inside above ⊢
      have key := ofNat_key inside
      have stored := overruns.stored (ltovs (UInt64.ofNat i)) (by rwa [vstol_ltovs, key])
      rw [Comp.stored, vstol_ltovs, ← db] at stored
      have cases := execStep_cases c' true (UInt64.ofNat i)
      rw [key] at cases
      rcases cases with ⟨gap, -⟩ | ⟨-, impossible, -⟩ | ⟨-, -, step⟩
      · exact absurd gap stored
      · simp at impossible
      · have below := Nat.mod_lt (i + 1) (show 2 ^ 64 > 0 by decide)
        exact ⟨_, Iterates.again i _ _ reached step (by omega), db⟩
  obtain ⟨c', reached, db⟩ := runs (2 ^ 64 - 1 - (vstol c.highestCommittedVs).toNat) (by omega)
  have wrapped : (vstol c.highestCommittedVs).toNat +
      (2 ^ 64 - 1 - (vstol c.highestCommittedVs).toNat + 1) = 2 ^ 64 := by omega
  rw [wrapped, Nat.mod_self] at reached
  exact ⟨c', reached, db⟩

/-- The iteration for key 0 delivers stamp 0:0. -/
theorem ExecOverruns.breaks {c : Comp} {stop : ViewStamp} (overruns : c.ExecOverruns stop) :
    ¬ c.ExecInOrder stop := by
  intro inOrder
  obtain ⟨c', reached, db⟩ := overruns.reaches_zero
  have stored := overruns.zero
  rw [Comp.stored, vstol_zero, ← db] at stored
  rcases execStep_cases c' true 0 with ⟨gap, -⟩ | ⟨-, impossible, -⟩ | ⟨-, -, step⟩
  · exact absurd gap stored
  · simp at impossible
  · exact not_stepsInOrder _ rfl (not_succeeds_zero _) (inOrder 0 _ _ reached step)

theorem execInOrder_iff (c : Comp) (stop : ViewStamp)
    (same : stop.viewId = c.highestCommittedVs.viewId) :
    c.ExecInOrder stop ↔ ¬ c.ExecOverruns stop := by
  constructor
  · intro inOrder overruns
    exact overruns.breaks inOrder
  · intro safe i s s' reached goes
    exact (execInStep_again c stop same safe i s s' (Iterates.le_stop reached)
      (reached.inStep same safe) goes).1

/-! ## `leader_try_to_execute` -/

/-- The iterations of the leader's loop. -/
def ScanIterates (env : Env) (c : Comp) : ℕ → Comp × Option RequestRecord → Prop :=
  Iterates 64 (vstol c.highestToCommitVs + 1).toNat (vstol c.highestSeenVs).toNat
    (leaderExecStep env c.scanFlag) (c, none)

/-- Every iteration of the leader's loop delivers in order. -/
def ScanInOrder (env : Env) (c : Comp) : Prop :=
  ∀ i s s', ScanIterates env c i s →
    leaderExecStep env c.scanFlag i s = .next s' ∨ leaderExecStep env c.scanFlag i s = .ret s' →
    StepsInOrder s.1 s'.1

/-- The leader's loop delivers under key 0: it reaches the largest key, nothing it reads on the
way, or under key 0, lacks a quorum, and its first record is stored. -/
structure ScanOverruns (env : Env) (c : Comp) : Prop where
  delivers : c.highestCommittedVs = c.highestToCommitVs
  largest : c.highestToCommitVs = largestVs ∨ c.highestSeenVs = largestVs
  first : c.db.retrieveRecord (vstol c.highestToCommitVs + 1) ≠ none
  quorate : ∀ vs, (vstol c.highestToCommitVs).toNat < (vstol vs).toNat ∨ vs = ⟨0, 0⟩ →
    c.stored vs ≠ none → QuorumAt env c vs

/-- `record_data` after the read of an iteration. -/
def scanRecord (env : Env) (c : Comp) (recordData : Option RequestRecord) (key : DbKey) :
    Option RequestRecord :=
  match c.db.retrieveRecord key with
  | some value => some (value.asRequest (env.junk key))
  | none => recordData

/-- The body of the leader's loop by the record it has read. -/
theorem leaderExecStep_read (env : Env) (execFlag : Bool) (key : DbKey) (c : Comp)
    (recordData : Option RequestRecord) :
    leaderExecStep env execFlag key.toNat (c, recordData) =
      match scanRecord env c recordData key with
      | none => .ret (c.fail .assertion, none)
      | some record =>
        if reachedQuorum record c.groupSize then
          let c := { c with highestToCommitVs := viewStampInc c.highestToCommitVs }
          if execFlag then
            let c := c.deliverMsgData (ltovs key)
            .next ({ c with highestCommittedVs := viewStampInc c.highestCommittedVs }, some record)
          else .next (c, some record)
        else .ret (c, some record) := by
  simp only [leaderExecStep, UInt64.ofNat_toNat]
  rfl

theorem leaderExecStep_cases (env : Env) (execFlag : Bool) (key : DbKey) (c : Comp)
    (recordData : Option RequestRecord) :
    (∃ s', leaderExecStep env execFlag key.toNat (c, recordData) = .ret s' ∧
      s'.1.delivered = c.delivered) ∨
    (∃ record c', scanRecord env c recordData key = some record ∧
      reachedQuorum record c.groupSize = true ∧
      leaderExecStep env execFlag key.toNat (c, recordData) = .next (c', some record) ∧
      c'.db = c.db ∧ c'.groupSize = c.groupSize ∧
      (execFlag = false → c'.delivered = c.delivered) ∧
      (execFlag = true → c'.delivered = c.delivered ++ [⟨ltovs key, c.payloadAt (ltovs key)⟩] ∧
        c'.highestCommittedVs = viewStampInc c.highestCommittedVs)) := by
  rw [leaderExecStep_read]
  cases found : scanRecord env c recordData key with
  | none => exact .inl ⟨(c.fail .assertion, none), rfl, rfl⟩
  | some record =>
    cases quorum : reachedQuorum record c.groupSize with
    | false => exact .inl ⟨(c, some record), by simp [quorum], rfl⟩
    | true =>
      simp only [quorum, if_true]
      cases execFlag with
      | false => exact .inr ⟨record, _, rfl, quorum, rfl, rfl, rfl, fun _ => rfl, by simp⟩
      | true => exact .inr ⟨record, _, rfl, quorum, rfl, rfl, rfl, by simp, fun _ => ⟨rfl, rfl⟩⟩

/-- What holds before the body of an iteration of a loop that delivers. -/
structure ScanInStep (env : Env) (c : Comp) (i : ℕ) (s : Comp × Option RequestRecord) :
    Prop where
  key : i < 2 ^ 64
  db : s.1.db = c.db
  size : s.1.groupSize = c.groupSize
  fresh : s.2 = none → i = (vstol c.highestToCommitVs + 1).toNat
  held : ∀ record, s.2 = some record → c.db.retrieveRecord (vstol c.highestToCommitVs + 1) ≠ none
  tracks : ((vstol s.1.highestCommittedVs).toNat + 1 = i ∧
      s.1.highestCommittedVs.viewId = c.highestToCommitVs.viewId ∧
      (vstol c.highestToCommitVs).toNat < i ∧
      ∀ vs, (vstol c.highestToCommitVs).toNat < (vstol vs).toNat → (vstol vs).toNat < i →
        c.stored vs ≠ none → QuorumAt env c vs) ∨
    (i = 0 ∧ (c.highestToCommitVs = largestVs ∨ c.highestSeenVs = largestVs) ∧
      ∀ vs, (vstol c.highestToCommitVs).toNat < (vstol vs).toNat → c.stored vs ≠ none →
        QuorumAt env c vs)

theorem scanInStep_first (env : Env) (c : Comp)
    (delivers : c.highestCommittedVs = c.highestToCommitVs) :
    ScanInStep env c (vstol c.highestToCommitVs + 1).toNat (c, none) := by
  have start := vstol_add_one_toNat c.highestToCommitVs
  have bound := (vstol c.highestToCommitVs).toNat_lt
  refine ⟨(vstol c.highestToCommitVs + 1).toNat_lt, rfl, rfl, fun _ => rfl, by simp, ?_⟩
  by_cases last : (vstol c.highestToCommitVs).toNat + 1 = 2 ^ 64
  · right
    refine ⟨by rw [start, last, Nat.mod_self], .inl (eq_largestVs last), fun vs above => ?_⟩
    have vs_lt := (vstol vs).toNat_lt
    omega
  · left
    rw [Nat.mod_eq_of_lt (by omega)] at start
    simp only [delivers]
    exact ⟨start.symm, trivial, by omega, fun vs above below => by omega⟩

/-- The record an iteration has read under its own key has the quorum it was tested for. -/
theorem quorumAt_scanRecord {env : Env} {c c' : Comp} {recordData : Option RequestRecord}
    {key : DbKey} {record : RequestRecord} (db : c'.db = c.db)
    (size : c'.groupSize = c.groupSize)
    (read : scanRecord env c' recordData key = some record)
    (quorum : reachedQuorum record c'.groupSize = true) (stored : c.stored (ltovs key) ≠ none) :
    QuorumAt env c (ltovs key) := by
  rw [Comp.stored, vstol_ltovs] at stored
  obtain ⟨value, found⟩ := Option.ne_none_iff_exists'.mp stored
  simp only [scanRecord, db, found, Option.some.injEq] at read
  refine ⟨value, by rw [Comp.stored, vstol_ltovs, found], ?_⟩
  rw [vstol_ltovs, read, ← size, quorum]

theorem scanInStep_again (env : Env) (c : Comp)
    (same : c.highestSeenVs.viewId = c.highestToCommitVs.viewId)
    (delivers : c.highestCommittedVs = c.highestToCommitVs) (safe : ¬ ScanOverruns env c) (i : ℕ)
    (s s' : Comp × Option RequestRecord) (reached : i ≤ (vstol c.highestSeenVs).toNat)
    (inStep : ScanInStep env c i s) (goes : leaderExecStep env true i s = .next s') :
    StepsInOrder s.1 s'.1 ∧ ScanInStep env c ((i + 1) % 2 ^ 64) s' := by
  obtain ⟨c', recordData⟩ := s
  obtain ⟨bound, db, size, fresh, held, tracks⟩ := inStep
  have key := ofNat_key bound
  have next_bound : (i + 1) % 2 ^ 64 < 2 ^ 64 := Nat.mod_lt _ (by decide)
  have cases := leaderExecStep_cases env true (UInt64.ofNat i) c' recordData
  rw [key] at cases
  simp only at db size fresh held tracks
  rcases cases with ⟨s'', leaves, -⟩ | ⟨record, c'', read, quorum, step, db', size', -, delivered⟩
  · rw [leaves] at goes
    simp at goes
  · obtain rfl := LoopStep.next.inj (step.symm.trans goes)
    obtain ⟨delivered, committed⟩ := delivered rfl
    have quorate := quorumAt_scanRecord db size read quorum
    have held' : c.db.retrieveRecord (vstol c.highestToCommitVs + 1) ≠ none := by
      cases before : recordData with
      | some record' => exact held record' before
      | none =>
        -- the first iteration has read the record itself
        have start := UInt64.toNat_inj.mp (key.trans (fresh before))
        intro gap
        simp only [scanRecord, db, start, gap, before] at read
        simp at read
    rcases tracks with ⟨behind, view, above, present⟩ | ⟨rfl, largest, present⟩
    · have inView : (ltovs (UInt64.ofNat i)).viewId = c.highestToCommitVs.viewId :=
        ltovs_between _ same (by omega) (by omega)
      have succeeds : Succeeds c'.highestCommittedVs (ltovs (UInt64.ofNat i)) :=
        Succeeds.of_keys (inView.trans view.symm) (by rw [vstol_ltovs, key]; exact behind)
      have upto : ∀ vs, (vstol c.highestToCommitVs).toNat < (vstol vs).toNat →
          (vstol vs).toNat < i + 1 → c.stored vs ≠ none → QuorumAt env c vs := by
        intro vs low high
        rcases Nat.lt_succ_iff_lt_or_eq.mp high with earlier | last
        · exact present vs low earlier
        · have this_one : vs = ltovs (UInt64.ofNat i) := by
            rw [← vstol_inj, vstol_ltovs]
            exact UInt64.toNat_inj.mp (last.trans key.symm)
          rw [this_one]
          exact quorate
      refine ⟨.inr ⟨_, delivered, succeeds⟩, next_bound, db'.trans db, size'.trans size, by simp,
        fun _ _ => held', ?_⟩
      by_cases last : i + 1 = 2 ^ 64
      · right
        have seen_lt := (vstol c.highestSeenVs).toNat_lt
        have top : (vstol c.highestSeenVs).toNat + 1 = 2 ^ 64 := by omega
        refine ⟨by rw [last, Nat.mod_self], .inr (eq_largestVs top), fun vs low => upto vs low ?_⟩
        have vs_lt := (vstol vs).toNat_lt
        omega
      · left
        rw [Nat.mod_eq_of_lt (by omega)]
        simp only [committed, viewStampInc_eq succeeds, vstol_ltovs, key]
        exact ⟨trivial, inView, by omega, upto⟩
    · -- key 0 would be delivered: the loop overruns
      have zero : ltovs (UInt64.ofNat 0) = ⟨0, 0⟩ := by decide
      rw [zero] at quorate
      refine absurd ⟨delivers, largest, held', ?_⟩ safe
      rintro vs (low | rfl)
      · exact present vs low
      · exact quorate

theorem scanFlag_of_eq {c : Comp} (delivers : c.highestCommittedVs = c.highestToCommitVs) :
    c.scanFlag = true := (scanFlag_iff c).mpr delivers

theorem ScanIterates.inStep {env : Env} {c : Comp} {i : ℕ} {s : Comp × Option RequestRecord}
    (same : c.highestSeenVs.viewId = c.highestToCommitVs.viewId)
    (delivers : c.highestCommittedVs = c.highestToCommitVs) (safe : ¬ ScanOverruns env c)
    (reached : ScanIterates env c i s) : ScanInStep env c i s := by
  induction reached with
  | first enters => exact scanInStep_first env c delivers
  | again i s s' earlier goes test ih =>
    rw [scanFlag_of_eq delivers] at goes
    exact (scanInStep_again env c same delivers safe i s s' (Iterates.le_stop earlier) ih goes).2

/-- What an overrunning loop reads for a key on its way has a quorum. -/
theorem ScanOverruns.passes {env : Env} {c c' : Comp} {recordData : Option RequestRecord}
    {key : DbKey} (overruns : ScanOverruns env c) (db : c'.db = c.db)
    (size : c'.groupSize = c.groupSize)
    (inside : (vstol c.highestToCommitVs).toNat < key.toNat ∨ key = 0)
    (known : key = vstol c.highestToCommitVs + 1 ∨
      ∃ record, recordData = some record ∧ reachedQuorum record c.groupSize = true) :
    ∃ record, scanRecord env c' recordData key = some record ∧
      reachedQuorum record c'.groupSize = true := by
  have onWay : (vstol c.highestToCommitVs).toNat < (vstol (ltovs key)).toNat ∨
      ltovs key = ⟨0, 0⟩ := by
    rw [vstol_ltovs]
    rcases inside with above | rfl
    · exact .inl above
    · exact .inr (by decide)
  have quorate := overruns.quorate (ltovs key) onWay
  rw [Comp.stored, vstol_ltovs] at quorate
  cases found : c.db.retrieveRecord key with
  | some value =>
    obtain ⟨value', found', quorum⟩ := quorate (by simp [found])
    rw [Comp.stored, vstol_ltovs, found, Option.some.injEq] at found'
    subst found'
    rw [vstol_ltovs] at quorum
    exact ⟨value.asRequest (env.junk key), by simp only [scanRecord, db, found],
      by rw [size, quorum]⟩
  | none =>
    rcases known with rfl | ⟨record, rfl, quorum⟩
    · exact absurd found overruns.first
    · exact ⟨record, by simp only [scanRecord, db, found], by rw [size, quorum]⟩

/-- One iteration of an overrunning loop. -/
theorem ScanOverruns.step {env : Env} {c c' : Comp} {recordData : Option RequestRecord}
    (overruns : ScanOverruns env c) (key : DbKey) (db : c'.db = c.db)
    (size : c'.groupSize = c.groupSize)
    (inside : (vstol c.highestToCommitVs).toNat < key.toNat ∨ key = 0)
    (known : key = vstol c.highestToCommitVs + 1 ∨
      ∃ record, recordData = some record ∧ reachedQuorum record c.groupSize = true) :
    ∃ c'' record, leaderExecStep env c.scanFlag key.toNat (c', recordData) =
        .next (c'', some record) ∧ c''.db = c.db ∧ c''.groupSize = c.groupSize ∧
      reachedQuorum record c.groupSize = true ∧
      c''.delivered = c'.delivered ++ [⟨ltovs key, c'.payloadAt (ltovs key)⟩] := by
  obtain ⟨record, read, quorum⟩ := overruns.passes db size inside known
  rw [scanFlag_of_eq overruns.delivers]
  rcases leaderExecStep_cases env true key c' recordData with
    ⟨s', leaves, -⟩ | ⟨record', c'', read', quorum', step, db', size', -, delivered⟩
  · -- the body leaves the function on no record with a quorum
    rw [leaderExecStep_read, read] at leaves
    simp [quorum] at leaves
  · exact ⟨c'', record', step, db'.trans db, size'.trans size, size ▸ quorum', (delivered rfl).1⟩

theorem ScanOverruns.breaks {env : Env} {c : Comp} (overruns : ScanOverruns env c) :
    ¬ ScanInOrder env c := by
  intro inOrder
  have bound := (vstol c.highestToCommitVs).toNat_lt
  have seen_lt := (vstol c.highestSeenVs).toNat_lt
  have start := vstol_add_one_toNat c.highestToCommitVs
  have top := overruns.largest.imp vstol_largestVs vstol_largestVs
  -- by induction on how far the index is behind the stamp to commit
  have runs : ∀ n, (vstol c.highestToCommitVs).toNat + n < 2 ^ 64 →
      ∃ c' recordData, ScanIterates env c (((vstol c.highestToCommitVs).toNat + (n + 1)) % 2 ^ 64)
        (c', recordData) ∧ c'.db = c.db ∧ c'.groupSize = c.groupSize ∧
        (((vstol c.highestToCommitVs).toNat + (n + 1)) % 2 ^ 64 =
            (vstol c.highestToCommitVs + 1).toNat ∨
          ∃ record, recordData = some record ∧ reachedQuorum record c.groupSize = true) := by
    intro n
    induction n with
    | zero =>
      intro _
      have enters : (vstol c.highestToCommitVs + 1).toNat ≤ (vstol c.highestSeenVs).toNat := by
        rcases top with last | last <;> omega
      have first : Iterates 64 _ _ (leaderExecStep env c.scanFlag) (c, none) _ (c, none) :=
        .first enters
      refine ⟨c, none, ?_, rfl, rfl, .inl ?_⟩
      · rw [Nat.zero_add, ← start]
        exact first
      · rw [Nat.zero_add, start]
    | succ n ih =>
      intro inside
      obtain ⟨c', recordData, reached, db, size, known⟩ := ih (by omega)
      have stop_key : (vstol c.highestSeenVs).toNat + 1 = 2 ^ 64 := by
        rcases top with last | last <;> omega
      rw [Nat.mod_eq_of_lt (by omega)] at reached known
      have moved : (vstol c.highestToCommitVs).toNat + (n + 1 + 1) =
          (vstol c.highestToCommitVs).toNat + (n + 1) + 1 := by omega
      have above : (vstol c.highestToCommitVs).toNat <
          (vstol c.highestToCommitVs).toNat + (n + 1) := by omega
      rw [moved]
      generalize (vstol c.highestToCommitVs).toNat + (n + 1) = i at reached inside above known ⊢
      have key := ofNat_key inside
      obtain ⟨c'', record, step, db', size', quorum, -⟩ :=
        overruns.step (UInt64.ofNat i) db size (.inl (by rwa [key]))
          (known.imp_left fun same => UInt64.toNat_inj.mp (key.trans same))
      rw [key] at step
      have below := Nat.mod_lt (i + 1) (show 2 ^ 64 > 0 by decide)
      exact ⟨c'', some record, Iterates.again i _ _ reached step (by omega), db', size',
        .inr ⟨record, rfl, quorum⟩⟩
  obtain ⟨c', recordData, reached, db, size, known⟩ :=
    runs (2 ^ 64 - 1 - (vstol c.highestToCommitVs).toNat) (by omega)
  have wrapped : (vstol c.highestToCommitVs).toNat +
      (2 ^ 64 - 1 - (vstol c.highestToCommitVs).toNat + 1) = 2 ^ 64 := by omega
  rw [wrapped, Nat.mod_self] at reached known
  obtain ⟨c'', record, step, -, -, -, delivered⟩ := overruns.step 0 db size (.inr rfl)
    (known.imp_left fun same => UInt64.toNat_inj.mp same)
  have zero : ltovs 0 = ⟨0, 0⟩ := by decide
  refine not_stepsInOrder _ delivered ?_ (inOrder 0 _ _ reached (.inl step))
  rw [zero]
  exact not_succeeds_zero _

theorem scanInOrder_iff (env : Env) (c : Comp)
    (same : c.highestSeenVs.viewId = c.highestToCommitVs.viewId) :
    ScanInOrder env c ↔ ¬ ScanOverruns env c := by
  constructor
  · intro inOrder overruns
    exact overruns.breaks inOrder
  · intro safe i s s' reached goes
    obtain ⟨c', recordData⟩ := s
    have bound : i < 2 ^ 64 :=
      lt_of_le_of_lt (Iterates.le_stop reached) (vstol c.highestSeenVs).toNat_lt
    have cases := leaderExecStep_cases env c.scanFlag (UInt64.ofNat i) c' recordData
    rw [ofNat_key bound] at cases
    rcases cases with ⟨s'', leaves, quiet⟩ | ⟨record, c'', -, -, step, -, -, quiet, -⟩
    · rcases goes with next | ret
      · rw [leaves] at next
        simp at next
      · obtain rfl := LoopStep.ret.inj (leaves.symm.trans ret)
        exact stepsInOrder_quiet quiet
    · rcases goes with next | ret
      · cases flag : c.scanFlag with
        | false =>
          obtain rfl := LoopStep.next.inj (step.symm.trans next)
          exact stepsInOrder_quiet (quiet flag)
        | true =>
          have delivers := (scanFlag_iff c).mp flag
          rw [flag] at next
          exact (scanInStep_again env c same delivers safe i _ s' (Iterates.le_stop reached)
            (reached.inStep same delivers safe) next).1
      · rw [step] at ret
        simp at ret

/-! ## Keys and loops together -/

/-- Keys linearise stamps, and the two delivery loops, started inside one view, deliver the
successor of the committed stamp in each iteration unless they run over the largest key. -/
theorem keys_and_loops_linear (a b : ViewStamp) (key : DbKey) (env : Env) (c : Comp)
    (stop : ViewStamp) :
    ltovs (vstol a) = a ∧ vstol (ltovs key) = key ∧
    (vstol a < vstol b ↔ viewStampComp a b < 0) ∧
    (a.reqId.toNat < 4294967295 → vstol a + 1 = vstol { a with reqId := a.reqId + 1 }) ∧
    (stop.viewId = c.highestCommittedVs.viewId → (c.ExecInOrder stop ↔ ¬ c.ExecOverruns stop)) ∧
    (c.highestSeenVs.viewId = c.highestToCommitVs.viewId →
      (ScanInOrder env c ↔ ¬ ScanOverruns env c)) :=
  ⟨ltovs_vstol a, vstol_ltovs key, vstol_lt_iff a b, vstol_succ a, execInOrder_iff c stop,
    scanInOrder_iff env c⟩

/-- Node 0 of three, leader of the last view, with its last request accepted by two nodes. Under
key 0 is the record of an acceptor, which an election for the view after the last has stored. -/
def lastRequest : Comp :=
  { init true 0 3 with
    curView := ⟨0xFFFFFFFF, 0, 0⟩
    highestSeenVs := largestVs
    highestToCommitVs := ⟨0xFFFFFFFF, 0xFFFFFFFE⟩
    highestCommittedVs := ⟨0xFFFFFFFF, 0xFFFFFFFE⟩
    db := (Database.empty.storeRecord (vstol largestVs) (.request ⟨⟨0, 0⟩, 0, 3, [7]⟩)).storeRecord
      (vstol ⟨0, 0⟩) (.acceptor ⟨1, 1, 0⟩) }

/-- The leader after its scan has committed and delivered the last request. -/
def afterLastRequest : Comp :=
  { lastRequest with
    highestToCommitVs := largestVs
    highestCommittedVs := largestVs
    delivered := [⟨largestVs, some [7]⟩] }

theorem lastRequest_commits (recordData : Option RequestRecord) :
    leaderExecStep quietEnv lastRequest.scanFlag (vstol largestVs).toNat (lastRequest, recordData) =
      .next (afterLastRequest, some ⟨⟨0, 0⟩, 0, 3, [7]⟩) := by
  have flag : lastRequest.scanFlag = true := by decide
  have stored : lastRequest.db.retrieveRecord (vstol largestVs) =
      some (.request ⟨⟨0, 0⟩, 0, 3, [7]⟩) := by decide
  have read : scanRecord quietEnv lastRequest recordData (vstol largestVs) =
      some ⟨⟨0, 0⟩, 0, 3, [7]⟩ := by
    rw [scanRecord, stored]
    rfl
  have payload : lastRequest.payloadAt largestVs = some [7] := by
    rw [payloadAt, stored]
  rw [leaderExecStep_read, read, flag]
  simp only [ltovs_vstol]
  rw [if_pos (by decide)]
  simp only [if_true, deliverMsgData]
  refine congrArg LoopStep.next (Prod.ext ?_ rfl)
  show ({ lastRequest with
    highestToCommitVs := viewStampInc lastRequest.highestToCommitVs
    delivered := lastRequest.delivered ++ [⟨largestVs, lastRequest.payloadAt largestVs⟩]
    highestCommittedVs := viewStampInc lastRequest.highestCommittedVs } : Comp) = afterLastRequest
  rw [payload]
  rfl

theorem afterLastRequest_overruns :
    afterLastRequest.ExecOverruns afterLastRequest.highestToCommitVs := by
  refine ⟨.inl rfl, fun vs above => ?_, by simp [stored, afterLastRequest, lastRequest]⟩
  have top : (vstol afterLastRequest.highestCommittedVs).toNat + 1 = 2 ^ 64 := vstol_largestVs rfl
  have vs_lt := (vstol vs).toNat_lt
  omega

/-- The leader's scan delivers the last request and ends at the record under key 0, which has no
quorum. The loop of `try_to_execute` then starts behind the largest stamp and delivers 0:0. -/
theorem lastRequest_not_inOrder :
    (∃ recordData, ScanIterates quietEnv lastRequest 0 (afterLastRequest, recordData) ∧
      ∃ recordData', leaderExecStep quietEnv lastRequest.scanFlag 0 (afterLastRequest, recordData) =
        .ret (afterLastRequest, recordData')) ∧
    afterLastRequest.highestToCommitVs.viewId = afterLastRequest.highestCommittedVs.viewId ∧
    ¬ afterLastRequest.ExecInOrder afterLastRequest.highestToCommitVs := by
  have start : vstol lastRequest.highestToCommitVs + 1 = vstol largestVs := by decide
  have top : (vstol largestVs).toNat + 1 = 2 ^ 64 := vstol_largestVs rfl
  have first : ScanIterates quietEnv lastRequest (vstol largestVs).toNat (lastRequest, none) := by
    rw [ScanIterates, start]
    exact Iterates.first (le_refl (vstol largestVs).toNat)
  have wraps := Iterates.again _ _ _ first (lastRequest_commits none)
    (by rw [top, Nat.mod_self]; exact Nat.zero_le _)
  rw [top, Nat.mod_self] at wraps
  refine ⟨⟨_, wraps, some (quietEnv.junk 0), ?_⟩, rfl, afterLastRequest_overruns.breaks⟩
  have read : scanRecord quietEnv afterLastRequest (some ⟨⟨0, 0⟩, 0, 3, [7]⟩) 0 =
      some (quietEnv.junk 0) := by
    decide
  have step := leaderExecStep_read quietEnv lastRequest.scanFlag 0 afterLastRequest
    (some ⟨⟨0, 0⟩, 0, 3, [7]⟩)
  rw [read] at step
  simp only at step
  rw [if_neg (by decide)] at step
  exact step

/-- Node 0 of three, leader of view 1, with its first request accepted by two nodes. -/
def oneAccepted : Comp :=
  { init true 0 3 with
    highestSeenVs := ⟨1, 1⟩
    db := Database.empty.storeRecord (vstol ⟨1, 1⟩) (.request ⟨⟨0, 0⟩, 0, 3, [7]⟩) }

theorem oneAccepted_inOrder :
    vstol ⟨1, 0⟩ + 1 = vstol ⟨1, 1⟩ ∧ ScanInOrder quietEnv oneAccepted ∧
      oneAccepted.ExecInOrder ⟨1, 1⟩ := by
  obtain ⟨-, -, -, succ, exec, scan⟩ := keys_and_loops_linear ⟨1, 0⟩ ⟨1, 1⟩ 0 quietEnv oneAccepted
    ⟨1, 1⟩
  have inside : ¬ ((⟨1, 0⟩ : ViewStamp) = largestVs ∨ (⟨1, 1⟩ : ViewStamp) = largestVs) := by decide
  exact ⟨succ (by decide), (scan rfl).mpr fun overruns => inside overruns.largest,
    (exec rfl).mpr fun overruns => inside overruns.largest⟩

end Comp

end LibeventPaxos
