import LibeventPaxos.Consensus

/-!
What `try_to_execute` and `leader_try_to_execute` do inside one view, as closed forms: how far
they move the commit stamps and what they deliver.
-/
namespace LibeventPaxos

open Lib

/-! ## Stamps of one view -/

/-- The stamp `n` requests after `vs` in the same view. -/
def stampAfter (vs : ViewStamp) (n : ℕ) : ViewStamp :=
  { vs with reqId := UInt32.ofNat (vs.reqId.toNat + n) }

@[simp] theorem stampAfter_viewId (vs : ViewStamp) (n : ℕ) :
    (stampAfter vs n).viewId = vs.viewId := rfl

@[simp] theorem stampAfter_zero (vs : ViewStamp) : stampAfter vs 0 = vs := by
  simp [stampAfter]

theorem stampAfter_reqId (vs : ViewStamp) (n : ℕ) (room : vs.reqId.toNat + n < 4294967296) :
    (stampAfter vs n).reqId.toNat = vs.reqId.toNat + n := by
  simp only [stampAfter, UInt32.toNat_ofNat']
  omega

theorem viewStampInc_stampAfter (vs : ViewStamp) (n : ℕ) :
    Comp.viewStampInc (stampAfter vs n) = stampAfter vs (n + 1) := by
  apply ViewStamp.ext_toNat
  · rfl
  · simp only [Comp.viewStampInc, stampAfter, UInt32.toNat_add, UInt32.toNat_ofNat',
      UInt32.toNat_one]
    omega

theorem stampAfter_stampAfter (vs : ViewStamp) (m n : ℕ) :
    stampAfter (stampAfter vs m) n = stampAfter vs (m + n) := by
  apply ViewStamp.ext_toNat
  · rfl
  · simp only [stampAfter, UInt32.toNat_ofNat']
    omega

theorem vstol_stampAfter (vs : ViewStamp) (n : ℕ) (room : vs.reqId.toNat + n < 4294967296) :
    (vstol (stampAfter vs n)).toNat = (vstol vs).toNat + n := by
  rw [vstol_toNat, vstol_toNat, stampAfter_reqId vs n room, stampAfter_viewId]
  omega

theorem ofNat_vstol (vs : ViewStamp) (n : ℕ) (room : vs.reqId.toNat + n < 4294967296) :
    UInt64.ofNat ((vstol vs).toNat + n) = vstol (stampAfter vs n) := by
  rw [← vstol_stampAfter vs n room, UInt64.ofNat_toNat]

/-- The stamps `1 … n` requests after `vs`. -/
def stampsAfter (vs : ViewStamp) (n : ℕ) : List ViewStamp :=
  (List.range n).map fun i => stampAfter vs (i + 1)

@[simp] theorem stampsAfter_zero (vs : ViewStamp) : stampsAfter vs 0 = [] := rfl

theorem stampsAfter_succ (vs : ViewStamp) (n : ℕ) :
    stampsAfter vs (n + 1) = stampsAfter vs n ++ [stampAfter vs (n + 1)] := by
  simp [stampsAfter, List.range_succ]

theorem stampsAfter_add (vs : ViewStamp) (m n : ℕ) :
    stampsAfter vs (m + n) = stampsAfter vs m ++ stampsAfter (stampAfter vs m) n := by
  induction n with
  | zero => simp
  | succ n ih =>
    rw [← Nat.add_assoc, stampsAfter_succ, ih, stampsAfter_succ, List.append_assoc,
      stampAfter_stampAfter, Nat.add_assoc]

namespace Comp

/-- The value stored under a stamp. -/
def stored (c : Comp) (vs : ViewStamp) : Option DbValue := c.db.retrieveRecord (vstol vs)

def deliveriesAt (c : Comp) (stamps : List ViewStamp) : List Delivery :=
  stamps.map fun vs => ⟨vs, c.payloadAt vs⟩

/-! ## `try_to_execute` after the leader's scan -/

/-- The component after `n` further requests were delivered and `missing` was sent. -/
def afterExec (c : Comp) (n : ℕ) (missing : List (Int × ConsensusMsg)) : Comp :=
  { c with
    highestCommittedVs := stampAfter c.highestCommittedVs n
    delivered := c.delivered ++ c.deliveriesAt (stampsAfter c.highestCommittedVs n)
    upCalls := c.upCalls ++ missing }

/-- Only requests for missing records, broadcast by the component itself. -/
def OnlyMissingReqs (c : Comp) (missing : List (Int × ConsensusMsg)) : Prop :=
  ∀ call ∈ missing, ∃ vs, call = (-1, .missingReq c.nodeId vs)

theorem afterExec_zero (c : Comp) : c.afterExec 0 [] = c := by
  simp [afterExec, deliveriesAt]

private theorem afterExec_deliver (c : Comp) (n : ℕ) (missing : List (Int × ConsensusMsg)) :
    { (c.afterExec n missing).deliverMsgData (stampAfter c.highestCommittedVs (n + 1)) with
      highestCommittedVs := viewStampInc (c.afterExec n missing).highestCommittedVs } =
    c.afterExec (n + 1) missing := by
  simp only [afterExec, deliverMsgData, viewStampInc_stampAfter, stampsAfter_succ, deliveriesAt,
    List.map_append, List.append_assoc]
  rfl

private theorem afterExec_missing (c : Comp) (n : ℕ) (missing : List (Int × ConsensusMsg))
    (vs : ViewStamp) : (c.afterExec n missing).sendMissingReq vs =
      c.afterExec n (missing ++ [(-1, .missingReq c.nodeId vs)]) := by
  simp only [afterExec, sendMissingReq, uc, buildMissingReq, List.append_assoc]

/-- How far `try_to_execute` gets towards `stop` of the same view: all of the first `n`
requests are stored, and it stops at `stop` or at the first that is not. -/
structure ExecutesTo (c : Comp) (stop : ViewStamp) (n : ℕ) : Prop where
  room : c.highestCommittedVs.reqId.toNat + n ≤ max c.highestCommittedVs.reqId.toNat stop.reqId.toNat
  present : ∀ i, i < n → c.stored (stampAfter c.highestCommittedVs (i + 1)) ≠ none
  maximal : c.highestCommittedVs.reqId.toNat + n < stop.reqId.toNat →
    c.stored (stampAfter c.highestCommittedVs (n + 1)) = none

/-- The state of the loop of `try_to_execute` before request `i + 1` after the committed one. -/
private def ExecLoopInv (c : Comp) (i : ℕ) : Comp × Bool → Prop
  | (c', execFlag) => ∃ n missing, c' = c.afterExec n missing ∧ c.OnlyMissingReqs missing ∧
      (∀ j, j < n → c.stored (stampAfter c.highestCommittedVs (j + 1)) ≠ none) ∧ n ≤ i ∧
      (execFlag = true → n = i) ∧
      (execFlag = false → n < i ∧ c.stored (stampAfter c.highestCommittedVs (n + 1)) = none)

private theorem execStep_inv (c : Comp) (i : ℕ) (s : Comp × Bool)
    (room : c.highestCommittedVs.reqId.toNat + (i + 1) < 4294967296)
    (inv : ExecLoopInv c i s) :
    ∃ s', execStep ((vstol c.highestCommittedVs).toNat + (i + 1)) s = .next s' ∧
      ExecLoopInv c (i + 1) s' := by
  obtain ⟨c', execFlag⟩ := s
  obtain ⟨n, missing, rfl, only, present, le, running, stopped⟩ := inv
  have key := ofNat_vstol c.highestCommittedVs (i + 1) room
  have lookup : (c.afterExec n missing).db.retrieveRecord
      (vstol (stampAfter c.highestCommittedVs (i + 1))) =
      c.stored (stampAfter c.highestCommittedVs (i + 1)) := rfl
  simp only [execStep, key, ltovs_vstol, lookup]
  cases found : c.stored (stampAfter c.highestCommittedVs (i + 1)) with
  | none =>
    -- the stamp is asked for, and execution stops here if it has not stopped before
    refine ⟨_, rfl, n, _, afterExec_missing c n missing _, ?_, present, by omega, by simp,
      fun _ => ?_⟩
    · intro call member
      rcases List.mem_append.mp member with old | new
      · exact only call old
      · exact ⟨_, List.mem_singleton.mp new⟩
    · cases execFlag with
      | true =>
        obtain rfl := running rfl
        exact ⟨by omega, found⟩
      | false =>
        obtain ⟨less, gap⟩ := stopped rfl
        exact ⟨by omega, gap⟩
  | some value =>
    cases execFlag with
    | true =>
      -- all before it is executed, so it is delivered
      obtain rfl := running rfl
      refine ⟨_, rfl, n + 1, missing, afterExec_deliver c n missing, only, ?_, le_rfl,
        fun _ => rfl, by simp⟩
      intro j less
      rcases Nat.lt_succ_iff_lt_or_eq.mp less with earlier | rfl
      · exact present j earlier
      · simp [found]
    | false =>
      obtain ⟨less, gap⟩ := stopped rfl
      exact ⟨_, rfl, n, missing, rfl, only, present, by omega, by simp,
        fun _ => ⟨by omega, gap⟩⟩

/-- The state of the loop before key `i + 1` after the committed one, which may be of a later
view: execution has stopped by then if it is. -/
private def ExecInView (c : Comp) (i : ℕ) : Comp × Bool → Prop
  | (c', execFlag) => ∃ n missing, c' = c.afterExec n missing ∧
      c.highestCommittedVs.reqId.toNat + n < 4294967295 ∧ (execFlag = true → n = i)

private theorem execStep_inView (c : Comp) (i : ℕ) (s : Comp × Bool)
    (last : c.stored ⟨c.highestCommittedVs.viewId, 4294967295⟩ = none)
    (inv : ExecInView c i s) :
    ∃ s', execStep ((vstol c.highestCommittedVs).toNat + (i + 1)) s = .next s' ∧
      ExecInView c (i + 1) s' := by
  obtain ⟨c', execFlag⟩ := s
  obtain ⟨n, missing, rfl, within, running⟩ := inv
  simp only [execStep]
  generalize keyIs : UInt64.ofNat ((vstol c.highestCommittedVs).toNat + (i + 1)) = key
  cases found : (c.afterExec n missing).db.retrieveRecord key with
  | none =>
    exact ⟨_, rfl, n, _, afterExec_missing c n missing _, within, by simp⟩
  | some value =>
    cases execFlag with
    | false => exact ⟨_, rfl, n, missing, rfl, within, by simp⟩
    | true =>
      obtain rfl := running rfl
      -- all before it is executed, so the key is still one of the view
      rw [ofNat_vstol c.highestCommittedVs (n + 1) (by omega)] at keyIs
      subst keyIs
      have below : c.highestCommittedVs.reqId.toNat + (n + 1) < 4294967295 := by
        by_contra reached
        have atLast : stampAfter c.highestCommittedVs (n + 1) =
            ⟨c.highestCommittedVs.viewId, 4294967295⟩ := by
          apply ViewStamp.ext_toNat
          · rfl
          · rw [stampAfter_reqId _ _ (by omega)]
            show _ = 4294967295
            omega
        have stored : c.stored (stampAfter c.highestCommittedVs (n + 1)) = some value := found
        rw [atLast, last] at stored
        cases stored
      rw [ltovs_vstol]
      exact ⟨_, rfl, n + 1, missing, afterExec_deliver c n missing, below, fun _ => rfl⟩

/-- The loop of `try_to_execute` up to a stamp of the same view. Only a bound that is the
largest key makes it run on. -/
theorem execRange_spec (c : Comp) (stop : ViewStamp)
    (same : stop.viewId = c.highestCommittedVs.viewId)
    (room : (vstol c.highestCommittedVs).toNat + 1 < 2 ^ 64) :
    ∃ n missing, c.ExecutesTo stop n ∧ c.OnlyMissingReqs missing ∧
      execRange c (vstol c.highestCommittedVs + 1) (vstol stop) =
        if (vstol c.highestCommittedVs).toNat < (vstol stop).toNat ∧
            (vstol stop).toNat + 1 = 2 ^ 64
        then (c.afterExec n missing).fail .counterWrapped else c.afterExec n missing := by
  have stop_lt := stop.reqId.toNat_lt
  have base_lt := c.highestCommittedVs.reqId.toNat_lt
  have stop_key := vstol_toNat stop
  have base_key := vstol_toNat c.highestCommittedVs
  rw [same] at stop_key
  have start_key : (vstol c.highestCommittedVs + 1).toNat =
      (vstol c.highestCommittedVs).toNat + 1 := by
    rw [UInt64.toNat_add, UInt64.toNat_one, Nat.mod_eq_of_lt room]
  rcases Nat.lt_or_ge (vstol c.highestCommittedVs).toNat (vstol stop).toNat with ahead | behind
  · have loop := forInclusive_rule
      (fun k s => ∃ i, k = (vstol c.highestCommittedVs).toNat + (i + 1) ∧ ExecLoopInv c i s)
      (fun _ => False) 64 ((vstol c.highestCommittedVs).toNat + 1) (vstol stop).toNat execStep
      (c, true) (by omega)
      ⟨0, by omega, 0, [], (afterExec_zero c).symm, by simp [OnlyMissingReqs], by simp, le_rfl,
        fun _ => rfl, by simp⟩
      (by
        rintro k s low high ⟨i, rfl, inv⟩
        obtain ⟨s', stepped, kept⟩ := execStep_inv c i s (by omega) inv
        rw [stepped]
        refine ⟨fun t same => ⟨i + 1, by omega, ?_⟩, by simp⟩
        exact LoopStep.next.inj same ▸ kept)
    -- what the loop leaves behind, whether or not its counter wrapped
    have settle : ∀ c' execFlag,
        (∃ i, (vstol stop).toNat + 1 = (vstol c.highestCommittedVs).toNat + (i + 1) ∧
          ExecLoopInv c i (c', execFlag)) →
        ∃ n missing, c' = c.afterExec n missing ∧ c.ExecutesTo stop n ∧
          c.OnlyMissingReqs missing := by
      rintro c' execFlag ⟨i, reached, n, missing, rfl, only, present, le, running, stopped⟩
      refine ⟨n, missing, rfl, ⟨by omega, present, ?_⟩, only⟩
      intro short
      cases execFlag with
      | true =>
        have done := running rfl
        omega
      | false => exact (stopped rfl).2
    simp only [execRange, start_key]
    cases exit : forInclusive 64 ((vstol c.highestCommittedVs).toNat + 1) (vstol stop).toNat
        execStep (c, true) with
    | returned s' => exact (loop.2.1 s' exit).elim
    | finished s' =>
      obtain ⟨reached, inside⟩ := loop.1 s' exit
      obtain ⟨n, missing, equal, reaches, only⟩ := settle s'.1 s'.2 reached
      refine ⟨n, missing, reaches, only, ?_⟩
      rw [if_neg (fun both => inside (by omega) both.2), ← equal]
    | wrapped s' =>
      obtain ⟨reached, -, largest⟩ := loop.2.2 s' exit
      obtain ⟨n, missing, equal, reaches, only⟩ := settle s'.1 s'.2 reached
      refine ⟨n, missing, reaches, only, ?_⟩
      rw [if_pos ⟨ahead, largest⟩, ← equal]
  · refine ⟨0, [], ⟨by omega, by simp, by omega⟩, by simp [OnlyMissingReqs], ?_⟩
    rw [if_neg (by omega), afterExec_zero]
    simp only [execRange, start_key]
    rw [forInclusive_empty _ _ _ _ _ (by omega)]

/-- Whatever the bound, only requests of the committed view are executed as long as nothing is
stored under the largest number of that view. -/
theorem execRange_inView (c : Comp) (stop : ViewStamp)
    (room : c.highestCommittedVs.reqId.toNat < 4294967295)
    (last : c.stored ⟨c.highestCommittedVs.viewId, 4294967295⟩ = none) :
    ∃ n missing, c.highestCommittedVs.reqId.toNat + n < 4294967295 ∧
      (execRange c (vstol c.highestCommittedVs + 1) (vstol stop) = c.afterExec n missing ∨
        execRange c (vstol c.highestCommittedVs + 1) (vstol stop) =
          (c.afterExec n missing).fail .counterWrapped) := by
  have view_lt := c.highestCommittedVs.viewId.toNat_lt
  have base_key := vstol_toNat c.highestCommittedVs
  have start_key : (vstol c.highestCommittedVs + 1).toNat =
      (vstol c.highestCommittedVs).toNat + 1 := by
    rw [UInt64.toNat_add, UInt64.toNat_one, Nat.mod_eq_of_lt (by omega)]
  rcases Nat.lt_or_ge (vstol c.highestCommittedVs).toNat (vstol stop).toNat with ahead | behind
  · have loop := forInclusive_rule
      (fun k s => ∃ i, k = (vstol c.highestCommittedVs).toNat + (i + 1) ∧ ExecInView c i s)
      (fun _ => False) 64 ((vstol c.highestCommittedVs).toNat + 1) (vstol stop).toNat execStep
      (c, true) (by omega)
      ⟨0, by omega, 0, [], (afterExec_zero c).symm, room, fun _ => rfl⟩
      (by
        rintro k s low high ⟨i, rfl, inv⟩
        obtain ⟨s', stepped, kept⟩ := execStep_inView c i s last inv
        rw [stepped]
        refine ⟨fun t same => ⟨i + 1, by omega, ?_⟩, by simp⟩
        exact LoopStep.next.inj same ▸ kept)
    simp only [execRange, start_key]
    cases exit : forInclusive 64 ((vstol c.highestCommittedVs).toNat + 1) (vstol stop).toNat
        execStep (c, true) with
    | returned s' => exact (loop.2.1 s' exit).elim
    | finished s' =>
      obtain ⟨⟨i, -, n, missing, equal, within, -⟩, -⟩ := loop.1 s' exit
      exact ⟨n, missing, within, .inl equal⟩
    | wrapped s' =>
      obtain ⟨⟨i, -, n, missing, equal, within, -⟩, -⟩ := loop.2.2 s' exit
      exact ⟨n, missing, within, .inr (congrArg (Comp.fail · .counterWrapped) equal)⟩
  · refine ⟨0, [], room, .inl ?_⟩
    simp only [execRange, start_key]
    rw [forInclusive_empty _ _ _ _ _ (by omega), afterExec_zero]

/-! ## The leader's scan -/

/-- `exec_flag` of `leader_try_to_execute`. -/
def scanFlag (c : Comp) : Bool := viewStampComp c.highestCommittedVs c.highestToCommitVs == 0

theorem scanFlag_iff (c : Comp) :
    c.scanFlag = true ↔ c.highestCommittedVs = c.highestToCommitVs := by
  rw [scanFlag, beq_iff_eq, viewStampComp_eq_zero]

/-- The component after the scan has found `n` further requests with a quorum. -/
def afterScan (c : Comp) (n : ℕ) : Comp :=
  { c with
    highestToCommitVs := stampAfter c.highestToCommitVs n
    highestCommittedVs :=
      if c.scanFlag then stampAfter c.highestCommittedVs n else c.highestCommittedVs
    delivered := if c.scanFlag
      then c.delivered ++ c.deliveriesAt (stampsAfter c.highestCommittedVs n) else c.delivered }

theorem afterScan_zero (c : Comp) : c.afterScan 0 = c := by
  simp [afterScan, deliveriesAt]

/-- The record the scan reads under a stamp has a quorum. -/
def QuorumAt (env : Env) (c : Comp) (vs : ViewStamp) : Prop :=
  ∃ value, c.stored vs = some value ∧
    reachedQuorum (value.asRequest (env.junk (vstol vs))) c.groupSize = true

def NoQuorumAt (env : Env) (c : Comp) (vs : ViewStamp) : Prop :=
  ∃ value, c.stored vs = some value ∧
    reachedQuorum (value.asRequest (env.junk (vstol vs))) c.groupSize = false

/-- The scan moves the commit point by `n`: where a record is stored it has a quorum, and the
first record is stored. A gap after that is not noticed, since the scan then looks at the
previous record again. -/
structure ScansTo (env : Env) (c : Comp) (n : ℕ) : Prop where
  room : c.highestToCommitVs.reqId.toNat + n ≤
    max c.highestToCommitVs.reqId.toNat c.highestSeenVs.reqId.toNat
  quorate : ∀ i, i < n → c.stored (stampAfter c.highestToCommitVs (i + 1)) ≠ none →
    QuorumAt env c (stampAfter c.highestToCommitVs (i + 1))
  first : 0 < n → c.stored (stampAfter c.highestToCommitVs 1) ≠ none

/-- The ways the scan ends. -/
inductive ScanResult (env : Env) (c : Comp) (n : ℕ) : Comp → Prop
  | all (done : c.highestSeenVs.reqId.toNat ≤ c.highestToCommitVs.reqId.toNat + n) :
      ScanResult env c n (c.afterScan n)
  | stopped (short : c.highestToCommitVs.reqId.toNat + n < c.highestSeenVs.reqId.toNat)
      (here : NoQuorumAt env c (stampAfter c.highestToCommitVs (n + 1))) :
      ScanResult env c n (c.afterScan n)
  | unstored (none_yet : n = 0)
      (short : c.highestToCommitVs.reqId.toNat < c.highestSeenVs.reqId.toNat)
      (gap : c.stored (stampAfter c.highestToCommitVs 1) = none) :
      ScanResult env c n (c.fail .assertion)
  | overrun (largest : (vstol c.highestSeenVs).toNat + 1 = 2 ^ 64)
      (below : c.highestToCommitVs.reqId.toNat < c.highestSeenVs.reqId.toNat)
      (done : c.highestSeenVs.reqId.toNat ≤ c.highestToCommitVs.reqId.toNat + n) :
      ScanResult env c n ((c.afterScan n).fail .counterWrapped)

private def ScanLoopInv (env : Env) (c : Comp) (i : ℕ) : Comp × Option RequestRecord → Prop
  | (c', recordData) => c' = c.afterScan i ∧
      (∀ j, j < i → c.stored (stampAfter c.highestToCommitVs (j + 1)) ≠ none →
        QuorumAt env c (stampAfter c.highestToCommitVs (j + 1))) ∧
      (0 < i → c.stored (stampAfter c.highestToCommitVs 1) ≠ none) ∧
      (0 < i → ∃ record, recordData = some record ∧
        reachedQuorum record c.groupSize = true) ∧
      (i = 0 → recordData = none)

private def ScanLoopRet (env : Env) (c : Comp) : Comp × Option RequestRecord → Prop
  | (c', _) => ∃ i, ScansTo env c i ∧ ScanResult env c i c'

/-- One more request with a quorum. -/
private theorem afterScan_next (c : Comp) (i : ℕ) :
    (if c.scanFlag then
      { ({ c.afterScan i with
          highestToCommitVs := viewStampInc (c.afterScan i).highestToCommitVs }).deliverMsgData
          (stampAfter c.highestToCommitVs (i + 1)) with
        highestCommittedVs := viewStampInc (c.afterScan i).highestCommittedVs }
    else { c.afterScan i with
      highestToCommitVs := viewStampInc (c.afterScan i).highestToCommitVs }) =
    c.afterScan (i + 1) := by
  by_cases flag : c.scanFlag = true
  · have same := (scanFlag_iff c).mp flag
    simp only [afterScan, deliverMsgData, flag, if_true, viewStampInc_stampAfter,
      stampsAfter_succ, deliveriesAt, List.map_append, List.append_assoc, ← same]
    rfl
  · simp only [afterScan, flag, if_false, viewStampInc_stampAfter, Bool.false_eq_true]

private theorem leaderExecStep_inv (env : Env) (c : Comp) (i : ℕ)
    (s : Comp × Option RequestRecord)
    (inside : c.highestToCommitVs.reqId.toNat + i < c.highestSeenVs.reqId.toNat)
    (inv : ScanLoopInv env c i s) :
    (∀ s', leaderExecStep env c.scanFlag ((vstol c.highestToCommitVs).toNat + (i + 1)) s =
      .next s' → ScanLoopInv env c (i + 1) s') ∧
    (∀ s', leaderExecStep env c.scanFlag ((vstol c.highestToCommitVs).toNat + (i + 1)) s =
      .ret s' → ScanLoopRet env c s') := by
  obtain ⟨c', recordData⟩ := s
  obtain ⟨rfl, quorate, first, previous, fresh⟩ := inv
  have seen_lt := c.highestSeenVs.reqId.toNat_lt
  -- the counter of the loop is the stamp after the commit point
  have key := ofNat_vstol c.highestToCommitVs (i + 1) (by omega)
  have lookup : (c.afterScan i).db.retrieveRecord
      (vstol (stampAfter c.highestToCommitVs (i + 1))) =
      c.stored (stampAfter c.highestToCommitVs (i + 1)) := rfl
  have size : (c.afterScan i).groupSize = c.groupSize := rfl
  have upto : ScansTo env c i := ⟨by omega, quorate, first⟩
  have next := afterScan_next c i
  simp only [leaderExecStep, key, ltovs_vstol, lookup, size]
  cases found : c.stored (stampAfter c.highestToCommitVs (i + 1)) with
  | none =>
    rcases Nat.eq_zero_or_pos i with rfl | positive
    · -- nothing read yet: the assertion fails
      obtain rfl := fresh rfl
      refine ⟨by simp, ?_⟩
      intro s' same
      obtain rfl := LoopStep.ret.inj same
      rw [afterScan_zero]
      exact ⟨0, upto, .unstored rfl (by omega) found⟩
    · -- the record of the previous request is looked at once more
      obtain ⟨record, rfl, quorum⟩ := previous positive
      simp only [quorum, if_true]
      refine ⟨?_, fun s' same => by split at same <;> simp at same⟩
      intro s' same
      have equal : s' = (c.afterScan (i + 1), some record) := by
        rw [← next]
        split at same
        next flag => simp only [flag, if_true]; exact (LoopStep.next.inj same).symm
        next flag => rw [if_neg flag]; exact (LoopStep.next.inj same).symm
      subst equal
      refine ⟨rfl, ?_, fun _ => first positive, fun _ => ⟨record, rfl, quorum⟩, by omega⟩
      intro j less
      rcases Nat.lt_succ_iff_lt_or_eq.mp less with earlier | rfl
      · exact quorate j earlier
      · exact fun stored => absurd found stored
  -- a record was read: the quorum test decides between stopping and moving on
  | some value =>
    simp only
    cases quorum : reachedQuorum
        (value.asRequest (env.junk (vstol (stampAfter c.highestToCommitVs (i + 1)))))
        c.groupSize with
    | false =>
      simp only [Bool.false_eq_true, if_false]
      refine ⟨by simp, ?_⟩
      intro s' same
      obtain rfl := LoopStep.ret.inj same
      exact ⟨i, upto, .stopped (by omega) ⟨value, found, quorum⟩⟩
    | true =>
      simp only [if_true]
      refine ⟨?_, fun s' same => by split at same <;> simp at same⟩
      intro s' same
      have equal : s' = (c.afterScan (i + 1), some (value.asRequest (env.junk (vstol
          (stampAfter c.highestToCommitVs (i + 1)))))) := by
        rw [← next]
        split at same
        next flag => simp only [flag, if_true]; exact (LoopStep.next.inj same).symm
        next flag => rw [if_neg flag]; exact (LoopStep.next.inj same).symm
      subst equal
      refine ⟨rfl, ?_, ?_, fun _ => ⟨_, rfl, quorum⟩, by omega⟩
      · intro j less
        rcases Nat.lt_succ_iff_lt_or_eq.mp less with earlier | rfl
        · exact quorate j earlier
        · exact fun _ => ⟨value, found, quorum⟩
      · intro _
        rcases Nat.eq_zero_or_pos i with rfl | positive
        · simp [found]
        · exact first positive

/-- The leader's scan inside one view. -/
theorem leaderExecFrom_spec (env : Env) (c : Comp)
    (same : c.highestSeenVs.viewId = c.highestToCommitVs.viewId)
    (room : (vstol c.highestToCommitVs).toNat + 1 < 2 ^ 64) :
    ∃ n, ScansTo env c n ∧
      ScanResult env c n (leaderExecFrom env c (vstol c.highestToCommitVs + 1)) := by
  have stop_lt := c.highestSeenVs.reqId.toNat_lt
  have base_lt := c.highestToCommitVs.reqId.toNat_lt
  have stop_key := vstol_toNat c.highestSeenVs
  have base_key := vstol_toNat c.highestToCommitVs
  rw [same] at stop_key
  have start_key : (vstol c.highestToCommitVs + 1).toNat =
      (vstol c.highestToCommitVs).toNat + 1 := by
    rw [UInt64.toNat_add, UInt64.toNat_one, Nat.mod_eq_of_lt room]
  have initial : ScanLoopInv env c 0 (c, none) :=
    ⟨(afterScan_zero c).symm, by simp, by simp, by simp, fun _ => rfl⟩
  have flag : (viewStampComp c.highestCommittedVs c.highestToCommitVs == 0) = c.scanFlag := rfl
  simp only [leaderExecFrom, flag, start_key]
  rcases Nat.lt_or_ge (vstol c.highestToCommitVs).toNat (vstol c.highestSeenVs).toNat with
    ahead | behind
  -- the invariant carries how many requests have a quorum; the exits tell why the scan ended
  · have loop := forInclusive_rule
      (fun k s => ∃ i, k = (vstol c.highestToCommitVs).toNat + (i + 1) ∧ ScanLoopInv env c i s)
      (ScanLoopRet env c) 64 ((vstol c.highestToCommitVs).toNat + 1)
      (vstol c.highestSeenVs).toNat (leaderExecStep env c.scanFlag) (c, none) (by omega)
      ⟨0, by omega, initial⟩
      (by
        rintro k s low high ⟨i, rfl, inv⟩
        obtain ⟨next, ret⟩ := leaderExecStep_inv env c i s (by omega) inv
        exact ⟨fun s' stepped => ⟨i + 1, by omega, next s' stepped⟩, ret⟩)
    cases exit : forInclusive 64 ((vstol c.highestToCommitVs).toNat + 1)
        (vstol c.highestSeenVs).toNat (leaderExecStep env c.scanFlag) (c, none) with
    | returned s' => exact loop.2.1 s' exit
    | finished s' =>
      obtain ⟨⟨i, reached, equal, quorate, first, -, -⟩, -⟩ := loop.1 s' exit
      refine ⟨i, ⟨by omega, quorate, first⟩, ?_⟩
      simp only [equal]
      exact .all (by omega)
    | wrapped s' =>
      obtain ⟨⟨i, reached, equal, quorate, first, -, -⟩, -, largest⟩ := loop.2.2 s' exit
      refine ⟨i, ⟨by omega, quorate, first⟩, ?_⟩
      simp only [equal]
      exact .overrun largest (by omega) (by omega)
  · rw [forInclusive_empty _ _ _ _ _ (by omega)]
    refine ⟨0, ⟨by omega, by simp, by simp⟩, ?_⟩
    have unchanged : ScanResult env c 0 (c.afterScan 0) := .all (by omega)
    rwa [afterScan_zero] at unchanged

/-- A scan whose first record is missing fails its assertion. -/
theorem leaderExecFrom_unstored (env : Env) (c : Comp) (first : ViewStamp)
    (inside : (vstol first).toNat ≤ (vstol c.highestSeenVs).toNat) (gap : c.stored first = none) :
    leaderExecFrom env c (vstol first) = c.fail .assertion := by
  have leaves : leaderExecStep env c.scanFlag (vstol first).toNat (c, none) =
      .ret (c.fail .assertion, none) := by
    have lookup : c.db.retrieveRecord (vstol first) = none := gap
    simp only [leaderExecStep, UInt64.ofNat_toNat, lookup]
  have flag : (viewStampComp c.highestCommittedVs c.highestToCommitVs == 0) = c.scanFlag := rfl
  simp only [leaderExecFrom, flag, forInclusive_returned _ _ _ _ _ _ inside leaves]

/-- A scan whose first record has no quorum ends there. -/
theorem leaderExecFrom_noQuorum (env : Env) (c : Comp) (first : ViewStamp)
    (inside : (vstol first).toNat ≤ (vstol c.highestSeenVs).toNat)
    (here : NoQuorumAt env c first) : leaderExecFrom env c (vstol first) = c := by
  obtain ⟨value, stored, short⟩ := here
  have leaves : leaderExecStep env c.scanFlag (vstol first).toNat (c, none) =
      .ret (c, some (value.asRequest (env.junk (vstol first)))) := by
    have lookup : c.db.retrieveRecord (vstol first) = some value := stored
    simp only [leaderExecStep, UInt64.ofNat_toNat, lookup, short, Bool.false_eq_true, if_false]
  have flag : (viewStampComp c.highestCommittedVs c.highestToCommitVs == 0) = c.scanFlag := rfl
  simp only [leaderExecFrom, flag, forInclusive_returned _ _ _ _ _ _ inside leaves]

/-! ## A whole call -/

/-- The component after a call that delivered `n` further requests and sent `missing`. -/
def progressed (c : Comp) (committed toCommit : ViewStamp) (n : ℕ)
    (missing : List (Int × ConsensusMsg)) (fault : Option Fault) : Comp :=
  { c with
    highestCommittedVs := committed
    highestToCommitVs := toCommit
    delivered := c.delivered ++ c.deliveriesAt (stampsAfter c.highestCommittedVs n)
    upCalls := c.upCalls ++ missing
    fault := fault }

/-- A component whose committed stamp is in its view, which stores no boundary of a later view
and whose stamps stay clear of the largest one. -/
structure Confined (c : Comp) : Prop where
  running : c.fault = none
  inView : c.highestCommittedVs.viewId = c.curView.viewId
  positive : c.curView.viewId ≠ 0
  toCommit : (vstol c.highestCommittedVs).toNat ≤ (vstol c.highestToCommitVs).toNat
  seen : c.curView.viewId.toNat ≤ c.highestSeenVs.viewId.toNat
  boundary : ∀ w : UInt32, c.curView.viewId.toNat < w.toNat → c.stored ⟨w, 0⟩ = none
  toCommitRoom : (vstol c.highestToCommitVs).toNat + 1 < 2 ^ 64
  seenRoom : (vstol c.highestSeenVs).toNat + 1 < 2 ^ 64

/-- How far a call gets: `n` requests delivered, the commit point moved by `k`. -/
structure Progress (env : Env) (c : Comp) (n k : ℕ) : Prop where
  upto : 0 < n → c.highestToCommitVs.viewId = c.curView.viewId ∧
    c.highestCommittedVs.reqId.toNat + n ≤ c.highestToCommitVs.reqId.toNat + k
  scanned : 0 < k → c.myRole = .leader ∧
    c.highestSeenVs.viewId = c.highestToCommitVs.viewId
  scans : ScansTo env c k

/-- What `try_to_execute` and its parts do to a confined component. -/
structure Executes (env : Env) (c c' : Comp) (n k : ℕ) (missing : List (Int × ConsensusMsg)) :
    Prop where
  progress : Progress env c n k
  only : c.OnlyMissingReqs missing
  result : ∃ committed toCommit fault, c' = c.progressed committed toCommit n missing fault ∧
    (fault = none → committed = stampAfter c.highestCommittedVs n ∧
      toCommit = stampAfter c.highestToCommitVs k)

/-- No request number but the largest can make a stamp the largest one. -/
theorem vstol_lt (vs : ViewStamp) (room : vs.reqId.toNat < 4294967295) :
    (vstol vs).toNat + 1 < 2 ^ 64 := by
  have view_lt := vs.viewId.toNat_lt
  rw [vstol_toNat]
  omega

theorem ScansTo.reqId_lt {env : Env} {c : Comp} {k : ℕ} (scans : ScansTo env c k) :
    c.highestToCommitVs.reqId.toNat + k < 4294967296 := by
  have room := scans.room
  have toCommit_lt := c.highestToCommitVs.reqId.toNat_lt
  have seen_lt := c.highestSeenVs.reqId.toNat_lt
  omega

theorem scansTo_zero (env : Env) (c : Comp) : ScansTo env c 0 :=
  ⟨by omega, by simp, by simp⟩

theorem onlyMissingReqs_nil (c : Comp) : c.OnlyMissingReqs [] := by
  simp [OnlyMissingReqs]

theorem executes_fail (env : Env) (c : Comp) (committed toCommit : ViewStamp) (fault : Fault) :
    Executes env c { c with
      highestCommittedVs := committed, highestToCommitVs := toCommit, fault := some fault } 0 0 [] :=
  ⟨⟨by simp, by simp, scansTo_zero env c⟩, onlyMissingReqs_nil c, committed, toCommit,
    some fault, by simp [progressed, deliveriesAt], by simp⟩

/-- The number of requests the leader's scan delivers. -/
def scanCount (c : Comp) (k : ℕ) : ℕ := if c.scanFlag then k else 0

theorem afterScan_eq_progressed (c : Comp) (k : ℕ) (fault : Option Fault) :
    { c.afterScan k with fault := fault } = c.progressed
      (stampAfter c.highestCommittedVs (c.scanCount k)) (stampAfter c.highestToCommitVs k)
      (c.scanCount k) [] fault := by
  by_cases flag : c.scanFlag = true <;>
    simp [afterScan, progressed, scanCount, flag, deliveriesAt]

private theorem scan_progress (env : Env) (c : Comp) (k : ℕ) (confined : c.Confined)
    (leader : c.myRole = .leader) (same : c.highestSeenVs.viewId = c.highestToCommitVs.viewId)
    (scans : ScansTo env c k) : Progress env c (c.scanCount k) k := by
  refine ⟨?_, fun _ => ⟨leader, same⟩, scans⟩
  intro positive
  by_cases flag : c.scanFlag = true
  · have equal := (scanFlag_iff c).mp flag
    simp only [scanCount, flag, if_true, ← equal]
    exact ⟨confined.inView, le_rfl⟩
  · simp [scanCount, flag] at positive

theorem leaderTryToExecute_spec (env : Env) (c : Comp) (confined : c.Confined)
    (leader : c.myRole = .leader) :
    ∃ n k, Executes env c (leaderTryToExecute env c) n k [] := by
  rw [leaderTryToExecute]
  by_cases same : c.highestSeenVs.viewId = c.highestToCommitVs.viewId
  · rw [if_neg (not_not_intro same)]
    obtain ⟨k, scans, result⟩ :=
      leaderExecFrom_spec env c same confined.toCommitRoom
    have progress := scan_progress env c k confined leader same scans
    refine ⟨c.scanCount k, k, progress, onlyMissingReqs_nil c, ?_⟩
    generalize leaderExecFrom env c (vstol c.highestToCommitVs + 1) = scanned at result
    cases result with
    | all done => exact ⟨_, _, _, afterScan_eq_progressed c k _, fun _ => ⟨rfl, rfl⟩⟩
    | stopped short here => exact ⟨_, _, _, afterScan_eq_progressed c k _, fun _ => ⟨rfl, rfl⟩⟩
    | unstored none_yet short gap =>
      obtain rfl := none_yet
      have none_delivered : c.scanCount 0 = 0 := by simp [scanCount]
      refine ⟨c.highestCommittedVs, c.highestToCommitVs, some .assertion, ?_, by simp⟩
      rw [none_delivered]
      simp [progressed, deliveriesAt, fail]
    -- the counter cannot pass the largest id as long as the view has room
    | overrun largest below done =>
      have room := confined.seenRoom
      omega
  · rw [if_pos same]
    by_cases next : c.highestToCommitVs.viewId + 1 = c.highestSeenVs.viewId
    · rw [if_neg (not_not_intro next)]
      refine ⟨0, 0, ?_⟩
      have order := confined.toCommit
      have seen := confined.seen
      have inView := congrArg UInt32.toNat confined.inView
      have positive : c.curView.viewId.toNat ≠ 0 := fun zero =>
        confined.positive (UInt32.toNat_inj.mp zero)
      have successor := congrArg UInt32.toNat next
      rw [UInt32.toNat_add, UInt32.toNat_one] at successor
      have view_lt := c.highestToCommitVs.viewId.toNat_lt
      have req_lt := c.highestToCommitVs.reqId.toNat_lt
      rw [vstol_toNat, vstol_toNat] at order
      have later : c.curView.viewId.toNat < (c.highestToCommitVs.viewId + 1).toNat := by
        rw [next]; omega
      -- no record of a later view is there yet, so the assertion ends the scan at once
      have gap := confined.boundary (c.highestToCommitVs.viewId + 1) later
      have reached : (vstol ⟨c.highestToCommitVs.viewId + 1, 0⟩).toNat ≤
          (vstol c.highestSeenVs).toNat := by
        rw [next, vstol_boundary, vstol_toNat]
        exact Nat.le_add_right _ _
      generalize (⟨c.highestToCommitVs.viewId + 1, 0⟩ : ViewStamp) = first at gap reached ⊢
      have failed := leaderExecFrom_unstored env
        { c with highestToCommitVs := first, highestCommittedVs := first } first reached gap
      simp only [failed]
      exact executes_fail env c first first .assertion
    · rw [if_pos next]
      exact ⟨0, 0, executes_fail env c c.highestCommittedVs c.highestToCommitVs .assertion⟩

theorem Confined.reqId_le {c : Comp} (confined : c.Confined)
    (same : c.highestToCommitVs.viewId = c.curView.viewId) :
    c.highestCommittedVs.reqId.toNat ≤ c.highestToCommitVs.reqId.toNat := by
  have order := confined.toCommit
  rw [vstol_toNat, vstol_toNat, same, confined.inView] at order
  omega

/-- Progress keeps a component confined. -/
theorem Confined.progressed {env : Env} {c : Comp} {n k : ℕ} (confined : c.Confined)
    (progress : Progress env c n k) (missing : List (Int × ConsensusMsg)) :
    (c.progressed (stampAfter c.highestCommittedVs n) (stampAfter c.highestToCommitVs k) n
      missing none).Confined := by
  have bound := progress.scans.reqId_lt
  have moved := vstol_stampAfter c.highestToCommitVs k bound
  refine ⟨rfl, confined.inView, confined.positive, ?_, confined.seen, confined.boundary, ?_,
    confined.seenRoom⟩
  · simp only [Comp.progressed, moved]
    rcases Nat.eq_zero_or_pos n with rfl | delivers
    · rw [stampAfter_zero]
      exact confined.toCommit.trans (Nat.le_add_right _ _)
    · obtain ⟨same, reached⟩ := progress.upto delivers
      rw [vstol_stampAfter c.highestCommittedVs n (by omega), vstol_toNat, vstol_toNat, same,
        confined.inView]
      omega
  · simp only [Comp.progressed, moved]
    rcases Nat.eq_zero_or_pos k with rfl | scanned
    · exact confined.toCommitRoom
    · have same := (progress.scanned scanned).2
      have room := progress.scans.room
      have seenRoom := confined.seenRoom
      have toCommitRoom := confined.toCommitRoom
      have seen_key := vstol_toNat c.highestSeenVs
      have toCommit_key := vstol_toNat c.highestToCommitVs
      rw [same] at seen_key
      omega

/-- `try_to_execute` after the leader's scan. -/
theorem executeCommitted_spec (c : Comp) (confined : c.Confined) :
    ∃ n missing, c.OnlyMissingReqs missing ∧
      executeCommitted c = c.progressed (stampAfter c.highestCommittedVs n) c.highestToCommitVs n
        missing none ∧
      (c.highestToCommitVs.viewId = c.curView.viewId → c.ExecutesTo c.highestToCommitVs n) ∧
      (c.highestToCommitVs.viewId ≠ c.curView.viewId → n = 0) := by
  have inView := confined.inView
  have running := confined.running
  have order := confined.toCommit
  have view_lt := c.highestToCommitVs.viewId.toNat_lt
  have req_lt := c.highestToCommitVs.reqId.toNat_lt
  have largest := confined.toCommitRoom
  simp only [executeCommitted]
  by_cases same : c.highestCommittedVs.viewId = c.highestToCommitVs.viewId
  · rw [if_neg (not_not_intro same)]
    obtain ⟨n, missing, reaches, only, result⟩ :=
      execRange_spec c c.highestToCommitVs same.symm (by omega)
    refine ⟨n, missing, only, ?_, fun _ => reaches, fun other => ?_⟩
    · rw [result, if_neg (by omega)]
      simp [afterExec, Comp.progressed, running]
    · exact absurd (same.symm.trans inView) other
  · rw [if_pos same]
    have later : c.curView.viewId.toNat < (c.highestCommittedVs.viewId + 1).toNat := by
      have different : c.curView.viewId.toNat ≠ c.highestToCommitVs.viewId.toNat := fun equal =>
        same (inView.trans (UInt32.toNat_inj.mp equal))
      rw [vstol_toNat, vstol_toNat, inView] at order
      rw [inView, UInt32.toNat_add, UInt32.toNat_one]
      omega
    have gap : c.db.retrieveRecord (vstol ⟨c.highestCommittedVs.viewId + 1, 0⟩) = none :=
      confined.boundary _ later
    refine ⟨0, [(-1, .missingReq c.nodeId ⟨c.highestCommittedVs.viewId + 1, 0⟩)], ?_, ?_, ?_,
      fun _ => rfl⟩
    · intro call member
      exact ⟨_, List.mem_singleton.mp member⟩
    · simp only [gap]
      simp [sendMissingReq, uc, buildMissingReq, Comp.progressed, deliveriesAt, running]
    · exact fun equal => absurd (inView.trans equal.symm) same

/-- One call of `try_to_execute`. -/
theorem tryToExecute_spec (env : Env) (c : Comp) (confined : c.Confined) :
    ∃ n k missing, Executes env c (tryToExecute env c) n k missing := by
  rw [tryToExecute, if_neg confined.positive]
  by_cases leader : c.myRole = .leader
  · simp only [leader, if_true]
    obtain ⟨n, k, progress, -, committed, toCommit, fault, result, settled⟩ :=
      leaderTryToExecute_spec env c confined leader
    rw [result]
    cases fault with
    | some fault =>
      exact ⟨n, k, [], progress, onlyMissingReqs_nil c, _, _, some fault, rfl, by simp⟩
    | none =>
      -- what the leader's scan has delivered and what is executed after it, put together
      obtain ⟨rfl, rfl⟩ := settled rfl
      have scanned := confined.progressed progress []
      obtain ⟨m, missing, only, executed, reaches, other⟩ := executeCommitted_spec _ scanned
      refine ⟨n + m, k, missing, ⟨?_, progress.scanned, progress.scans⟩, only, _, _, none, ?_,
        fun _ => ⟨rfl, rfl⟩⟩
      · intro positive
        have bound := progress.scans.reqId_lt
        have moved := stampAfter_reqId c.highestToCommitVs k bound
        by_cases same : c.highestToCommitVs.viewId = c.curView.viewId
        · have order : (stampAfter c.highestCommittedVs n).reqId.toNat ≤
              (stampAfter c.highestToCommitVs k).reqId.toNat := scanned.reqId_le same
          have room : (stampAfter c.highestCommittedVs n).reqId.toNat + m ≤
              max (stampAfter c.highestCommittedVs n).reqId.toNat
                (stampAfter c.highestToCommitVs k).reqId.toNat := (reaches same).room
          have delivered : (stampAfter c.highestCommittedVs n).reqId.toNat =
              c.highestCommittedVs.reqId.toNat + n := by
            rcases Nat.eq_zero_or_pos n with rfl | some_delivered
            · rw [stampAfter_zero]; rfl
            · exact stampAfter_reqId _ _ (by have := (progress.upto some_delivered).2; omega)
          exact ⟨same, by omega⟩
        · have none_later : m = 0 := other same
          have none_before : n = 0 := by
            rcases Nat.eq_zero_or_pos n with zero | some_delivered
            · exact zero
            · exact absurd (progress.upto some_delivered).1 same
          omega
      · simp only [Comp.progressed, Option.isSome_none, Bool.false_eq_true, if_false] at executed ⊢
        rw [executed]
        simp only [stampAfter_stampAfter, stampsAfter_add, deliveriesAt, List.map_append,
          List.append_assoc, List.append_nil]
        rfl
  · obtain ⟨n, missing, only, executed, reaches, other⟩ := executeCommitted_spec c confined
    simp only [leader, if_false, confined.running, Option.isSome_none, Bool.false_eq_true]
    refine ⟨n, 0, missing, ⟨?_, by simp, scansTo_zero env c⟩, only, _, _, none, executed,
      fun _ => ⟨rfl, (stampAfter_zero _).symm⟩⟩
    intro positive
    by_cases same : c.highestToCommitVs.viewId = c.curView.viewId
    · have room := (reaches same).room
      have order := confined.reqId_le same
      exact ⟨same, by omega⟩
    · have nothing := other same
      omega

/-! ## `consensus_make_progress` -/

/-- A request the leader sends again: stored, and not above the highest seen one. -/
def Resent (env : Env) (c : Comp) (call : Int × ConsensusMsg) : Prop :=
  ∃ vs value, (vstol c.retransmitStart).toNat ≤ (vstol vs).toNat ∧
    (vstol vs).toNat ≤ (vstol c.highestSeenVs).toNat ∧ c.stored vs = some value ∧
    call = (-1, c.buildAcceptReq (value.asRequest (env.junk (vstol vs))) vs)

private def ResendInv (env : Env) (c c' : Comp) : Prop :=
  ∃ sent, (∀ call ∈ sent, Resent env c call) ∧ c' = { c with upCalls := c.upCalls ++ sent }

private theorem retransmitStep_inv (env : Env) (c : Comp) (vs : ViewStamp) (c' : Comp)
    (low : (vstol c.retransmitStart).toNat ≤ (vstol vs).toNat)
    (high : (vstol vs).toNat ≤ (vstol c.highestSeenVs).toNat) (inv : ResendInv env c c') :
    (∀ s, retransmitStep env (vstol vs).toNat c' = .next s → ResendInv env c s) ∧
    (∀ s, retransmitStep env (vstol vs).toNat c' = .ret s → ∃ before, ResendInv env c before ∧
      s = before.fail .nullPointer) := by
  obtain ⟨sent, allowed, rfl⟩ := inv
  have lookup : ({ c with upCalls := c.upCalls ++ sent } : Comp).db.retrieveRecord (vstol vs) =
      c.stored vs := rfl
  simp only [retransmitStep, UInt64.ofNat_toNat, ltovs_vstol, lookup]
  cases found : c.stored vs with
  | none => exact ⟨by simp, fun s same => ⟨_, ⟨sent, allowed, rfl⟩, (LoopStep.ret.inj same).symm⟩⟩
  | some value =>
    cases quorum : reachedQuorum (value.asRequest (env.junk (vstol vs))) c.groupSize with
    | true =>
      simp only [quorum, if_true]
      exact ⟨fun s same => ⟨sent, allowed, (LoopStep.next.inj same).symm⟩,
        fun s same => by simp at same⟩
    | false =>
      simp only [quorum, Bool.false_eq_true, if_false]
      refine ⟨fun s same => ⟨sent ++ [(-1, c.buildAcceptReq
        (value.asRequest (env.junk (vstol vs))) vs)], ?_, ?_⟩, fun s same => by simp at same⟩
      · intro call member
        rcases List.mem_append.mp member with old | new
        · exact allowed call old
        · exact ⟨vs, value, low, high, found, List.mem_singleton.mp new⟩
      · rw [← LoopStep.next.inj same]
        simp only [uc, buildAcceptReq, List.append_assoc]

/-- Retransmission only sends; it stops at a request that is not stored. -/
theorem retransmit_spec (env : Env) (c : Comp) :
    ∃ sent fault, (∀ call ∈ sent, Resent env c call) ∧
      retransmit env c = { c with upCalls := c.upCalls ++ sent, fault := fault } ∧
      (fault = c.fault ∨ ∃ raised, fault = some raised) := by
  have nothing : ∃ sent fault, (∀ call ∈ sent, Resent env c call) ∧
      c = { c with upCalls := c.upCalls ++ sent, fault := fault } ∧
      (fault = c.fault ∨ ∃ raised, fault = some raised) := ⟨[], c.fault, by simp, by simp, .inl rfl⟩
  rw [retransmit]
  split
  next behind =>
    rcases Nat.lt_or_ge (vstol c.highestSeenVs).toNat (vstol c.retransmitStart).toNat with
      empty | nonempty
    · rw [forInclusive_empty _ _ _ _ _ empty]
      exact nothing
    · have loop := forInclusive_rule (fun _ => ResendInv env c)
        (fun s => ∃ before, ResendInv env c before ∧ s = before.fail .nullPointer) 64
        (vstol c.retransmitStart).toNat (vstol c.highestSeenVs).toNat (retransmitStep env) c
        (by omega) ⟨[], by simp, by simp⟩
        (fun index c' low high inv => by
          have bound := (vstol c.highestSeenVs).toNat_lt
          have key : (vstol (ltovs (UInt64.ofNat index))).toNat = index := by
            rw [vstol_ltovs, UInt64.toNat_ofNat', Nat.mod_eq_of_lt (by omega)]
          have step := retransmitStep_inv env c (ltovs (UInt64.ofNat index)) c' (by omega)
            (by omega) inv
          rwa [key] at step)
      cases exit : forInclusive 64 (vstol c.retransmitStart).toNat (vstol c.highestSeenVs).toNat
          (retransmitStep env) c with
      | finished c' =>
        obtain ⟨⟨sent, allowed, rfl⟩, -⟩ := loop.1 c' exit
        exact ⟨sent, c.fault, allowed, rfl, .inl rfl⟩
      | returned c' =>
        obtain ⟨before, ⟨sent, allowed, rfl⟩, rfl⟩ := loop.2.1 c' exit
        exact ⟨sent, some .nullPointer, allowed, rfl, .inr ⟨_, rfl⟩⟩
      | wrapped c' =>
        obtain ⟨⟨sent, allowed, rfl⟩, -⟩ := loop.2.2 c' exit
        exact ⟨sent, some .counterWrapped, allowed, rfl, .inr ⟨_, rfl⟩⟩
  next settled => exact nothing

end Comp

end LibeventPaxos
