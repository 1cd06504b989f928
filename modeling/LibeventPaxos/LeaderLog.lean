import LibeventPaxos.StampOrder

/-!
The log of a leader: every request above its commit point is stored, with a bit map the leader has
set. Then its scan finds each record it looks for, and moves both commit stamps over the longest
run of requests with a quorum.
-/
namespace LibeventPaxos

open Lib

namespace Comp

/-- A bit map as the leader writes it: its own bit, and the bit of each node that has acknowledged
the request. -/
def ackBits (nodeId : NodeId) (senders : List NodeId) : UInt64 :=
  senders.foldl (fun bits sender => bits ||| nodeBit sender) (nodeBit nodeId)

@[simp] theorem ackBits_nil (nodeId : NodeId) : ackBits nodeId [] = nodeBit nodeId := rfl

theorem ackBits_append (nodeId : NodeId) (senders : List NodeId) (sender : NodeId) :
    ackBits nodeId (senders ++ [sender]) = ackBits nodeId senders ||| nodeBit sender := by
  simp only [ackBits, List.foldl_append, List.foldl_cons, List.foldl_nil]

/-- The leader's own bit is always set. -/
theorem ackBits_own (nodeId : NodeId) (senders : List NodeId) :
    ackBits nodeId senders ||| nodeBit nodeId = ackBits nodeId senders := by
  induction senders using List.reverseRecOn with
  | nil => exact UInt64.or_self
  | append_singleton senders sender ih =>
    rw [ackBits_append, UInt64.or_assoc, UInt64.or_comm (nodeBit sender), ← UInt64.or_assoc, ih]

/-- A leader between two calls: what it has seen above its commit point it has stored, and each
record is as `P` says. -/
structure LeadsLog (P : ViewStamp → RequestRecord → Prop) (c : Comp) : Prop where
  sameView : c.highestSeenVs.viewId = c.highestToCommitVs.viewId
  committed : c.highestCommittedVs = c.highestToCommitVs
  seenRoom : c.highestSeenVs ≠ largestVs
  toCommitRoom : c.highestToCommitVs ≠ largestVs
  records : ∀ vs, (vstol c.highestToCommitVs).toNat < (vstol vs).toNat →
    (vstol vs).toNat ≤ (vstol c.highestSeenVs).toNat →
    ∃ record, c.stored vs = some (.request record) ∧ P vs record

/-- The request is stored with a quorum. -/
def Quorate (c : Comp) (vs : ViewStamp) : Prop :=
  ∃ record, c.stored vs = some (.request record) ∧ reachedQuorum record c.groupSize = true

/-- The longest run of requests with a quorum after the commit point has length `n`. -/
structure QuoratePrefix (c : Comp) (n : ℕ) : Prop where
  room : c.highestToCommitVs.reqId.toNat + n ≤
    max c.highestToCommitVs.reqId.toNat c.highestSeenVs.reqId.toNat
  quorate : ∀ i, i < n → c.Quorate (stampAfter c.highestToCommitVs (i + 1))
  maximal : c.highestToCommitVs.reqId.toNat + n < c.highestSeenVs.reqId.toNat →
    ¬ c.Quorate (stampAfter c.highestToCommitVs (n + 1))

section LeadsLog

variable {P P' : ViewStamp → RequestRecord → Prop} {c : Comp}

/-! ## Execution -/

/-- A request of the leader's range, named by its distance from the commit point. -/
private theorem LeadsLog.record (leads : LeadsLog P c) (i : ℕ)
    (inside : c.highestToCommitVs.reqId.toNat + (i + 1) ≤ c.highestSeenVs.reqId.toNat) :
    ∃ record, c.stored (stampAfter c.highestToCommitVs (i + 1)) = some (.request record) ∧
      P (stampAfter c.highestToCommitVs (i + 1)) record := by
  have seen_lt := c.highestSeenVs.reqId.toNat_lt
  have key := vstol_stampAfter c.highestToCommitVs (i + 1) (by omega)
  have seen_key := vstol_toNat c.highestSeenVs
  have toCommit_key := vstol_toNat c.highestToCommitVs
  rw [leads.sameView] at seen_key
  exact leads.records _ (by omega) (by omega)

/-- The scan looks at the records as they are stored. -/
private theorem quorate_of_quorumAt {env : Env} {vs : ViewStamp} {record : RequestRecord}
    (found : c.stored vs = some (.request record)) (quorum : QuorumAt env c vs) :
    c.Quorate vs := by
  obtain ⟨value, same, reached⟩ := quorum
  obtain rfl := Option.some.inj (found.symm.trans same)
  exact ⟨record, found, reached⟩

private theorem not_quorate_of_noQuorumAt {env : Env} {vs : ViewStamp} {record : RequestRecord}
    (found : c.stored vs = some (.request record)) (short : NoQuorumAt env c vs) :
    ¬ c.Quorate vs := by
  rintro ⟨record', same, reached⟩
  obtain ⟨value, same', below⟩ := short
  obtain rfl := Option.some.inj (found.symm.trans same')
  obtain rfl := DbValue.request.inj (Option.some.inj (found.symm.trans same))
  rw [DbValue.asRequest] at below
  rw [below] at reached
  cases reached

/-- A scan over the longest run of requests with a quorum leaves a leader with its log. -/
theorem LeadsLog.afterScan (leads : LeadsLog P c) {n : ℕ} (reached : c.QuoratePrefix n) :
    LeadsLog P (c.afterScan n) := by
  have flag : c.scanFlag = true := (scanFlag_iff c).mpr leads.committed
  have room := reached.room
  have toCommit_lt := c.highestToCommitVs.reqId.toNat_lt
  have seen_lt := c.highestSeenVs.reqId.toNat_lt
  have moved := vstol_stampAfter c.highestToCommitVs n (by omega)
  have reqId := stampAfter_reqId c.highestToCommitVs n (by omega)
  refine ⟨leads.sameView, ?_, leads.seenRoom, ?_, ?_⟩
  · simp only [Comp.afterScan, flag, if_true, leads.committed]
  · -- the commit point does not pass the highest seen stamp, which is not the largest
    intro largest
    have largest' : stampAfter c.highestToCommitVs n = largestVs := largest
    have view := congrArg ViewStamp.viewId largest'
    have last := congrArg (fun vs : ViewStamp => vs.reqId.toNat) largest'
    simp only [stampAfter_viewId] at view
    simp only [reqId] at last
    have bound : largestVs.reqId.toNat = 4294967295 := rfl
    rcases Nat.lt_or_ge c.highestToCommitVs.reqId.toNat 4294967295 with below | top
    · have seen : c.highestSeenVs.reqId = largestVs.reqId := UInt32.toNat_inj.mp (by omega)
      exact leads.seenRoom (ViewStamp.ext_toNat (by rw [leads.sameView, view]) (by rw [seen]))
    · have toCommit : c.highestToCommitVs.reqId = largestVs.reqId := UInt32.toNat_inj.mp (by omega)
      exact leads.toCommitRoom (ViewStamp.ext_toNat (by rw [view]) (by rw [toCommit]))
  · intro vs above below
    have above' : (vstol (stampAfter c.highestToCommitVs n)).toNat < (vstol vs).toNat := above
    rw [moved] at above'
    exact leads.records vs (by omega) below

/-- The scan of a leader with its log ends. -/
theorem LeadsLog.leaderTryToExecute (leads : LeadsLog P c) (env : Env) :
    ∃ n, c.QuoratePrefix n ∧ leaderTryToExecute env c = c.afterScan n := by
  have room := vstol_lt_of_ne _ leads.toCommitRoom
  obtain ⟨n, scans, result⟩ := leaderExecFrom_spec env c leads.sameView room
  rw [Comp.leaderTryToExecute, if_neg (not_not_intro leads.sameView)]
  have inside := scans.room
  have quorate : ∀ i, i < n → c.Quorate (stampAfter c.highestToCommitVs (i + 1)) := by
    intro i less
    obtain ⟨record, found, -⟩ := leads.record i (by omega)
    exact quorate_of_quorumAt found (scans.quorate i less (by simp [found]))
  generalize leaderExecFrom env c (vstol c.highestToCommitVs + 1) = c' at result
  cases result with
  | all done => exact ⟨n, ⟨inside, quorate, fun short => absurd done (by omega)⟩, rfl⟩
  | stopped short here =>
    obtain ⟨record, found, -⟩ := leads.record n (by omega)
    exact ⟨n, ⟨inside, quorate, fun _ => not_quorate_of_noQuorumAt found here⟩, rfl⟩
  | unstored none_yet short gap =>
    obtain ⟨record, found, -⟩ := leads.record 0 (by omega)
    rw [gap] at found
    cases found
  | overrun largest below done =>
    have bound := vstol_lt_of_ne _ leads.seenRoom
    omega

/-- Nothing is left to execute when the commit point is reached. -/
theorem executeCommitted_settled (c : Comp) (same : c.highestCommittedVs = c.highestToCommitVs)
    (room : c.highestToCommitVs ≠ largestVs) : executeCommitted c = c := by
  have bound := vstol_lt_of_ne _ room
  have start : (vstol c.highestToCommitVs + 1).toNat = (vstol c.highestToCommitVs).toNat + 1 := by
    rw [UInt64.toNat_add, UInt64.toNat_one, Nat.mod_eq_of_lt bound]
  have sameView : ¬ c.highestCommittedVs.viewId ≠ c.highestToCommitVs.viewId := by
    rw [same]
    exact not_not_intro rfl
  simp only [executeCommitted, if_neg sameView]
  rw [same]
  simp only [execRange]
  rw [forInclusive_empty _ _ _ _ _ (by omega)]

/-- `try_to_execute` at a leader with its log is the scan alone. -/
theorem LeadsLog.tryToExecute (leads : LeadsLog P c) (env : Env) (leader : c.myRole = .leader)
    (running : c.fault = none) (active : c.curView.viewId ≠ 0) :
    ∃ n, c.QuoratePrefix n ∧ tryToExecute env c = c.afterScan n := by
  obtain ⟨n, reached, scanned⟩ := leads.leaderTryToExecute env
  have after := leads.afterScan reached
  refine ⟨n, reached, ?_⟩
  have fault : (c.afterScan n).fault = none := running
  rw [Comp.tryToExecute, if_neg active]
  simp only [leader, if_true, scanned, fault, Option.isSome_none, Bool.false_eq_true, if_false]
  exact executeCommitted_settled _ after.committed after.toCommitRoom

/-- The call returns, and the leader keeps its log. -/
theorem LeadsLog.executes (leads : LeadsLog P c) (env : Env) (leader : c.myRole = .leader)
    (running : c.fault = none) :
    LeadsLog P (Comp.tryToExecute env c) ∧ (Comp.tryToExecute env c).fault = none := by
  by_cases waiting : c.curView.viewId = 0
  · rw [Comp.tryToExecute, if_pos waiting]
    exact ⟨leads, running⟩
  · obtain ⟨n, reached, scanned⟩ := leads.tryToExecute env leader running waiting
    rw [scanned]
    exact ⟨leads.afterScan reached, running⟩

theorem LeadsLog.mono (leads : LeadsLog P c) (implies : ∀ vs record, P vs record → P' vs record) :
    LeadsLog P' c := by
  refine ⟨leads.sameView, leads.committed, leads.seenRoom, leads.toCommitRoom, ?_⟩
  intro vs above below
  obtain ⟨record, found, good⟩ := leads.records vs above below
  exact ⟨record, found, implies vs record good⟩

/-- Messages and deliveries are no part of the log. -/
theorem LeadsLog.sends (leads : LeadsLog P c) (upCalls : List (Int × ConsensusMsg)) :
    LeadsLog P { c with upCalls := upCalls } :=
  ⟨leads.sameView, leads.committed, leads.seenRoom, leads.toCommitRoom, leads.records⟩

/-! ## Messages -/

/-- A leader takes no request of another node for a view it has reached. -/
theorem storeAcceptReq_ignored (env : Env) (c : Comp) (msgVs reqCanbeExed : ViewStamp)
    (nodeId : NodeId) (origin : RequestRecord) (foreign : nodeId ≠ c.curView.leaderId)
    (earlier : ¬ (c.curView.viewId < msgVs.viewId ∧
      viewStampComp c.highestCommittedVs msgVs < 0)) :
    storeAcceptReq env c msgVs reqCanbeExed nodeId origin = c := by
  rcases storeAcceptReq_cases env c msgVs reqCanbeExed nodeId origin with
    ⟨ignored, -⟩ | ⟨notOlder, known, fresh, -⟩
  · exact ignored
  · refine absurd ⟨?_, (viewStampComp_neg _ _).mpr fresh⟩ earlier
    have different : c.curView.viewId.toNat ≠ msgVs.viewId.toNat := fun same =>
      foreign (known (UInt32.toNat_inj.mp same.symm))
    rw [UInt32.lt_iff_toNat_lt]
    omega

/-- An acknowledgement adds one bit to one record. -/
theorem LeadsLog.storeAcceptAck (leads : LeadsLog P c) (env : Env) (msgVs : ViewStamp)
    (nodeId : NodeId) (leader : c.myRole = .leader)
    (others : ∀ vs record, vs ≠ msgVs → P vs record → P' vs record)
    (acked : ∀ record, P msgVs record → P' msgVs (updateRecord record nodeId))
    (refused : env.storeOk = false → ∀ record, P msgVs record → P' msgVs record) :
    LeadsLog P' (storeAcceptAck env c msgVs nodeId) := by
  have lookup : c.db.retrieveRecord (vstol msgVs) = c.stored msgVs := rfl
  rw [Comp.storeAcceptAck, if_neg (not_not_intro leader)]
  split
  next done =>
    -- the request is below the range of the log
    rw [viewStampComp_nonpos, leads.committed] at done
    refine ⟨leads.sameView, leads.committed, leads.seenRoom, leads.toCommitRoom, ?_⟩
    intro vs above below
    obtain ⟨record, found, good⟩ := leads.records vs above below
    refine ⟨record, found, others vs record ?_ good⟩
    rintro rfl
    omega
  next fresh =>
    simp only [lookup]
    cases stored : c.stored msgVs with
    | none =>
      refine ⟨leads.sameView, leads.committed, leads.seenRoom, leads.toCommitRoom, ?_⟩
      intro vs above below
      obtain ⟨record, found, good⟩ := leads.records vs above below
      refine ⟨record, found, others vs record ?_ good⟩
      rintro rfl
      rw [stored] at found
      cases found
    | some value =>
      cases stores : env.storeOk with
      | false =>
        refine leads.mono ?_
        intro vs record good
        by_cases same : vs = msgVs
        · subst same
          exact refused stores record good
        · exact others vs record same good
      | true =>
        refine ⟨leads.sameView, leads.committed, leads.seenRoom, leads.toCommitRoom, ?_⟩
        intro vs above below
        obtain ⟨record, found, good⟩ := leads.records vs above below
        simp only [if_true]
        rw [stored_storeRecord]
        by_cases same : vs = msgVs
        · subst same
          obtain rfl := Option.some.inj (stored.symm.trans found)
          rw [if_pos rfl]
          exact ⟨_, rfl, acked record good⟩
        · rw [if_neg same]
          exact ⟨record, found, others vs record same good⟩

/-- A record stored where nothing was lies outside the range of the log. -/
theorem LeadsLog.storeMissing (leads : LeadsLog P c) (missingVs : ViewStamp) (value : DbValue)
    (absent : c.stored missingVs = none) :
    LeadsLog P { c with db := c.db.storeRecord (vstol missingVs) value } := by
  refine ⟨leads.sameView, leads.committed, leads.seenRoom, leads.toCommitRoom, ?_⟩
  intro vs above below
  obtain ⟨record, found, good⟩ := leads.records vs above below
  refine ⟨record, ?_, good⟩
  rw [stored_storeRecord, if_neg]
  · exact found
  · rintro rfl
    rw [absent] at found
    cases found

theorem LeadsLog.handleMissingAck (leads : LeadsLog P c) (env : Env) (missingVs : ViewStamp)
    (origin : RequestRecord) (leader : c.myRole = .leader) (running : c.fault = none) :
    LeadsLog P (handleMissingAck env c missingVs origin) ∧
      (handleMissingAck env c missingVs origin).fault = none := by
  rcases handleMissingAck_cases env c missingVs origin with
    ⟨ignored, -⟩ | ⟨-, absent, ⟨-, failed⟩ | ⟨-, stored⟩⟩
  · rw [ignored]
    exact ⟨leads, running⟩
  · rw [failed]
    exact leads.executes env leader running
  · rw [stored]
    have kept := leads.storeMissing missingVs (.request (missingRecord env origin)) absent
    exact kept.executes env leader running

/-! ## Submission -/

/-- The leader stores a request under the next stamp. If its number wraps, nothing is left above
the commit point. -/
theorem LeadsLog.submitted (leads : LeadsLog P c) (env : Env) (data : List UInt8)
    (room : c.getNextViewStamp ≠ largestVs)
    (fresh : P c.getNextViewStamp (submitRecord env c data)) :
    LeadsLog P { c with
      db := c.db.storeRecord (vstol c.getNextViewStamp) (.request (submitRecord env c data))
      highestSeenVs := c.getNextViewStamp
      assigned := c.assigned ++ [(c.getNextViewStamp, data)] } := by
  refine ⟨leads.sameView, leads.committed, room, leads.toCommitRoom, ?_⟩
  intro vs above below
  have above' : (vstol c.highestToCommitVs).toNat < (vstol vs).toNat := above
  have below' : (vstol vs).toNat ≤ (vstol c.getNextViewStamp).toNat := below
  rw [Comp.stored, Database.retrieveRecord_storeRecord]
  by_cases same : vs = c.getNextViewStamp
  · subst same
    rw [if_pos rfl]
    exact ⟨_, rfl, fresh⟩
  · rw [if_neg (mt (vstol_inj _ _).mp same)]
    refine leads.records vs above' ?_
    have different : (vstol vs).toNat ≠ (vstol c.getNextViewStamp).toNat := fun equal =>
      same ((vstol_inj _ _).mp (UInt64.toNat_inj.mp equal))
    by_cases wraps : c.highestSeenVs.reqId = 0xFFFFFFFF
    · -- the next stamp is request 0 of the view, which no stamp above the commit point is below
      have next : c.getNextViewStamp = ⟨c.highestToCommitVs.viewId, 0⟩ := by
        rw [getNextViewStamp, leads.sameView, wraps]
        rfl
      rw [next, vstol_boundary] at below'
      rw [vstol_toNat] at above'
      omega
    · have next := nextStamp_toNat wraps
      omega

theorem LeadsLog.leaderHandleSubmitReq (leads : LeadsLog P c) (env : Env) (data : List UInt8)
    (leader : c.myRole = .leader) (running : c.fault = none)
    (room : env.storeOk = true → c.getNextViewStamp ≠ largestVs)
    (fresh : P c.getNextViewStamp (submitRecord env c data)) :
    LeadsLog P (leaderHandleSubmitReq env c data).1 ∧
      (leaderHandleSubmitReq env c data).1.fault = none := by
  rcases leaderHandleSubmitReq_cases env c data with ⟨-, failed⟩ | ⟨stores, submitted, rfl, result⟩
  · rw [failed]
    exact ⟨leads, running⟩
  · have taken := leads.submitted env data (room stores) fresh
    rcases result with ⟨-, sent⟩ | ⟨-, executed⟩
    · rw [sent]
      exact ⟨taken.sends _, running⟩
    · rw [executed]
      exact taken.executes env leader running

/-! ## The make-progress timer -/

/-- The retransmission returns if every record it looks for is stored. -/
theorem retransmit_returns (env : Env) (c : Comp) (room : c.highestSeenVs ≠ largestVs)
    (present : viewStampComp c.highestCommittedVs c.highestSeenVs < 0 →
      c.highestSeenVs.viewId = c.curView.viewId →
      ∀ vs, (vstol c.retransmitStart).toNat ≤ (vstol vs).toNat →
      (vstol vs).toNat ≤ (vstol c.highestSeenVs).toNat → c.stored vs ≠ none) :
    (retransmit env c).fault = c.fault := by
  rw [retransmit]
  split
  next behind =>
    have stored := present behind.1 behind.2
    have bound := vstol_lt_of_ne _ room
    rcases Nat.lt_or_ge (vstol c.highestSeenVs).toNat (vstol c.retransmitStart).toNat with
      empty | nonempty
    · rw [forInclusive_empty _ _ _ _ _ empty]
    · have loop := forInclusive_rule (fun _ (s : Comp) => s.db = c.db ∧ s.fault = c.fault)
        (fun _ => False) 64 (vstol c.retransmitStart).toNat (vstol c.highestSeenVs).toNat
        (retransmitStep env) c (by omega) ⟨rfl, rfl⟩ (by
          rintro index s low high ⟨db, fault⟩
          have key : (vstol (ltovs (UInt64.ofNat index))).toNat = index := by
            rw [vstol_ltovs, UInt64.toNat_ofNat', Nat.mod_eq_of_lt (by omega)]
          have there := stored (ltovs (UInt64.ofNat index)) (by omega) (by omega)
          rw [Comp.stored, vstol_ltovs] at there
          obtain ⟨value, found⟩ := Option.ne_none_iff_exists'.mp there
          simp only [retransmitStep, db, found]
          split
          next quorum =>
            exact ⟨fun s' same => LoopStep.next.inj same ▸ ⟨db, fault⟩, by simp⟩
          next short =>
            exact ⟨fun s' same => LoopStep.next.inj same ▸ ⟨db, fault⟩, by simp⟩)
      cases exit : forInclusive 64 (vstol c.retransmitStart).toNat (vstol c.highestSeenVs).toNat
          (retransmitStep env) c with
      | finished s => exact (loop.1 s exit).1.2
      | returned s => exact (loop.2.1 s exit).elim
      | wrapped s =>
        have largest := (loop.2.2 s exit).2.2
        omega
  next settled => rfl

/-- A leader resends requests above its commit point only. -/
theorem LeadsLog.retransmit_fault (leads : LeadsLog P c) (env : Env) :
    (retransmit env c).fault = c.fault := by
  refine retransmit_returns env c leads.seenRoom ?_
  intro behind inView vs low high
  rw [viewStampComp_neg, leads.committed] at behind
  have seen_key := vstol_toNat c.highestSeenVs
  have toCommit_key := vstol_toNat c.highestToCommitVs
  have seen_lt := c.highestSeenVs.reqId.toNat_lt
  rw [leads.sameView] at seen_key inView
  have start : (vstol c.retransmitStart).toNat = (vstol c.highestToCommitVs).toNat + 1 := by
    have order := viewStampComp_neg ⟨c.curView.viewId, 0⟩ c.highestCommittedVs
    rw [vstol_boundary, ← inView, leads.committed] at order
    simp only [retransmitStart, ← inView, leads.committed]
    split
    next below =>
      rw [vstol_toNat, vstol_toNat]
      simp only [viewStampInc, UInt32.toNat_add, UInt32.toNat_one]
      omega
    next reached =>
      -- no request of the view is committed yet
      rw [vstol_toNat, vstol_toNat]
      simp only [viewStampInc, UInt32.toNat_add, UInt32.toNat_one, UInt32.toNat_zero]
      omega
  obtain ⟨record, found, -⟩ := leads.records vs (by omega) high
  simp [found]

/-- The timer scans, resends what has no quorum and announces the commit point. -/
theorem LeadsLog.consensusMakeProgress (leads : LeadsLog P c) (env : Env)
    (leader : c.myRole = .leader) (running : c.fault = none) :
    ∃ n calls, c.QuoratePrefix n ∧
      consensusMakeProgress env c = { c.afterScan n with upCalls := calls } := by
  obtain ⟨n, reached, scanned⟩ := leads.leaderTryToExecute env
  have after := leads.afterScan reached
  have fault : (c.afterScan n).fault = none := running
  have resent := after.retransmit_fault env
  obtain ⟨sent, fault', -, result, -⟩ := retransmit_spec env (c.afterScan n)
  rw [result] at resent
  have none_raised : fault' = none := resent.trans fault
  refine ⟨n, (c.afterScan n).upCalls ++ sent ++ [(-1, (c.afterScan n).buildForceExec)], reached, ?_⟩
  rw [Comp.consensusMakeProgress, if_neg (not_not_intro leader), scanned]
  simp only [fault, Option.isSome_none, Bool.false_eq_true, if_false, result, none_raised, uc,
    buildForceExec]

end LeadsLog

end Comp

end LibeventPaxos
