import LibeventPaxos.QuorumAgreement

/-!
The order of a node's three stamps: committed, to be committed, seen. Execution restores it from
any state it starts in; what breaks it is a commit point announced beyond the highest seen stamp, a
request number that wraps, and a leader's scan that starts at the boundary of a view.
-/
namespace LibeventPaxos

open Lib

namespace Comp

/-- `highest_committed <= highest_to_commit <= highest_seen`. -/
def Ordered (c : Comp) : Prop :=
  viewStampComp c.highestCommittedVs c.highestToCommitVs ≤ 0 ∧
    viewStampComp c.highestToCommitVs c.highestSeenVs ≤ 0

theorem ordered_iff (c : Comp) :
    c.Ordered ↔ (vstol c.highestCommittedVs).toNat ≤ (vstol c.highestToCommitVs).toNat ∧
      (vstol c.highestToCommitVs).toNat ≤ (vstol c.highestSeenVs).toNat := by
  rw [Ordered, viewStampComp_nonpos, viewStampComp_nonpos]

/-! ## Execution -/

/-- The stamp with the largest key. -/
def largestVs : ViewStamp := ⟨0xFFFFFFFF, 0xFFFFFFFF⟩

/-- The scan of a leader starts at a request: not at the boundary of the view it steps into, and
not behind the largest key. -/
def ScansRequests (c : Comp) : Prop :=
  c.myRole = .leader →
    (c.highestToCommitVs.viewId ≠ c.highestSeenVs.viewId →
      c.stored ⟨c.highestSeenVs.viewId, 0⟩ = none) ∧
    c.highestToCommitVs ≠ largestVs

instance (c : Comp) : Decidable c.ScansRequests :=
  inferInstanceAs (Decidable (_ → (_ → _) ∧ _))

theorem vstol_lt_of_ne (vs : ViewStamp) (smaller : vs ≠ largestVs) :
    (vstol vs).toNat + 1 < 2 ^ 64 := by
  have view_lt := vs.viewId.toNat_lt
  have req_lt := vs.reqId.toNat_lt
  have different : vs.viewId.toNat ≠ 4294967295 ∨ vs.reqId.toNat ≠ 4294967295 := by
    by_contra both
    rw [not_or, not_not, not_not] at both
    exact smaller (ViewStamp.ext_toNat both.1 both.2)
  rw [vstol_toNat]
  omega

/-- The leader's scan inside one view moves the commit point up to the highest seen stamp. -/
private theorem ordered_scan (env : Env) (c : Comp) (ordered : c.Ordered)
    (same : c.highestSeenVs.viewId = c.highestToCommitVs.viewId)
    (room : c.highestToCommitVs ≠ largestVs) :
    (leaderExecFrom env c (vstol c.highestToCommitVs + 1)).Ordered := by
  obtain ⟨n, scans, result⟩ := leaderExecFrom_spec env c same (vstol_lt_of_ne _ room)
  obtain ⟨upto, below⟩ := (ordered_iff c).mp ordered
  have bound := scans.reqId_lt
  have inside := scans.room
  have seen_key := vstol_toNat c.highestSeenVs
  have toCommit_key := vstol_toNat c.highestToCommitVs
  rw [same] at seen_key
  have scanned : (c.afterScan n).Ordered := by
    have moved := vstol_stampAfter c.highestToCommitVs n bound
    rw [ordered_iff]
    constructor
    · by_cases flag : c.scanFlag = true
      · -- the committed stamp moves along
        have equal := (scanFlag_iff c).mp flag
        simp only [afterScan, flag, if_true, equal]
        exact Nat.le_refl _
      · simp only [afterScan, flag, Bool.false_eq_true, if_false, moved]
        omega
    · simp only [afterScan, moved]
      omega
  generalize leaderExecFrom env c (vstol c.highestToCommitVs + 1) = c' at result
  cases result with
  | all done => exact scanned
  | stopped short here => exact scanned
  | unstored none_yet short gap => exact ordered
  | overrun largest below done => exact scanned

theorem Ordered.leaderTryToExecute {c : Comp} (ordered : c.Ordered) (env : Env)
    (leader : c.myRole = .leader) (scans : c.ScansRequests) :
    (leaderTryToExecute env c).Ordered := by
  obtain ⟨gap, room⟩ := scans leader
  rw [Comp.leaderTryToExecute]
  by_cases same : c.highestSeenVs.viewId = c.highestToCommitVs.viewId
  · rw [if_neg (not_not_intro same)]
    exact ordered_scan env c ordered same room
  · rw [if_pos same]
    by_cases next : c.highestToCommitVs.viewId + 1 = c.highestSeenVs.viewId
    · rw [if_neg (not_not_intro next), next]
      have absent := gap (Ne.symm same)
      have reached : (vstol ⟨c.highestSeenVs.viewId, 0⟩).toNat ≤ (vstol c.highestSeenVs).toNat := by
        rw [vstol_boundary, vstol_toNat]
        exact Nat.le_add_right _ _
      generalize (⟨c.highestSeenVs.viewId, 0⟩ : ViewStamp) = first at absent reached ⊢
      have failed := leaderExecFrom_unstored env
        { c with highestToCommitVs := first, highestCommittedVs := first } first reached absent
      simp only [failed]
      rw [ordered_iff]
      exact ⟨Nat.le_refl _, reached⟩
    · rw [if_pos next]
      exact ordered

/-- The loop of `try_to_execute` leaves the commit point alone, and the committed stamp in its
view. -/
theorem execRange_stamps (c : Comp) (start stop : DbKey) :
    (execRange c start stop).highestToCommitVs = c.highestToCommitVs ∧
      (execRange c start stop).highestCommittedVs.viewId = c.highestCommittedVs.viewId := by
  have kept := forInclusive_invariant
    (fun s : Comp × Bool => s.1.highestToCommitVs = c.highestToCommitVs ∧
      s.1.highestCommittedVs.viewId = c.highestCommittedVs.viewId)
    64 start.toNat stop.toNat execStep (c, true) ⟨rfl, rfl⟩ (by
      rintro index ⟨c', execFlag⟩ s' before stepped
      simp only [execStep] at stepped
      split at stepped
      next missing =>
        rcases stepped with same | impossible
        · cases same
          exact before
        · cases impossible
      next value found =>
        cases execFlag with
        | false =>
          rcases stepped with same | impossible
          · cases same
            exact before
          · cases impossible
        | true =>
          rcases stepped with same | impossible
          · cases same
            exact before
          · cases impossible)
  simp only [execRange]
  generalize forInclusive 64 start.toNat _ _ (c, true) = exit at kept
  cases exit with
  | finished s => exact kept
  | returned s => exact kept
  | wrapped s => exact kept

/-- A committed stamp of an earlier view than the commit point's is below it. -/
private theorem vstol_lt_of_viewId_lt {a b : ViewStamp} (earlier : a.viewId.toNat < b.viewId.toNat) :
    (vstol a).toNat < (vstol b).toNat := by
  have a_lt := a.reqId.toNat_lt
  rw [vstol_toNat, vstol_toNat]
  omega

theorem Ordered.executeCommitted {c : Comp} (ordered : c.Ordered) :
    (executeCommitted c).Ordered := by
  obtain ⟨upto, below⟩ := (ordered_iff c).mp ordered
  have seen := (sameRecords_executeCommitted c).seen
  rw [ordered_iff, seen]
  simp only [Comp.executeCommitted]
  split
  next apart =>
    have views := viewId_le_of_vstol_le upto
    have earlier : c.highestCommittedVs.viewId.toNat < c.highestToCommitVs.viewId.toNat := by
      have different : c.highestCommittedVs.viewId.toNat ≠ c.highestToCommitVs.viewId.toNat :=
        fun same => apart (UInt32.toNat_inj.mp same)
      omega
    split
    next missing => exact ⟨upto, below⟩
    next boundary found =>
      obtain ⟨toCommit, committed⟩ := execRange_stamps c (vstol c.highestCommittedVs + 1)
        (vstol boundary.asBoundary)
      generalize execRange c (vstol c.highestCommittedVs + 1) _ = c' at toCommit committed
      have executed : (vstol c'.highestCommittedVs).toNat < (vstol c'.highestToCommitVs).toNat :=
        vstol_lt_of_viewId_lt (by rw [committed, toCommit]; exact earlier)
      rw [← toCommit] at below
      split
      next faulty => exact ⟨executed.le, below⟩
      next running =>
        split
        next reached =>
          -- the boundary of the next view is not above a stamp of that view or a later one
          refine ⟨?_, below⟩
          have room := c.highestToCommitVs.viewId.toNat_lt
          simp only [crossView, vstol_boundary, committed, toCommit]
          rw [UInt32.toNat_add, UInt32.toNat_one, vstol_toNat]
          omega
        next short => exact ⟨executed.le, below⟩
  next same =>
    rw [not_not] at same
    have kept := (execRange_stamps c (vstol c.highestCommittedVs + 1)
      (vstol c.highestToCommitVs)).1
    rw [kept]
    refine ⟨?_, below⟩
    rcases Nat.lt_or_ge ((vstol c.highestCommittedVs).toNat + 1) (2 ^ 64) with room | largest
    · obtain ⟨n, missing, reaches, -, result⟩ :=
        execRange_spec c c.highestToCommitVs same.symm room
      have inside := reaches.room
      have toCommit_lt := c.highestToCommitVs.reqId.toNat_lt
      have committed_lt := c.highestCommittedVs.reqId.toNat_lt
      have committed_key := vstol_toNat c.highestCommittedVs
      have toCommit_key := vstol_toNat c.highestToCommitVs
      rw [← same] at toCommit_key
      have moved := vstol_stampAfter c.highestCommittedVs n (by omega)
      have committed : (execRange c (vstol c.highestCommittedVs + 1)
          (vstol c.highestToCommitVs)).highestCommittedVs =
            stampAfter c.highestCommittedVs n := by
        rw [result]
        split <;> rfl
      rw [committed, moved]
      omega
    · -- the commit point is the largest stamp there is
      have bound := (vstol (execRange c (vstol c.highestCommittedVs + 1)
        (vstol c.highestToCommitVs)).highestCommittedVs).toNat_lt
      omega

theorem Ordered.tryToExecute {c : Comp} (ordered : c.Ordered) (env : Env)
    (scans : c.ScansRequests) : (tryToExecute env c).Ordered := by
  rw [Comp.tryToExecute]
  split
  next waiting => exact ordered
  next active =>
    have scanned : (if c.myRole = .leader then Comp.leaderTryToExecute env c else c).Ordered := by
      split
      next leader => exact ordered.leaderTryToExecute env leader scans
      next secondary => exact ordered
    generalize (if c.myRole = .leader then Comp.leaderTryToExecute env c else c) = c' at scanned
    simp only
    split
    next faulty => exact scanned
    next running => exact scanned.executeCommitted

/-! ## One call -/

/-- `handle_accept_req` does not ignore the request. -/
def TakesAcceptReq (c : Comp) (msgVs : ViewStamp) (nodeId : NodeId) : Prop :=
  c.curView.viewId ≤ msgVs.viewId ∧
    (msgVs.viewId = c.curView.viewId → nodeId = c.curView.leaderId) ∧
    viewStampComp c.highestCommittedVs msgVs < 0

instance (c : Comp) (msgVs : ViewStamp) (nodeId : NodeId) :
    Decidable (c.TakesAcceptReq msgVs nodeId) :=
  inferInstanceAs (Decidable (_ ∧ (_ → _) ∧ _))

/-- A commit point the component learns is not beyond what it has seen, the request that carries it
included. -/
def AnnouncesSeen (c : Comp) : CompEvent → Prop
  | .message (.acceptReq msgVs reqCanbeExed nodeId _) => c.TakesAcceptReq msgVs nodeId →
      viewStampComp reqCanbeExed c.highestSeenVs ≤ 0 ∨ viewStampComp reqCanbeExed msgVs ≤ 0
  | .message (.forceExec nodeId highestCommittedOp) => nodeId = c.curView.leaderId →
      viewStampComp highestCommittedOp c.highestSeenVs ≤ 0
  | _ => True

instance (c : Comp) : ∀ event, Decidable (c.AnnouncesSeen event)
  | .message (.acceptReq _ _ _ _) => inferInstanceAs (Decidable (_ → _ ∨ _))
  | .message (.forceExec _ _) => inferInstanceAs (Decidable (_ → _))
  | .message (.acceptAck _ _) => .isTrue trivial
  | .message (.missingReq _ _) => .isTrue trivial
  | .message (.missingAck _ _ _) => .isTrue trivial
  | .message (.forwardReq _ _) => .isTrue trivial
  | .submit _ => .isTrue trivial
  | .makeProgress => .isTrue trivial
  | .updateView _ => .isTrue trivial
  | .acceptorUpdateRecord _ _ => .isTrue trivial

/-- The component with what a message has stored, before it executes any request. -/
def executing (c : Comp) : Env × CompEvent → Comp
  | (env, .message (.acceptReq msgVs reqCanbeExed nodeId record)) =>
    storeAcceptReq env c msgVs reqCanbeExed nodeId record
  | (env, .message (.missingAck _ missingVs record)) =>
    if viewStampComp c.highestCommittedVs missingVs < 0 ∧ c.stored missingVs = none ∧ env.storeOk
    then { c with
      db := c.db.storeRecord (vstol missingVs) (.request (missingRecord env record)) }
    else c
  | (_, .message (.forceExec nodeId highestCommittedOp)) =>
    if nodeId = c.curView.leaderId ∧ viewStampComp c.highestToCommitVs highestCommittedOp < 0
    then { c with highestToCommitVs := highestCommittedOp }
    else c
  | _ => c

/-- The calls that leave the three stamps in order. -/
def KeepsOrder (c : Comp) (e : Env × CompEvent) : Prop :=
  c.AnnouncesSeen e.2 ∧ (c.taken e ≠ none → c.highestSeenVs.reqId ≠ 0xFFFFFFFF) ∧
    (c.executing e).ScansRequests

instance (c : Comp) (e : Env × CompEvent) : Decidable (c.KeepsOrder e) :=
  inferInstanceAs (Decidable (_ ∧ (_ → _) ∧ _))

section Ordered

variable {c : Comp}

theorem Ordered.handleAcceptReq (ordered : c.Ordered) (env : Env) (msgVs reqCanbeExed : ViewStamp)
    (nodeId : NodeId) (record : RequestRecord)
    (keeps : c.KeepsOrder (env, .message (.acceptReq msgVs reqCanbeExed nodeId record))) :
    (handleAcceptReq env c msgVs reqCanbeExed nodeId record).Ordered := by
  obtain ⟨announced, -, scans⟩ := keeps
  refine Ordered.tryToExecute ?_ env scans
  obtain ⟨upto, below⟩ := (ordered_iff c).mp ordered
  obtain ⟨seen, toCommit, noted, -, ⟨seenUp, seenMsg⟩, which, commitUp, -⟩ :=
    noteAcceptReq_cases c msgVs reqCanbeExed
  rcases storeAcceptReq_cases env c msgVs reqCanbeExed nodeId record with
    ⟨ignored, -⟩ | ⟨notOlder, known, fresh, result⟩
  · rwa [ignored]
  · have takes : c.TakesAcceptReq msgVs nodeId :=
      ⟨UInt32.le_iff_toNat_le.mpr notOlder, known, (viewStampComp_neg _ _).mpr fresh⟩
    have bounded : (vstol toCommit).toNat ≤ (vstol seen).toNat := by
      rcases which with rfl | rfl
      · omega
      · rcases announced takes with before | now
        · have order := (viewStampComp_nonpos _ _).mp before
          omega
        · have order := (viewStampComp_nonpos _ _).mp now
          omega
    rcases result with ⟨-, failed⟩ | ⟨-, stored⟩
    · rw [failed, noted, ordered_iff]
      exact ⟨upto.trans commitUp, bounded⟩
    · rw [stored, noted, ordered_iff]
      exact ⟨upto.trans commitUp, bounded⟩

/-- A store under a key that holds a record already leaves the scan where it was. -/
theorem Ordered.handleAcceptAck (ordered : c.Ordered) (env : Env) (msgVs : ViewStamp)
    (nodeId : NodeId) (scans : c.ScansRequests) :
    (handleAcceptAck env c msgVs nodeId).Ordered := by
  rw [Comp.handleAcceptAck]
  rcases storeAcceptAck_cases env c msgVs nodeId with ignored | ⟨-, -, -, value, found, stored⟩
  · rw [ignored]
    exact ordered.tryToExecute env scans
  · rw [stored]
    refine Ordered.tryToExecute ?_ env ?_
    · exact ordered
    · intro leader
      obtain ⟨gap, room⟩ := scans leader
      refine ⟨fun apart => ?_, room⟩
      have absent := gap apart
      rw [stored_storeRecord, if_neg ?_]
      · exact absent
      · intro same
        have here : (⟨c.highestSeenVs.viewId, 0⟩ : ViewStamp) = msgVs := same
        rw [← here, absent] at found
        cases found

theorem Ordered.handleMissingAck (ordered : c.Ordered) (env : Env) (nodeId : NodeId)
    (missingVs : ViewStamp) (record : RequestRecord)
    (keeps : c.KeepsOrder (env, .message (.missingAck nodeId missingVs record))) :
    (handleMissingAck env c missingVs record).Ordered := by
  have scans := keeps.2.2
  rcases handleMissingAck_cases env c missingVs record with
    ⟨ignored, -⟩ | ⟨fresh, absent, result⟩
  · rwa [ignored]
  · rw [← viewStampComp_neg] at fresh
    rcases result with ⟨fails, failed⟩ | ⟨stores, stored⟩
    · rw [failed]
      simp only [executing, fails, Bool.false_eq_true, and_false, if_false] at scans
      exact ordered.tryToExecute env scans
    · rw [stored]
      simp only [executing, fresh, absent, stores, and_self, if_true] at scans
      refine Ordered.tryToExecute ?_ env scans
      exact ordered

theorem Ordered.handleForceExec (ordered : c.Ordered) (env : Env) (nodeId : NodeId)
    (highestCommittedOp : ViewStamp)
    (keeps : c.KeepsOrder (env, .message (.forceExec nodeId highestCommittedOp))) :
    (handleForceExec env c nodeId highestCommittedOp).Ordered := by
  obtain ⟨announced, -, scans⟩ := keeps
  obtain ⟨upto, -⟩ := (ordered_iff c).mp ordered
  rcases handleForceExec_cases env c nodeId highestCommittedOp with
    ⟨ignored, -⟩ | ⟨known, further, moved⟩
  · rwa [ignored]
  · have seen := (viewStampComp_nonpos _ _).mp (announced known)
    rw [← viewStampComp_neg] at further
    simp only [executing, known, further, and_self, if_true] at scans
    rw [moved]
    refine Ordered.tryToExecute ?_ env scans
    rw [viewStampComp_neg] at further
    rw [ordered_iff]
    exact ⟨upto.trans further.le, seen⟩

/-- The next stamp of the view is above the highest seen one. -/
theorem nextStamp_toNat (room : c.highestSeenVs.reqId ≠ 0xFFFFFFFF) :
    (vstol c.getNextViewStamp).toNat = (vstol c.highestSeenVs).toNat + 1 := by
  have seen_lt := c.highestSeenVs.reqId.toNat_lt
  have largest : c.highestSeenVs.reqId.toNat ≠ 4294967295 := fun same =>
    room (UInt32.toNat_inj.mp same)
  simp only [getNextViewStamp, vstol_toNat, UInt32.toNat_add, UInt32.toNat_one]
  omega

theorem Ordered.leaderHandleSubmitReq (ordered : c.Ordered) (env : Env) (data : List UInt8)
    (room : env.storeOk = true → c.highestSeenVs.reqId ≠ 0xFFFFFFFF) (scans : c.ScansRequests) :
    (leaderHandleSubmitReq env c data).1.Ordered := by
  obtain ⟨upto, below⟩ := (ordered_iff c).mp ordered
  rcases leaderHandleSubmitReq_cases env c data with ⟨-, failed⟩ | ⟨stores, submitted, rfl, result⟩
  · rwa [failed]
  · have next := nextStamp_toNat (room stores)
    have taken : Ordered { c with
        db := c.db.storeRecord (vstol c.getNextViewStamp) (.request (submitRecord env c data))
        highestSeenVs := c.getNextViewStamp
        assigned := c.assigned ++ [(c.getNextViewStamp, data)] } := by
      rw [ordered_iff]
      refine ⟨upto, ?_⟩
      show (vstol c.highestToCommitVs).toNat ≤ (vstol c.getNextViewStamp).toNat
      rw [next]
      exact below.trans (Nat.le_succ _)
    rcases result with ⟨-, sent⟩ | ⟨-, executed⟩
    · rw [sent]
      exact taken
    · rw [executed]
      refine taken.tryToExecute env ?_
      intro leader
      obtain ⟨gap, small⟩ := scans leader
      refine ⟨fun apart => ?_, small⟩
      -- the request is not stored under the boundary of its view
      have notBoundary : (⟨c.highestSeenVs.viewId, 0⟩ : ViewStamp) ≠ c.getNextViewStamp := by
        intro same
        have key : (vstol ⟨c.highestSeenVs.viewId, 0⟩).toNat = (vstol c.getNextViewStamp).toNat :=
          congrArg (fun vs => (vstol vs).toNat) same
        rw [vstol_boundary, next, vstol_toNat] at key
        omega
      have absent := gap apart
      rw [stored] at absent
      rw [stored]
      simp only [getNextViewStamp] at notBoundary ⊢
      rw [Database.retrieveRecord_storeRecord, if_neg (mt (vstol_inj _ _).mp notBoundary), absent]

theorem Ordered.consensusMakeProgress (ordered : c.Ordered) (env : Env) (scans : c.ScansRequests) :
    (consensusMakeProgress env c).Ordered := by
  rw [Comp.consensusMakeProgress]
  split
  next secondary => exact ordered
  next leader =>
    have scanned := ordered.leaderTryToExecute env (not_not.mp leader) scans
    generalize Comp.leaderTryToExecute env c = c' at scanned
    simp only
    split
    next faulty => exact scanned
    next running =>
      obtain ⟨sent, fault, -, result, -⟩ := retransmit_spec env c'
      rw [result]
      split
      next faulty => exact scanned
      next running => exact scanned

theorem Ordered.updateView (ordered : c.Ordered) (env : Env) (newViewInfo : View)
    (running : c.fault = none) : (updateView env c newViewInfo).Ordered := by
  rcases updateView_cases env c newViewInfo running with
    ⟨ignored, -⟩ | ⟨-, ⟨-, failed⟩ | entered⟩
  · rwa [ignored]
  · rwa [failed]
  · rw [entered, ordered_iff]
    exact ⟨Nat.le_refl _, Nat.le_refl _⟩

theorem Ordered.handle (ordered : c.Ordered) (running : c.fault = none) (e : Env × CompEvent)
    (keeps : c.KeepsOrder e) : (handle c e).Ordered := by
  obtain ⟨env, event⟩ := e
  cases event with
  | message msg =>
    cases msg with
    | acceptReq msgVs reqCanbeExed nodeId record =>
      exact ordered.handleAcceptReq env msgVs reqCanbeExed nodeId record keeps
    | acceptAck msgVs nodeId => exact ordered.handleAcceptAck env msgVs nodeId keeps.2.2
    | missingReq nodeId missingVs =>
      simp only [Comp.handle, consensusHandleMsg, handleMissingReq]
      split
      next nothing => exact ordered
      next reply built => exact ordered
    | missingAck nodeId missingVs record =>
      exact ordered.handleMissingAck env nodeId missingVs record keeps
    | forceExec nodeId highestCommittedOp =>
      exact ordered.handleForceExec env nodeId highestCommittedOp keeps
    | forwardReq nodeId data =>
      simp only [Comp.handle, consensusHandleMsg, handleForwardReq]
      split
      next secondary => exact ordered
      next leader =>
        refine ordered.leaderHandleSubmitReq env data (fun stores => keeps.2.1 ?_) keeps.2.2
        simp [taken, not_not.mp leader, stores]
  | submit data =>
    simp only [Comp.handle, consensusSubmitRequest]
    split
    next leader =>
      refine ordered.leaderHandleSubmitReq env data (fun stores => keeps.2.1 ?_) keeps.2.2
      simp [taken, leader, stores]
    next secondary => exact ordered
  | makeProgress => exact ordered.consensusMakeProgress env keeps.2.2
  | updateView newViewInfo => exact ordered.updateView env newViewInfo running
  | acceptorUpdateRecord nextView record => exact ordered

end Ordered

end Comp

namespace Group

variable {n : ℕ}

def keepsOrder (g : Group n) (e : GroupEvent n) : Prop := (g e.1).KeepsOrder e.2

instance (g : Group n) (e : GroupEvent n) : Decidable (keepsOrder g e) :=
  inferInstanceAs (Decidable ((g e.1).KeepsOrder e.2))

/-- In every run whose calls announce no commit point beyond the highest seen stamp, wrap no request
number and let no leader scan a boundary, the stamps of every node are in order. -/
theorem stamps_ordered (n : ℕ) (seed : Option (Fin n)) (g : Group n)
    (reached : (machine n seed).Reaches keepsOrder g) (i : Fin n) : (g i).Ordered := by
  revert i
  apply reached.invariant
  · rintro g rfl i
    exact ⟨Int.le_refl 0, Int.le_refl 0⟩
  · intro g e ordered keeps enabled
    exact act_forall g e (fun _ c => c.Ordered) ordered
      ((ordered e.1).handle enabled.1 e.2 keeps)

theorem first_request_ordered : (afterFirst 0).Ordered := by
  refine stamps_ordered 3 (some 0) afterFirst ⟨start 3 (some 0), rfl, ?_⟩ 0
  apply Machine.Accepts.run
  decide

/-- The seed announces what it has delivered, and node 2 has not seen the request. -/
def announced : List (GroupEvent 3) :=
  firstRequest ++ [(0, Comp.quietEnv, .makeProgress),
    (2, Comp.quietEnv, .message (.forceExec 0 ⟨1, 1⟩))]

theorem unseen_commit_point : ¬ ∀ (n : ℕ) (seed : Option (Fin n)) (g : Group n),
    (machine n seed).Reaches Machine.anything g → ∀ i, (g i).Ordered := by
  intro claim
  have run : (machine 3 (some 0)).Run Machine.anything (start 3 (some 0))
      (announced.foldl act (start 3 (some 0))) := by
    apply Machine.Accepts.run
    decide
  have ordered := claim 3 (some 0) _ ⟨_, rfl, run⟩ 2
  exact absurd ordered.2 (by decide)

end Group

end LibeventPaxos
