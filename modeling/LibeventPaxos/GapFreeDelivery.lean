import LibeventPaxos.DeliveryOrder

/-!
In which order a component delivers over a whole run, also when it runs ahead of its own view: a
follower crosses into a later view over the boundary record it was sent, and a leader steps into
the view of a request that another leader has numbered.
-/
namespace LibeventPaxos

open Lib

namespace Comp

/-! ## The condition -/

/-- A leader that steps into the view after the one it commits in finds no quorum under request 0,
from which its scan starts there. -/
def StepsClear (env : Env) (c : Comp) : Prop :=
  c.highestToCommitVs.viewId + 1 = c.highestSeenVs.viewId →
    ¬ QuorumAt env c ⟨c.highestSeenVs.viewId, 0⟩

/-- No call takes a boundary for a request, and no view change moves the committed stamp back. A
leader that another leader's request takes into a later view hears from it of a commit point in
that view, or keeps no record with a quorum under request 0 there. -/
def StaysAhead (c : Comp) : Env × CompEvent → Prop
  | (env, .message (.acceptReq msgVs reqCanbeExed _ _)) =>
    c.myRole = .leader → c.curView.viewId ≠ 0 →
      c.highestSeenVs.viewId.toNat < msgVs.viewId.toNat →
        reqCanbeExed.viewId = msgVs.viewId ∨
          (msgVs.reqId ≠ 0 ∧ ¬ QuorumAt env c ⟨msgVs.viewId, 0⟩)
  | (env, .makeProgress) => c.myRole = .leader → StepsClear env c
  | (_, .updateView newViewInfo) => c.curView.viewId + 1 = newViewInfo.viewId →
      (vstol c.highestCommittedVs).toNat ≤ (vstol ⟨newViewInfo.viewId, 0⟩).toNat
  | _ => True

instance (env : Env) (c : Comp) (vs : ViewStamp) : Decidable (QuorumAt env c vs) :=
  inferInstanceAs (Decidable (∃ value, value ∈ c.stored vs ∧
    reachedQuorum (value.asRequest (env.junk (vstol vs))) c.groupSize = true))

instance (env : Env) (c : Comp) : Decidable (StepsClear env c) :=
  inferInstanceAs (Decidable (_ → ¬ QuorumAt env c _))

instance (c : Comp) : ∀ e, Decidable (c.StaysAhead e)
  | (env, .message (.acceptReq msgVs _ _ _)) => inferInstanceAs (Decidable
      (_ → _ → _ < _ → _ = _ ∨ (_ ≠ _ ∧ ¬ QuorumAt env c ⟨msgVs.viewId, 0⟩)))
  | (_, .message (.missingAck _ _ _)) => .isTrue trivial
  | (_, .message (.acceptAck _ _)) => .isTrue trivial
  | (_, .message (.missingReq _ _)) => .isTrue trivial
  | (_, .message (.forceExec _ _)) => .isTrue trivial
  | (_, .message (.forwardReq _ _)) => .isTrue trivial
  | (_, .submit _) => .isTrue trivial
  | (env, .makeProgress) => inferInstanceAs (Decidable (_ → StepsClear env c))
  | (_, .updateView _) => inferInstanceAs (Decidable (_ → _ ≤ _))
  | (_, .acceptorUpdateRecord _ _) => .isTrue trivial

/-! ## The invariant -/

/-- A running component that stands behind its last delivery and stays clear of the largest
number of each view. -/
structure Sequenced (c : Comp) : Prop where
  running : c.fault = none
  numbered : Numbered c.deliveredAt c.highestCommittedVs.viewId.toNat
    c.highestCommittedVs.reqId.toNat
  inView : 1 ≤ c.highestCommittedVs.viewId.toNat
  seenView : 1 ≤ c.highestSeenVs.viewId.toNat
  toCommit : (vstol c.highestCommittedVs).toNat ≤ (vstol c.highestToCommitVs).toNat
  committedRoom : c.highestCommittedVs.reqId.toNat < 4294967295
  toCommitRoom : c.highestToCommitVs.reqId.toNat < 4294967295
  seenRoom : c.highestSeenVs.reqId.toNat < 4294967295
  last : ∀ v : UInt32, v ≠ 0 → c.stored ⟨v, 4294967295⟩ = none

/-- A leader commits in the view of the highest request it has seen. -/
def Level (c : Comp) : Prop :=
  c.curView.viewId ≠ 0 → c.myRole = .leader → c.highestSeenVs.viewId = c.highestToCommitVs.viewId

/-- What holds after every call, also after one that does not return. -/
structure SequenceInv (c : Comp) : Prop where
  delivered : ∃ epoch count, Numbered c.deliveredAt epoch count
  sequenced : c.fault = none → c.Sequenced ∧ c.Level

variable {c : Comp}

theorem Sequenced.inv (sequenced : c.Sequenced) (level : c.Level) : c.SequenceInv :=
  ⟨⟨_, _, sequenced.numbered⟩, fun _ => ⟨sequenced, level⟩⟩

theorem Sequenced.fail (sequenced : c.Sequenced) (fault : Fault) : (c.fail fault).SequenceInv :=
  ⟨⟨_, _, sequenced.numbered⟩, fun none => by simp [Comp.fail] at none⟩

theorem Sequenced.viewId_le (sequenced : c.Sequenced) :
    c.highestCommittedVs.viewId.toNat ≤ c.highestToCommitVs.viewId.toNat :=
  viewId_le_of_vstol_le sequenced.toCommit

/-- A leader that commits in the view of the highest request or beyond it does not step. -/
theorem stepsClear_of_le (env : Env) (positive : 1 ≤ c.highestSeenVs.viewId.toNat)
    (reached : c.highestSeenVs.viewId.toNat ≤ c.highestToCommitVs.viewId.toNat) :
    StepsClear env c := by
  intro steps
  have view_lt := c.highestToCommitVs.viewId.toNat_lt
  have sum := congrArg UInt32.toNat steps
  rw [UInt32.toNat_add, UInt32.toNat_one] at sum
  omega

/-- The request that takes a leader into a later view is not stored under the boundary. -/
theorem stepsClear_of_store {env : Env} {p : Comp} (vs : ViewStamp) (value : DbValue)
    (request : vs.reqId ≠ 0) (unquorate : ¬ QuorumAt env c ⟨vs.viewId, 0⟩)
    (seenIs : p.highestSeenVs = vs) (db : p.db = c.db.storeRecord (vstol vs) value)
    (size : p.groupSize = c.groupSize) : StepsClear env p := by
  rintro - ⟨record, found, quorum⟩
  have kept : p.stored ⟨vs.viewId, 0⟩ = c.stored ⟨vs.viewId, 0⟩ := by
    rw [stored, db, Database.retrieveRecord_storeRecord, if_neg, stored]
    exact fun same => request (congrArg ViewStamp.reqId ((vstol_inj _ _).mp same)).symm
  rw [seenIs] at found quorum
  exact unquorate ⟨record, kept ▸ found, size ▸ quorum⟩

theorem Level.scans (level : c.Level) (sequenced : c.Sequenced) (env : Env)
    (active : c.curView.viewId ≠ 0) (leader : c.myRole = .leader) : StepsClear env c :=
  stepsClear_of_le env sequenced.seenView
    (le_of_eq (congrArg UInt32.toNat (level active leader)))

/-! ## Changes that deliver nothing -/

theorem Sequenced.logs (sequenced : c.Sequenced) (upCalls : List (Int × ConsensusMsg))
    (assigned : List (ViewStamp × List UInt8)) :
    ({ c with upCalls := upCalls, assigned := assigned } : Comp).Sequenced :=
  { sequenced with }

theorem Sequenced.stamps (sequenced : c.Sequenced) (seen toCommit : ViewStamp)
    (seenUp : (vstol c.highestSeenVs).toNat ≤ (vstol seen).toNat)
    (toCommitUp : (vstol c.highestToCommitVs).toNat ≤ (vstol toCommit).toNat)
    (seenRoom : seen.reqId.toNat < 4294967295)
    (toCommitRoom : toCommit.reqId.toNat < 4294967295) :
    ({ c with highestSeenVs := seen, highestToCommitVs := toCommit } : Comp).Sequenced :=
  { sequenced with
    seenView := sequenced.seenView.trans (viewId_le_of_vstol_le seenUp)
    toCommit := sequenced.toCommit.trans toCommitUp
    toCommitRoom := toCommitRoom
    seenRoom := seenRoom }

theorem Sequenced.store (sequenced : c.Sequenced) (vs : ViewStamp) (value : DbValue)
    (room : vs.viewId = 0 ∨ vs.reqId.toNat < 4294967295) :
    ({ c with db := c.db.storeRecord (vstol vs) value } : Comp).Sequenced := by
  refine { sequenced with last := ?_ }
  intro v positive
  rw [stored_storeRecord, if_neg, sequenced.last v positive]
  rintro rfl
  rcases room with zero | below
  · exact positive zero
  · exact absurd below (by simp)

/-! ## Execution -/

theorem Sequenced.afterExec (sequenced : c.Sequenced) (n : ℕ)
    (missing : List (Int × ConsensusMsg))
    (room : c.highestCommittedVs.reqId.toNat + n < 4294967295)
    (reached : (vstol c.highestCommittedVs).toNat + n ≤ (vstol c.highestToCommitVs).toNat) :
    (c.afterExec n missing).Sequenced := by
  have moved := stampAfter_reqId c.highestCommittedVs n (by omega)
  refine { sequenced with numbered := ?_, toCommit := ?_, committedRoom := ?_ }
  · show Numbered _ _ (stampAfter c.highestCommittedVs n).reqId.toNat
    rw [moved]
    exact numbered_deliveries n (by omega) rfl rfl sequenced.numbered
  · show (vstol (stampAfter c.highestCommittedVs n)).toNat ≤ _
    rw [vstol_stampAfter _ _ (by omega)]
    exact reached
  · show (stampAfter c.highestCommittedVs n).reqId.toNat < 4294967295
    omega

/-- The committed stamp enters a later view, which it does not overtake the commit point in. -/
theorem Sequenced.enter (sequenced : c.Sequenced) (view : UInt32)
    (later : c.highestCommittedVs.viewId.toNat < view.toNat)
    (reached : view.toNat ≤ c.highestToCommitVs.viewId.toNat) :
    ({ c with highestCommittedVs := ⟨view, 0⟩ } : Comp).Sequenced := by
  refine { sequenced with
    numbered := sequenced.numbered.enter later
    inView := ?_
    toCommit := ?_
    committedRoom := by simp }
  · exact sequenced.inView.trans later.le
  · show (vstol ⟨view, 0⟩).toNat ≤ (vstol c.highestToCommitVs).toNat
    rw [vstol_boundary, vstol_toNat]
    omega

/-- The loop of `try_to_execute` up to the boundary another node has sent. -/
theorem Sequenced.crossing (sequenced : c.Sequenced) (level : c.Level) (boundary : ViewStamp)
    (later : c.highestCommittedVs.viewId.toNat < c.highestToCommitVs.viewId.toNat) :
    (let c' := execRange c (vstol c.highestCommittedVs + 1) (vstol boundary)
      if c'.fault.isSome then c'
      else if vstol c'.highestCommittedVs = vstol boundary then
        { c' with highestCommittedVs := crossView c'.highestCommittedVs }
      else c').SequenceInv := by
  have positive : c.highestCommittedVs.viewId ≠ 0 := by
    intro zero
    have inView := sequenced.inView
    rw [zero] at inView
    exact absurd inView (by simp)
  obtain ⟨n, missing, room, result⟩ := execRange_inView c boundary sequenced.committedRoom
    (sequenced.last _ positive)
  have executed : (c.afterExec n missing).Sequenced := by
    refine sequenced.afterExec n missing room ?_
    rw [vstol_toNat, vstol_toNat]
    omega
  simp only
  rcases result with returns | overruns
  · rw [returns, if_neg (by simp [executed.running])]
    split
    next complete =>
      have view_lt := c.highestToCommitVs.viewId.toNat_lt
      have next : (c.highestCommittedVs.viewId + 1).toNat =
          c.highestCommittedVs.viewId.toNat + 1 := by
        rw [UInt32.toNat_add, UInt32.toNat_one]
        omega
      refine (executed.enter (c.highestCommittedVs.viewId + 1) ?_ ?_).inv level
      · show c.highestCommittedVs.viewId.toNat < _
        omega
      · show _ ≤ c.highestToCommitVs.viewId.toNat
        omega
    next partly => exact executed.inv level
  · rw [overruns]
    exact executed.fail .counterWrapped

theorem Sequenced.executeCommitted (sequenced : c.Sequenced) (level : c.Level) :
    (executeCommitted c).SequenceInv := by
  have order := sequenced.toCommit
  simp only [Comp.executeCommitted]
  by_cases same : c.highestCommittedVs.viewId = c.highestToCommitVs.viewId
  · rw [if_neg (not_not_intro same)]
    have largest := vstol_lt _ sequenced.toCommitRoom
    obtain ⟨n, missing, reaches, -, result⟩ :=
      execRange_spec c c.highestToCommitVs same.symm (vstol_lt _ sequenced.committedRoom)
    rw [result, if_neg (by omega)]
    have bound := reaches.room
    have committedRoom := sequenced.committedRoom
    have toCommitRoom := sequenced.toCommitRoom
    rw [vstol_toNat, vstol_toNat, same] at order
    have upto : c.highestCommittedVs.reqId.toNat + n ≤ c.highestToCommitVs.reqId.toNat := by
      omega
    refine (sequenced.afterExec n missing (by omega) ?_).inv level
    rw [vstol_toNat, vstol_toNat, same, Nat.add_assoc]
    exact Nat.add_le_add_left upto _
  · rw [if_pos same]
    have later : c.highestCommittedVs.viewId.toNat < c.highestToCommitVs.viewId.toNat :=
      lt_of_le_of_ne sequenced.viewId_le fun equal => same (UInt32.toNat_inj.mp equal)
    cases c.db.retrieveRecord (vstol ⟨c.highestCommittedVs.viewId + 1, 0⟩) with
    | none => exact (sequenced.logs _ c.assigned).inv level
    | some boundaryRecord => exact sequenced.crossing level boundaryRecord.asBoundary later

/-- A scan that returns leaves the leader level. -/
structure ScanInv (c : Comp) : Prop where
  delivered : ∃ epoch count, Numbered c.deliveredAt epoch count
  sequenced : c.fault = none → c.Sequenced ∧
    c.highestSeenVs.viewId = c.highestToCommitVs.viewId

theorem ScanInv.fail (delivered : ∃ epoch count, Numbered c.deliveredAt epoch count)
    (fault : Fault) : (c.fail fault).ScanInv :=
  ⟨delivered, fun none => by simp [Comp.fail] at none⟩

theorem Sequenced.afterScan {env : Env} {k : ℕ} (sequenced : c.Sequenced)
    (scans : ScansTo env c k) : (c.afterScan k).Sequenced := by
  have bound := scans.reqId_lt
  have room := scans.room
  have seenRoom := sequenced.seenRoom
  have toCommitRoom := sequenced.toCommitRoom
  have moved := stampAfter_reqId c.highestToCommitVs k bound
  have key := vstol_stampAfter c.highestToCommitVs k bound
  by_cases flag : c.scanFlag = true
  · have same := (scanFlag_iff c).mp flag
    have equal : c.afterScan k = { c.afterExec k [] with
        highestToCommitVs := stampAfter c.highestToCommitVs k } := by
      simp [Comp.afterScan, Comp.afterExec, flag]
    rw [equal]
    have ahead : ({ c with
        highestToCommitVs := stampAfter c.highestToCommitVs k } : Comp).Sequenced :=
      sequenced.stamps c.highestSeenVs _ le_rfl (by omega) seenRoom (by omega)
    refine ahead.afterExec k [] ?_ ?_
    · rw [same]
      omega
    · show (vstol c.highestCommittedVs).toNat + k ≤ (vstol (stampAfter _ k)).toNat
      rw [key, same]
  · have equal : c.afterScan k = { c with
        highestToCommitVs := stampAfter c.highestToCommitVs k } := by
      simp [Comp.afterScan, flag]
    rw [equal]
    exact sequenced.stamps c.highestSeenVs _ le_rfl (by omega) seenRoom (by omega)

/-- The leader's scan, with its step into the next view. -/
theorem Sequenced.leaderTryToExecute (sequenced : c.Sequenced) (env : Env)
    (scans : StepsClear env c) : (leaderTryToExecute env c).ScanInv := by
  have numbered : ∃ epoch count, Numbered c.deliveredAt epoch count :=
    ⟨_, _, sequenced.numbered⟩
  rw [Comp.leaderTryToExecute]
  by_cases same : c.highestSeenVs.viewId = c.highestToCommitVs.viewId
  · rw [if_neg (not_not_intro same)]
    obtain ⟨k, scansTo, result⟩ :=
      leaderExecFrom_spec env c same (vstol_lt _ sequenced.toCommitRoom)
    have scanned := sequenced.afterScan scansTo
    generalize leaderExecFrom env c (vstol c.highestToCommitVs + 1) = c' at result
    cases result with
    | all done => exact ⟨⟨_, _, scanned.numbered⟩, fun _ => ⟨scanned, same⟩⟩
    | stopped short here => exact ⟨⟨_, _, scanned.numbered⟩, fun _ => ⟨scanned, same⟩⟩
    | unstored none_yet short gap => exact .fail numbered .assertion
    | overrun largest below done => exact .fail ⟨_, _, scanned.numbered⟩ .counterWrapped
  · rw [if_pos same]
    by_cases next : c.highestToCommitVs.viewId + 1 = c.highestSeenVs.viewId
    · rw [if_neg (not_not_intro next)]
      have noQuorum := scans next
      have later : c.highestToCommitVs.viewId.toNat < c.highestSeenVs.viewId.toNat := by
        have positive := sequenced.seenView
        have view_lt := c.highestToCommitVs.viewId.toNat_lt
        have sum := congrArg UInt32.toNat next
        rw [UInt32.toNat_add, UInt32.toNat_one] at sum
        omega
      simp only [next]
      have reached : (vstol ⟨c.highestSeenVs.viewId, 0⟩).toNat ≤
          (vstol c.highestSeenVs).toNat := by
        rw [vstol_boundary, vstol_toNat]
        exact Nat.le_add_right _ _
      -- the commit point first, so that the committed stamp follows it into the view
      have stepped := (sequenced.stamps c.highestSeenVs ⟨c.highestSeenVs.viewId, 0⟩ le_rfl
        (by rw [vstol_boundary, vstol_toNat]; have := c.highestToCommitVs.reqId.toNat_lt; omega)
        sequenced.seenRoom (by simp)).enter c.highestSeenVs.viewId
          (sequenced.viewId_le.trans_lt later) le_rfl
      cases found : c.stored ⟨c.highestSeenVs.viewId, 0⟩ with
      | none =>
        rw [leaderExecFrom_unstored env { c with
          highestToCommitVs := ⟨c.highestSeenVs.viewId, 0⟩
          highestCommittedVs := ⟨c.highestSeenVs.viewId, 0⟩ } _ reached found]
        exact .fail ⟨_, _, stepped.numbered⟩ .assertion
      | some value =>
        have short : NoQuorumAt env c ⟨c.highestSeenVs.viewId, 0⟩ := by
          refine ⟨value, found, Bool.eq_false_iff.mpr fun quorum => ?_⟩
          exact noQuorum ⟨value, found, quorum⟩
        rw [leaderExecFrom_noQuorum env { c with
          highestToCommitVs := ⟨c.highestSeenVs.viewId, 0⟩
          highestCommittedVs := ⟨c.highestSeenVs.viewId, 0⟩ } _ reached short]
        exact ⟨⟨_, _, stepped.numbered⟩, fun _ => ⟨stepped, rfl⟩⟩
    · rw [if_pos next]
      exact .fail numbered .assertion

theorem Sequenced.tryToExecute (sequenced : c.Sequenced) (env : Env)
    (scans : c.curView.viewId ≠ 0 → c.myRole = .leader → StepsClear env c) :
    (tryToExecute env c).SequenceInv := by
  rw [Comp.tryToExecute]
  by_cases waiting : c.curView.viewId = 0
  · rw [if_pos waiting]
    exact sequenced.inv fun active => absurd waiting active
  · rw [if_neg waiting]
    by_cases leader : c.myRole = .leader
    · simp only [leader, if_true]
      have scanned := sequenced.leaderTryToExecute env (scans waiting leader)
      generalize Comp.leaderTryToExecute env c = c' at scanned
      cases fault : c'.fault with
      | some fault =>
        simp only [Option.isSome_some, if_true]
        exact ⟨scanned.delivered, fun none => by simp [fault] at none⟩
      | none =>
        obtain ⟨sequenced', level⟩ := scanned.sequenced fault
        simp only [Option.isSome_none, Bool.false_eq_true, if_false]
        exact sequenced'.executeCommitted fun _ _ => level
    · simp only [leader, if_false, sequenced.running, Option.isSome_none, Bool.false_eq_true]
      exact sequenced.executeCommitted fun _ leads => absurd leads leader

theorem Sequenced.execute (sequenced : c.Sequenced) (level : c.Level) (env : Env) :
    (Comp.tryToExecute env c).SequenceInv :=
  sequenced.tryToExecute env (level.scans sequenced env)

/-! ## The handlers -/

theorem Sequenced.handleAcceptReq (sequenced : c.Sequenced) (level : c.Level) (env : Env)
    (msgVs reqCanbeExed : ViewStamp) (nodeId : NodeId) (origin : RequestRecord)
    (room : msgVs.reqId.toNat < 4294967295) (toCommitRoom : reqCanbeExed.reqId.toNat < 4294967295)
    (ahead : StaysAhead c (env, .message (.acceptReq msgVs reqCanbeExed nodeId origin))) :
    (handleAcceptReq env c msgVs reqCanbeExed nodeId origin).SequenceInv := by
  rw [Comp.handleAcceptReq]
  obtain ⟨seen, toCommit, noted, seenIs, ⟨seenUp, -⟩, toCommitIs, toCommitUp, canbeUp⟩ :=
    noteAcceptReq_cases c msgVs reqCanbeExed
  have moved := sequenced.stamps seen toCommit seenUp toCommitUp
    (by rcases seenIs with rfl | rfl; exacts [sequenced.seenRoom, room])
    (by rcases toCommitIs with rfl | rfl; exacts [sequenced.toCommitRoom, toCommitRoom])
  -- the leader steps only if the request takes it past every commit point it knows of
  have steps : c.curView.viewId ≠ 0 → c.myRole = .leader →
      seen.viewId.toNat ≤ toCommit.viewId.toNat ∨
        (seen = msgVs ∧ msgVs.reqId ≠ 0 ∧ ¬ QuorumAt env c ⟨seen.viewId, 0⟩) := by
    intro active leader
    have same := congrArg UInt32.toNat (level active leader)
    have further := viewId_le_of_vstol_le toCommitUp
    rcases seenIs with rfl | rfl
    · exact .inl (by omega)
    · rcases Nat.lt_or_ge c.highestSeenVs.viewId.toNat seen.viewId.toNat with later | reached
      · rcases ahead leader active later with stamped | unquorate
        · exact .inl (stamped ▸ viewId_le_of_vstol_le canbeUp)
        · exact .inr ⟨rfl, unquorate⟩
      · exact .inl (by omega)
  rcases storeAcceptReq_cases env c msgVs reqCanbeExed nodeId origin with
    ⟨ignored, -⟩ | ⟨-, -, -, ⟨-, failed⟩ | ⟨-, stored⟩⟩
  · rw [ignored]
    exact sequenced.execute level env
  · rw [failed, noted]
    refine moved.tryToExecute env fun active leader => ?_
    rcases steps active leader with reached | ⟨-, -, unquorate⟩
    · exact stepsClear_of_le env moved.seenView reached
    · exact fun _ => unquorate
  · rw [stored, noted]
    have kept := (moved.store msgVs (.request (acceptedRecord env origin)) (.inr room)).logs
      (c.upCalls ++ [(nodeId, .acceptAck msgVs c.nodeId)]) c.assigned
    refine kept.tryToExecute env fun active leader => ?_
    rcases steps active leader with reached | ⟨rfl, request, unquorate⟩
    · exact stepsClear_of_le env moved.seenView reached
    · exact stepsClear_of_store seen (.request (acceptedRecord env origin)) request unquorate
        rfl rfl rfl

theorem Sequenced.handleAcceptAck (sequenced : c.Sequenced) (level : c.Level) (env : Env)
    (msgVs : ViewStamp) (nodeId : NodeId) (room : msgVs.reqId.toNat < 4294967295) :
    (handleAcceptAck env c msgVs nodeId).SequenceInv := by
  rw [Comp.handleAcceptAck]
  rcases storeAcceptAck_cases env c msgVs nodeId with ignored | ⟨-, -, -, value, -, stored⟩
  · rw [ignored]
    exact sequenced.execute level env
  · rw [stored]
    exact (sequenced.store msgVs _ (.inr room)).execute level env

theorem Sequenced.handleMissingReq (sequenced : c.Sequenced) (level : c.Level) (env : Env)
    (nodeId : NodeId) (missingVs : ViewStamp) :
    (handleMissingReq env c nodeId missingVs).SequenceInv := by
  rcases handleMissingReq_cases env c nodeId missingVs with ignored | ⟨value, -, sent⟩
  · rw [ignored]
    exact sequenced.inv level
  · rw [sent]
    exact (sequenced.logs _ c.assigned).inv level

theorem Sequenced.handleMissingAck (sequenced : c.Sequenced) (level : c.Level) (env : Env)
    (missingVs : ViewStamp) (origin : RequestRecord) (room : missingVs.reqId.toNat < 4294967295) :
    (handleMissingAck env c missingVs origin).SequenceInv := by
  rcases handleMissingAck_cases env c missingVs origin with
    ⟨ignored, -⟩ | ⟨-, -, ⟨-, failed⟩ | ⟨-, stored⟩⟩
  · rw [ignored]
    exact sequenced.inv level
  · rw [failed]
    exact sequenced.execute level env
  · rw [stored]
    exact (sequenced.store missingVs _ (.inr room)).execute level env

theorem Sequenced.handleForceExec (sequenced : c.Sequenced) (level : c.Level) (env : Env)
    (nodeId : NodeId) (highestCommittedOp : ViewStamp)
    (room : highestCommittedOp.reqId.toNat < 4294967295) :
    (handleForceExec env c nodeId highestCommittedOp).SequenceInv := by
  rcases handleForceExec_cases env c nodeId highestCommittedOp with
    ⟨ignored, -⟩ | ⟨-, further, moved⟩
  · rw [ignored]
    exact sequenced.inv level
  · rw [moved]
    refine (sequenced.stamps c.highestSeenVs highestCommittedOp le_rfl further.le
      sequenced.seenRoom room).tryToExecute env fun active leader => ?_
    -- a leader that is told of a later commit point fails its assertion, it does not step
    refine stepsClear_of_le env sequenced.seenView ?_
    rw [level active leader]
    exact viewId_le_of_vstol_le further.le

theorem Sequenced.leaderHandleSubmitReq (sequenced : c.Sequenced) (level : c.Level) (env : Env)
    (data : List UInt8) (room : c.getNextViewStamp.reqId.toNat < 4294967295) :
    (leaderHandleSubmitReq env c data).1.SequenceInv := by
  have seenRoom := sequenced.seenRoom
  have reqId : c.getNextViewStamp.reqId.toNat = c.highestSeenVs.reqId.toNat + 1 := by
    simp only [getNextViewStamp, UInt32.toNat_add, UInt32.toNat_one]
    omega
  have seenUp : (vstol c.highestSeenVs).toNat ≤ (vstol c.getNextViewStamp).toNat := by
    rw [vstol_toNat, vstol_toNat, reqId]
    simp only [getNextViewStamp]
    omega
  rcases leaderHandleSubmitReq_cases env c data with ⟨-, failed⟩ | ⟨-, submitted, rfl, result⟩
  · rw [failed]
    exact sequenced.inv level
  · have next := ((sequenced.stamps c.getNextViewStamp c.highestToCommitVs seenUp le_rfl room
      sequenced.toCommitRoom).store c.getNextViewStamp (.request (submitRecord env c data))
      (.inr room)).logs c.upCalls (c.assigned ++ [(c.getNextViewStamp, data)])
    rcases result with ⟨-, sent⟩ | ⟨-, executed⟩
    · rw [sent]
      exact (next.logs _ _).inv level
    · rw [executed]
      exact next.execute level env

theorem Sequenced.consensusMakeProgress (sequenced : c.Sequenced) (level : c.Level) (env : Env)
    (ahead : StaysAhead c (env, .makeProgress)) : (consensusMakeProgress env c).SequenceInv := by
  simp only [Comp.consensusMakeProgress]
  split
  next secondary => exact sequenced.inv level
  next leader =>
    have scanned := sequenced.leaderTryToExecute env (ahead (not_not.mp leader))
    generalize Comp.leaderTryToExecute env c = c' at scanned
    cases fault : c'.fault with
    | some raised =>
      simp only [Option.isSome_some, if_true]
      exact ⟨scanned.delivered, fun none => by simp [fault] at none⟩
    | none =>
      obtain ⟨sequenced', same⟩ := scanned.sequenced fault
      obtain ⟨sent, raised, -, result, settled⟩ := retransmit_spec env c'
      simp only [result, Option.isSome_none, Bool.false_eq_true, if_false]
      have sends := sequenced'.logs (c'.upCalls ++ sent) c'.assigned
      rcases settled with rfl | ⟨raised, rfl⟩
      · simp only [fault, Option.isSome_none, Bool.false_eq_true, if_false]
        have forced := sends.logs (c'.upCalls ++ sent ++ [(-1, c'.buildForceExec)]) c'.assigned
        simp only [fault] at forced
        exact forced.inv fun _ _ => same
      · exact sends.fail raised

theorem Sequenced.updateView (sequenced : c.Sequenced) (level : c.Level) (env : Env)
    (newViewInfo : View) (ahead : StaysAhead c (env, .updateView newViewInfo)) :
    (updateView env c newViewInfo).SequenceInv := by
  rcases updateView_cases env c newViewInfo sequenced.running with
    ⟨ignored, -⟩ | ⟨successor, ⟨-, failed⟩ | entered⟩
  · rw [ignored]
    exact sequenced.inv level
  · rw [failed]
    exact sequenced.fail .assertion
  · have forward := ahead successor
    have inView := sequenced.inView
    rw [vstol_toNat, vstol_boundary] at forward
    have positive : 1 ≤ newViewInfo.viewId.toNat := by omega
    have numbered : Numbered c.deliveredAt newViewInfo.viewId.toNat 0 := by
      rcases Nat.lt_or_ge c.highestCommittedVs.viewId.toNat newViewInfo.viewId.toNat with
        later | reached
      · exact sequenced.numbered.enter later
      · -- crossed into already, with nothing delivered there
        have started := sequenced.numbered
        rwa [show c.highestCommittedVs.viewId.toNat = newViewInfo.viewId.toNat by omega,
          show c.highestCommittedVs.reqId.toNat = 0 by omega] at started
    rw [entered]
    refine Sequenced.inv ?_ fun _ _ => rfl
    exact {
      running := sequenced.running
      numbered := numbered
      inView := positive
      seenView := positive
      toCommit := le_rfl
      committedRoom := by simp [consensusUpdateRole]
      toCommitRoom := by simp [consensusUpdateRole]
      seenRoom := by simp [consensusUpdateRole]
      last := fun v nonzero => boundaryDb_none env c newViewInfo _
        (fun same => absurd (congrArg ViewStamp.reqId same) (by simp))
        (sequenced.last v nonzero) }

/-- One call keeps the stamps delivered numbered. -/
theorem Sequenced.handle (sequenced : c.Sequenced) (level : c.Level) (e : Env × CompEvent)
    (below : ReqIdsBelow c e) (ahead : StaysAhead c e) : (handle c e).SequenceInv := by
  obtain ⟨env, event⟩ := e
  simp only [ReqIdsBelow, reqIds] at below
  cases event with
  | message msg =>
    cases msg with
    | acceptReq msgVs reqCanbeExed nodeId record =>
      exact sequenced.handleAcceptReq level env msgVs reqCanbeExed nodeId record
        (below _ (by simp)) (below _ (by simp)) ahead
    | acceptAck msgVs nodeId =>
      exact sequenced.handleAcceptAck level env msgVs nodeId (below _ (by simp))
    | missingReq nodeId missingVs => exact sequenced.handleMissingReq level env nodeId missingVs
    | missingAck nodeId missingVs record =>
      exact sequenced.handleMissingAck level env missingVs record (below _ (by simp))
    | forceExec nodeId highestCommittedOp =>
      exact sequenced.handleForceExec level env nodeId highestCommittedOp (below _ (by simp))
    | forwardReq nodeId data =>
      simp only [Comp.handle, consensusHandleMsg, handleForwardReq]
      split
      next secondary => exact sequenced.inv level
      next leader => exact sequenced.leaderHandleSubmitReq level env data (below _ (by simp))
  | submit data =>
    simp only [Comp.handle, consensusSubmitRequest]
    split
    next leader => exact sequenced.leaderHandleSubmitReq level env data (below _ (by simp))
    next secondary => exact (sequenced.logs _ c.assigned).inv level
  | makeProgress => exact sequenced.consensusMakeProgress level env ahead
  | updateView newViewInfo => exact sequenced.updateView level env newViewInfo ahead
  | acceptorUpdateRecord nextView record =>
    rw [Comp.handle, Comp.acceptorUpdateRecord, acceptorKey]
    exact (sequenced.store ⟨0, nextView⟩ (.acceptor record) (.inl rfl)).inv level

theorem init_sequenced (seed : Bool) (nodeId groupSize : ℕ) :
    (init seed nodeId groupSize).Sequenced :=
  { running := rfl
    numbered := .empty _
    inView := le_rfl
    seenView := le_rfl
    toCommit := le_rfl
    committedRoom := by simp [init]
    toCommitRoom := by simp [init]
    seenRoom := by simp [init]
    last := fun _ _ => rfl }

theorem sequenceInv_of_reaches (c : Comp)
    (reached : machine.Reaches (fun c e => ReqIdsBelow c e ∧ StaysAhead c e) c) :
    c.SequenceInv := by
  apply reached.invariant (I := SequenceInv)
  · rintro c ⟨seed, nodeId, groupSize, -, rfl⟩
    exact (init_sequenced seed nodeId groupSize).inv fun _ _ => rfl
  · intro c e inv allowed enabled
    obtain ⟨sequenced, level⟩ := inv.sequenced enabled
    exact sequenced.handle level e allowed.1 allowed.2

/-! ## Gap-free delivery -/

/-- Every run in which no call takes a boundary for a request and no view change moves the
committed stamp back delivers in order, without repetition and without a gap. -/
theorem deliver_msg_data_gap_free (c : Comp)
    (reached : machine.Reaches (fun c e => ReqIdsBelow c e ∧ StaysAhead c e) c) : c.GapFree := by
  obtain ⟨epoch, count, numbered⟩ := (sequenceInv_of_reaches c reached).delivered
  exact gapFree_of_numbered c epoch count numbered

/-- A follower of node 1 in view 1 is sent the requests of node 2 in view 2, whose boundary
names (1, 1) as the last request of view 1. -/
def crossingRun : List (Env × CompEvent) :=
  let record : RequestRecord := ⟨⟨0, 0⟩, 0, 2, [1]⟩
  [(quietEnv, .updateView ⟨1, 1, 0⟩),
    (quietEnv, .message (.acceptReq ⟨1, 1⟩ ⟨1, 0⟩ 1 record)),
    (quietEnv, .message (.acceptReq ⟨2, 1⟩ ⟨2, 0⟩ 2 record)),
    ({ quietEnv with now := ⟨4294967297, 0⟩ }, .message (.missingAck 2 ⟨2, 0⟩ record)),
    (quietEnv, .message (.acceptReq ⟨2, 2⟩ ⟨2, 1⟩ 2 record))]

/-- It delivers the last request of its own view and goes on with the next view. -/
theorem crossing_follower_gap_free :
    let c := crossingRun.foldl machine.apply (init false 0 3)
    c.curView = ⟨1, 1, 0⟩ ∧ c.deliveredIn 1 = [⟨1, 1⟩] ∧ c.deliveredIn 2 = [⟨2, 1⟩] ∧
      c.GapFree := by
  refine ⟨by decide, by decide, by decide,
    deliver_msg_data_gap_free _ ⟨init false 0 3, ⟨false, 0, 3, by decide, rfl⟩, ?_⟩⟩
  apply Machine.Accepts.run
  decide

/-! ## Once round the view numbers -/

/-- A follower of node 1 that has delivered `log` and entered `k` further views. -/
structure Rounds (log : List Delivery) (k : ℕ) (c : Comp) : Prop where
  running : c.fault = none
  nodeId : c.nodeId = 0
  view : c.curView.viewId = UInt32.ofNat (1 + k)
  delivered : c.delivered = log

theorem Rounds.next {log : List Delivery} {k : ℕ} (rounds : Rounds log k c) :
    ∃ db, updateView quietEnv c ⟨c.curView.viewId + 1, 1, 0⟩ =
        consensusUpdateRole { c with curView := ⟨c.curView.viewId + 1, 1, 0⟩, db := db } ∧
      Rounds log (k + 1) (updateView quietEnv c ⟨c.curView.viewId + 1, 1, 0⟩) := by
  rcases updateView_cases quietEnv c ⟨c.curView.viewId + 1, 1, 0⟩ rounds.running with
    ⟨-, other⟩ | ⟨-, ⟨refused, -⟩ | entered⟩
  · exact absurd rfl other
  · cases refused
  · refine ⟨_, entered, ?_⟩
    rw [entered]
    exact {
      running := rounds.running
      nodeId := rounds.nodeId
      view := by
        show c.curView.viewId + 1 = _
        rw [rounds.view]
        apply UInt32.toNat_inj.mp
        simp only [UInt32.toNat_add, UInt32.toNat_ofNat', UInt32.toNat_one]
        omega
      delivered := rounds.delivered }

/-- The leader of view 1 sends its first request and reports it committed. -/
def firstRequest : List (Env × CompEvent) :=
  [(quietEnv, .message (.acceptReq ⟨1, 1⟩ ⟨1, 0⟩ 1 ⟨⟨0, 0⟩, 0, 2, [1]⟩)),
    (quietEnv, .message (.forceExec 1 ⟨1, 1⟩))]

/-- The follower in view 1 with its first request delivered. -/
def firstDelivered : Comp :=
  ((quietEnv, .updateView ⟨1, 1, 0⟩) :: firstRequest).foldl machine.apply (init false 0 3)

theorem rounds_run (k : ℕ) : ∃ c, machine.Reaches ReqIdsBelow c ∧
    Rounds [⟨⟨1, 1⟩, some [1]⟩] k c := by
  induction k with
  | zero =>
    have accepted : machine.Accepts ReqIdsBelow (init false 0 3)
        ((quietEnv, .updateView ⟨1, 1, 0⟩) :: firstRequest) := by decide
    refine ⟨firstDelivered, ⟨_, ⟨false, 0, 3, by decide, rfl⟩, accepted.run⟩, ?_⟩
    exact ⟨by decide, by decide, by decide, by decide⟩
  | succ k ih =>
    obtain ⟨c, reached, rounds⟩ := ih
    obtain ⟨db, -, next⟩ := rounds.next
    have below : ReqIdsBelow c (quietEnv, .updateView ⟨c.curView.viewId + 1, 1, 0⟩) := by
      simp [ReqIdsBelow, reqIds]
    exact ⟨_, reached.step below rounds.running, next⟩

/-- A follower inside its view executes up to the commit point, as far as requests are stored. -/
theorem secondary_executes (env : Env) (running : c.fault = none) (active : c.curView.viewId ≠ 0)
    (secondary : c.myRole ≠ .leader)
    (same : c.highestCommittedVs.viewId = c.highestToCommitVs.viewId)
    (committedRoom : c.highestCommittedVs.reqId.toNat < 4294967295)
    (toCommitRoom : c.highestToCommitVs.reqId.toNat < 4294967295) :
    ∃ n missing, c.ExecutesTo c.highestToCommitVs n ∧
      Comp.tryToExecute env c = c.afterExec n missing := by
  have largest := vstol_lt _ toCommitRoom
  obtain ⟨n, missing, reaches, -, result⟩ :=
    execRange_spec c c.highestToCommitVs same.symm (vstol_lt _ committedRoom)
  refine ⟨n, missing, reaches, ?_⟩
  simp only [Comp.tryToExecute, if_neg active, if_neg secondary, running, Option.isSome_none,
    Bool.false_eq_true, if_false, Comp.executeCommitted, if_neg (not_not_intro same)]
  rw [result, if_neg (by omega)]

/-- A follower at the start of view 1. -/
structure AtStart (log : List Delivery) (c : Comp) : Prop where
  running : c.fault = none
  view : c.curView = ⟨1, 1, 0⟩
  secondary : c.myRole ≠ .leader
  committed : c.highestCommittedVs = ⟨1, 0⟩
  delivered : c.delivered = log

theorem AtStart.acceptReq {log : List Delivery} (start : AtStart log c)
    (toCommit : c.highestToCommitVs = ⟨1, 0⟩) (origin : RequestRecord) :
    let c' := Comp.handleAcceptReq quietEnv c ⟨1, 1⟩ ⟨1, 0⟩ 1 origin
    AtStart log c' ∧ c'.highestToCommitVs = ⟨1, 0⟩ ∧ c'.stored ⟨1, 1⟩ ≠ none := by
  obtain ⟨seen, known, noted, -, -, knownIs, -⟩ := noteAcceptReq_cases c ⟨1, 1⟩ ⟨1, 0⟩
  obtain rfl : known = ⟨1, 0⟩ := knownIs.elim (fun same => same.trans toCommit) id
  rcases storeAcceptReq_cases quietEnv c ⟨1, 1⟩ ⟨1, 0⟩ 1 origin with
    ⟨-, older | stranger | done⟩ | ⟨-, -, -, ⟨refused, -⟩ | ⟨-, kept⟩⟩
  · rw [start.view] at older
    exact absurd older (by decide)
  · rw [start.view] at stranger
    exact absurd stranger (by decide)
  · rw [start.committed] at done
    exact absurd done (by decide)
  · cases refused
  · simp only [Comp.handleAcceptReq]
    rw [kept, noted]
    generalize placed : ({ c with
      highestSeenVs := seen
      highestToCommitVs := ⟨1, 0⟩
      db := c.db.storeRecord (vstol ⟨1, 1⟩) (.request (acceptedRecord quietEnv origin))
      upCalls := c.upCalls ++ [(1, .acceptAck ⟨1, 1⟩ c.nodeId)] } : Comp) = p
    have started : AtStart log p := placed ▸ { start with }
    have stored : p.stored ⟨1, 1⟩ ≠ none := by
      have lookup := stored_storeRecord c ⟨1, 1⟩ ⟨1, 1⟩
        (.request (acceptedRecord quietEnv origin))
      rw [if_pos rfl] at lookup
      rw [← placed]
      exact fun none => Option.some_ne_none _ (lookup.symm.trans none)
    have point : p.highestToCommitVs = ⟨1, 0⟩ := placed ▸ rfl
    obtain ⟨n, missing, reaches, result⟩ := secondary_executes quietEnv started.running
      (by rw [started.view]; decide) started.secondary (by rw [started.committed, point])
      (by rw [started.committed]; decide) (by rw [point]; decide)
    -- the request is not reported committed yet
    obtain rfl : n = 0 := by
      have room := reaches.room
      rw [started.committed, point] at room
      simpa using room
    rw [result]
    refine ⟨{ started with committed := ?_, delivered := ?_ }, point, stored⟩
    · exact (stampAfter_zero _).trans started.committed
    · exact (List.append_nil _).trans started.delivered

theorem AtStart.forceExec {log : List Delivery} (start : AtStart log c)
    (toCommit : c.highestToCommitVs = ⟨1, 0⟩) (stored : c.stored ⟨1, 1⟩ ≠ none) :
    ∃ payload, (Comp.handleForceExec quietEnv c 1 ⟨1, 1⟩).delivered =
      log ++ [⟨⟨1, 1⟩, payload⟩] := by
  rcases handleForceExec_cases quietEnv c 1 ⟨1, 1⟩ with ⟨-, stranger | reached⟩ | ⟨-, -, moved⟩
  · rw [start.view] at stranger
    exact absurd rfl stranger
  · rw [toCommit] at reached
    exact absurd reached (by decide)
  · rw [moved]
    obtain ⟨n, missing, reaches, result⟩ := secondary_executes quietEnv
      (c := { c with highestToCommitVs := ⟨1, 1⟩ }) start.running
      (by rw [start.view]; decide) start.secondary (by rw [start.committed])
      (by rw [start.committed]; decide) (by simp)
    rw [result]
    obtain rfl : n = 1 := by
      have room := reaches.room
      have maximal := reaches.maximal
      simp only [start.committed] at room maximal
      have upto : n ≤ 1 := by simpa using room
      rcases Nat.eq_zero_or_pos n with rfl | positive
      · exact absurd (maximal (by decide)) stored
      · omega
    refine ⟨c.payloadAt ⟨1, 1⟩, ?_⟩
    simp only [Comp.afterExec, start.committed, start.delivered]
    rfl

/-- A follower that enters view 1 delivers its first request, whatever it has delivered before. -/
theorem firstRequest_delivered {log : List Delivery} (start : AtStart log c)
    (toCommit : c.highestToCommitVs = ⟨1, 0⟩) :
    ∃ payload, (firstRequest.foldl machine.apply c).delivered = log ++ [⟨⟨1, 1⟩, payload⟩] := by
  obtain ⟨started, point, stored⟩ := start.acceptReq toCommit ⟨⟨0, 0⟩, 0, 2, [1]⟩
  exact started.forceExec point stored

/-- After `2 ^ 32` view changes the number is 1 again, and the follower delivers (1, 1) once more. -/
theorem view_round_delivers_again : ¬ ∀ c, machine.Reaches ReqIdsBelow c → c.GapFree := by
  intro claim
  obtain ⟨c, reached, rounds⟩ := rounds_run 4294967295
  obtain ⟨db, entered, next⟩ := rounds.next
  have view : c.curView.viewId + 1 = 1 := by
    rw [rounds.view]
    decide
  have below : ReqIdsBelow c (quietEnv, .updateView ⟨c.curView.viewId + 1, 1, 0⟩) := by
    simp [ReqIdsBelow, reqIds]
  have reached' : machine.Reaches ReqIdsBelow
      (updateView quietEnv c ⟨c.curView.viewId + 1, 1, 0⟩) := reached.step below rounds.running
  have start : AtStart [⟨⟨1, 1⟩, some [1]⟩]
      (updateView quietEnv c ⟨c.curView.viewId + 1, 1, 0⟩) := by
    rw [entered, view]
    exact {
      running := rounds.running
      view := rfl
      secondary := by simp [consensusUpdateRole, rounds.nodeId]
      committed := rfl
      delivered := rounds.delivered }
  have toCommit : (updateView quietEnv c ⟨c.curView.viewId + 1, 1, 0⟩).highestToCommitVs =
      ⟨1, 0⟩ := by
    rw [entered, view]
    rfl
  generalize updateView quietEnv c ⟨c.curView.viewId + 1, 1, 0⟩ = c' at reached' start toCommit
  obtain ⟨started, -, -⟩ := start.acceptReq toCommit ⟨⟨0, 0⟩, 0, 2, [1]⟩
  obtain ⟨payload, delivered⟩ := firstRequest_delivered start toCommit
  have accepted : machine.Accepts ReqIdsBelow c' firstRequest :=
    ⟨by simp [ReqIdsBelow, reqIds], start.running, by simp [ReqIdsBelow, reqIds],
      started.running, trivial⟩
  have increasing := (claim _ (reached'.extend accepted.run)).increasing
  rw [delivered] at increasing
  simp [viewStampComp_neg] at increasing

end Comp

end LibeventPaxos
