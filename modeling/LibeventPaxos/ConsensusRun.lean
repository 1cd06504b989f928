import LibeventPaxos.ConsensusExec
import LibeventPaxos.Lib.Machine

/-!
Runs of one consensus component: every call its node can make, in any order, with arbitrary
messages.
-/
namespace LibeventPaxos

open Lib

/-- The calls that reach a component or its database: a message, a local submission, the
make-progress timer, `update_view`, and the acceptor record an election stores in the same
database. -/
inductive CompEvent where
  | message (msg : ConsensusMsg)
  | submit (data : List UInt8)
  | makeProgress
  | updateView (newViewInfo : View)
  | acceptorUpdateRecord (nextView : UInt32) (record : AcceptorRecord)

namespace Comp

/-- `acceptor_update_record`: the key is the number of the view, so the record lies in view 0. -/
def acceptorUpdateRecord (c : Comp) (nextView : UInt32) (record : AcceptorRecord) : Comp :=
  { c with db := c.db.storeRecord nextView.toUInt64 (.acceptor record) }

def handle (c : Comp) : Env × CompEvent → Comp
  | (env, .message msg) => consensusHandleMsg env c msg
  | (env, .submit data) => consensusSubmitRequest env c data
  | (env, .makeProgress) => consensusMakeProgress env c
  | (env, .updateView newViewInfo) => updateView env c newViewInfo
  | (_, .acceptorUpdateRecord nextView record) => c.acceptorUpdateRecord nextView record

/-- One component over its life; a call that does not return is its last. -/
def machine : Machine Comp (Env × CompEvent) where
  initial c := ∃ seed nodeId groupSize, nodeId < groupSize ∧ c = init seed nodeId groupSize
  enabled c _ := c.fault = none
  apply := handle

instance (c : Comp) (e : Env × CompEvent) : Decidable (machine.enabled c e) :=
  inferInstanceAs (Decidable (c.fault = none))

/-- Messages handled one after the other; nothing is handled after a call that does not return. -/
def handleMsgs (c : Comp) (msgs : List (Env × ConsensusMsg)) : Comp :=
  msgs.foldl (fun c m => if c.fault.isSome then c else consensusHandleMsg m.1 c m.2) c

/-- The runs at fixed inputs are of three nodes. -/
instance threeNodes : NeZero 3 := ⟨by decide⟩

/-- A clock at 0, a database that works and memory that holds zeros. -/
def quietEnv : Env :=
  { now := ⟨0, 0⟩, storeOk := true, heapBitMap := 0, heapClosed := 0,
    junk := fun _ => ⟨⟨0, 0⟩, 0, 0, []⟩, stack := ⟨0, 0, 0⟩ }

/-! ## Stamps and keys -/

theorem stored_storeRecord (c : Comp) (vs other : ViewStamp) (value : DbValue) :
    ({ c with db := c.db.storeRecord (vstol vs) value } : Comp).stored other =
      if other = vs then some value else c.stored other := by
  simp only [stored, Database.retrieveRecord_storeRecord, vstol_inj]

theorem acceptorKey (nextView : UInt32) : nextView.toUInt64 = vstol ⟨0, nextView⟩ := by
  apply UInt64.toNat_inj.mp
  simp only [vstol_toNat, UInt32.toNat_toUInt64, UInt32.toNat_zero, Nat.zero_mul, Nat.zero_add]

theorem viewId_le_of_vstol_le {a b : ViewStamp} (order : (vstol a).toNat ≤ (vstol b).toNat) :
    a.viewId.toNat ≤ b.viewId.toNat := by
  have a_lt := a.reqId.toNat_lt
  have b_lt := b.reqId.toNat_lt
  rw [vstol_toNat, vstol_toNat] at order
  omega

/-! ## What the handlers do before they execute -/

theorem noteAcceptReq_cases (c : Comp) (msgVs reqCanbeExed : ViewStamp) :
    ∃ seen toCommit, c.noteAcceptReq msgVs reqCanbeExed =
        { c with highestSeenVs := seen, highestToCommitVs := toCommit } ∧
      (seen = c.highestSeenVs ∨ seen = msgVs) ∧
      ((vstol c.highestSeenVs).toNat ≤ (vstol seen).toNat ∧
        (vstol msgVs).toNat ≤ (vstol seen).toNat) ∧
      (toCommit = c.highestToCommitVs ∨ toCommit = reqCanbeExed) ∧
      (vstol c.highestToCommitVs).toNat ≤ (vstol toCommit).toNat ∧
        (vstol reqCanbeExed).toNat ≤ (vstol toCommit).toNat := by
  have order := viewStampComp_pos msgVs c.highestSeenVs
  have order' := viewStampComp_pos reqCanbeExed c.highestToCommitVs
  simp only [noteAcceptReq, gt_iff_lt]
  by_cases newer : 0 < viewStampComp msgVs c.highestSeenVs <;>
    by_cases further : 0 < viewStampComp reqCanbeExed c.highestToCommitVs
  · exact ⟨msgVs, reqCanbeExed, by simp [newer, further], .inr rfl, by omega, .inr rfl, by omega⟩
  · exact ⟨msgVs, c.highestToCommitVs, by simp [newer, further], .inr rfl, by omega, .inl rfl,
      by omega⟩
  · exact ⟨c.highestSeenVs, reqCanbeExed, by simp [newer, further], .inl rfl, by omega, .inr rfl,
      by omega⟩
  · exact ⟨c.highestSeenVs, c.highestToCommitVs, by simp [newer, further], .inl rfl, by omega,
      .inl rfl, by omega⟩

/-- The record `handle_accept_req` stores. -/
def acceptedRecord (env : Env) (origin : RequestRecord) : RequestRecord :=
  { createdTime := env.now, isClosed := origin.isClosed, bitMap := env.heapBitMap,
    data := origin.data }

/-- `handle_accept_req` before it executes: it ignores the request, or moves the stamps and then
stores and acknowledges the request if the database lets it. -/
theorem storeAcceptReq_cases (env : Env) (c : Comp) (msgVs reqCanbeExed : ViewStamp)
    (nodeId : NodeId) (origin : RequestRecord) :
    (storeAcceptReq env c msgVs reqCanbeExed nodeId origin = c ∧
      (msgVs.viewId.toNat < c.curView.viewId.toNat ∨
        msgVs.viewId = c.curView.viewId ∧ nodeId ≠ c.curView.leaderId ∨
        (vstol msgVs).toNat ≤ (vstol c.highestCommittedVs).toNat)) ∨
    (c.curView.viewId.toNat ≤ msgVs.viewId.toNat ∧
      (msgVs.viewId = c.curView.viewId → nodeId = c.curView.leaderId) ∧
      (vstol c.highestCommittedVs).toNat < (vstol msgVs).toNat ∧
      (env.storeOk = false ∧ storeAcceptReq env c msgVs reqCanbeExed nodeId origin =
          c.noteAcceptReq msgVs reqCanbeExed ∨
        env.storeOk = true ∧ storeAcceptReq env c msgVs reqCanbeExed nodeId origin =
          { c.noteAcceptReq msgVs reqCanbeExed with
            db := c.db.storeRecord (vstol msgVs) (.request (acceptedRecord env origin))
            upCalls := c.upCalls ++ [(nodeId, .acceptAck msgVs c.nodeId)] })) := by
  have committed := viewStampComp_nonpos msgVs c.highestCommittedVs
  obtain ⟨seen, toCommit, noted, -⟩ := noteAcceptReq_cases c msgVs reqCanbeExed
  simp only [storeAcceptReq]
  split
  next older => exact .inl ⟨rfl, .inl (UInt32.lt_iff_toNat_lt.mp older)⟩
  next notOlder =>
    split
    next stranger => exact .inl ⟨rfl, .inr (.inl stranger)⟩
    next known =>
      split
      next done => exact .inl ⟨rfl, .inr (.inr (committed.mp done))⟩
      next fresh =>
        refine .inr ⟨?_, ?_, by omega, ?_⟩
        · rw [UInt32.lt_iff_toNat_lt] at notOlder
          omega
        · intro same
          by_contra other
          exact known ⟨same, other⟩
        · cases stores : env.storeOk with
          | false => exact .inl ⟨rfl, by simp⟩
          | true =>
            refine .inr ⟨rfl, ?_⟩
            rw [noted]
            simp [uc, buildAcceptAck, acceptedRecord]

/-- `handle_accept_ack` before it executes: at most one bit is added to a stored record. -/
theorem storeAcceptAck_cases (env : Env) (c : Comp) (msgVs : ViewStamp) (nodeId : NodeId) :
    storeAcceptAck env c msgVs nodeId = c ∨
    (c.myRole = .leader ∧ env.storeOk = true ∧
      (vstol c.highestCommittedVs).toNat < (vstol msgVs).toNat ∧
      ∃ value, c.stored msgVs = some value ∧ storeAcceptAck env c msgVs nodeId =
        { c with
          db := c.db.storeRecord (vstol msgVs)
            (.request (updateRecord (value.asRequest (env.junk (vstol msgVs))) nodeId)) }) := by
  have committed := viewStampComp_nonpos msgVs c.highestCommittedVs
  simp only [storeAcceptAck]
  split
  next secondary => exact .inl rfl
  next leader =>
    split
    next done => exact .inl rfl
    next fresh =>
      have lookup : c.db.retrieveRecord (vstol msgVs) = c.stored msgVs := rfl
      simp only [lookup]
      cases found : c.stored msgVs with
      | none => exact .inl rfl
      | some value =>
        cases stores : env.storeOk with
        | false => exact .inl rfl
        | true =>
          exact .inr ⟨not_not.mp leader, rfl, by omega, value, rfl, by simp⟩

theorem buildMissingAck_of_stored (env : Env) (c : Comp) (vs : ViewStamp) (value : DbValue)
    (found : c.stored vs = some value) : c.buildMissingAck env vs =
      if 0 ≤ memsize (value.asRequest (env.junk (vstol vs))) then
        some (.missingAck c.nodeId vs (value.asRequest (env.junk (vstol vs))))
      else none := by
  have lookup : c.db.retrieveRecord (vstol vs) = some value := found
  rw [buildMissingAck, lookup]

/-- `handle_missing_req`: the answer is built from the record that is stored, if one is. -/
theorem handleMissingReq_cases (env : Env) (c : Comp) (nodeId : NodeId) (missingVs : ViewStamp) :
    handleMissingReq env c nodeId missingVs = c ∨
    ∃ value, c.stored missingVs = some value ∧ handleMissingReq env c nodeId missingVs =
      c.uc nodeId (.missingAck c.nodeId missingVs
        (value.asRequest (env.junk (vstol missingVs)))) := by
  cases found : c.stored missingVs with
  | none =>
    have lookup : c.db.retrieveRecord (vstol missingVs) = none := found
    exact .inl (by rw [handleMissingReq, buildMissingAck, lookup])
  | some value =>
    rw [handleMissingReq, buildMissingAck_of_stored env c missingVs value found]
    by_cases fits : 0 ≤ memsize (value.asRequest (env.junk (vstol missingVs)))
    · refine .inr ⟨value, rfl, ?_⟩
      rw [if_pos fits]
    · refine .inl ?_
      rw [if_neg fits]

/-- `handle_missing_ack`: only a record that is not there yet is stored, and only above the
committed stamp. -/
theorem handleMissingAck_cases (env : Env) (c : Comp) (missingVs : ViewStamp)
    (origin : RequestRecord) :
    (handleMissingAck env c missingVs origin = c ∧
      ((vstol missingVs).toNat ≤ (vstol c.highestCommittedVs).toNat ∨
        c.stored missingVs ≠ none)) ∨
    ((vstol c.highestCommittedVs).toNat < (vstol missingVs).toNat ∧ c.stored missingVs = none ∧
      (env.storeOk = false ∧ handleMissingAck env c missingVs origin = tryToExecute env c ∨
        env.storeOk = true ∧ handleMissingAck env c missingVs origin = tryToExecute env
          { c with
            db := c.db.storeRecord (vstol missingVs) (.request (missingRecord env origin)) })) := by
  have committed := viewStampComp_nonneg c.highestCommittedVs missingVs
  simp only [handleMissingAck, ge_iff_le]
  split
  next done => exact .inl ⟨rfl, .inl (committed.mp done)⟩
  next fresh =>
    have lookup : c.db.retrieveRecord (vstol missingVs) = c.stored missingVs := rfl
    simp only [lookup]
    cases found : c.stored missingVs with
    | some value => exact .inl ⟨rfl, .inr (Option.some_ne_none value)⟩
    | none =>
      refine .inr ⟨by omega, rfl, ?_⟩
      cases stores : env.storeOk with
      | false => exact .inl ⟨rfl, by simp⟩
      | true => exact .inr ⟨rfl, by simp⟩

theorem handleForceExec_cases (env : Env) (c : Comp) (nodeId : NodeId)
    (highestCommittedOp : ViewStamp) :
    (handleForceExec env c nodeId highestCommittedOp = c ∧
      (nodeId ≠ c.curView.leaderId ∨
        (vstol highestCommittedOp).toNat ≤ (vstol c.highestToCommitVs).toNat)) ∨
    (nodeId = c.curView.leaderId ∧
      (vstol c.highestToCommitVs).toNat < (vstol highestCommittedOp).toNat ∧
      handleForceExec env c nodeId highestCommittedOp =
        tryToExecute env { c with highestToCommitVs := highestCommittedOp }) := by
  have further := viewStampComp_neg c.highestToCommitVs highestCommittedOp
  simp only [handleForceExec]
  split
  next stranger => exact .inl ⟨rfl, .inl stranger⟩
  next known =>
    split
    next above => exact .inr ⟨not_not.mp known, by omega, rfl⟩
    next reached => exact .inl ⟨rfl, .inr (by omega)⟩

/-- `leader_handle_submit_req`: a stored request takes the next stamp. -/
theorem leaderHandleSubmitReq_cases (env : Env) (c : Comp) (data : List UInt8) :
    (env.storeOk = false ∧ (leaderHandleSubmitReq env c data).1 = c) ∨
    (env.storeOk = true ∧ ∃ submitted : Comp, submitted =
        { c with
          db := c.db.storeRecord (vstol c.getNextViewStamp) (.request (submitRecord env c data))
          highestSeenVs := c.getNextViewStamp
          assigned := c.assigned ++ [(c.getNextViewStamp, data)] } ∧
      (1 < c.groupSize ∧ (leaderHandleSubmitReq env c data).1 =
          submitted.uc (-1) (submitted.buildAcceptReq (submitRecord env c data)
            c.getNextViewStamp) ∨
        c.groupSize ≤ 1 ∧ (leaderHandleSubmitReq env c data).1 = tryToExecute env submitted)) := by
  simp only [leaderHandleSubmitReq]
  cases stores : env.storeOk with
  | false => exact .inl ⟨rfl, by simp⟩
  | true =>
    refine .inr ⟨rfl, _, rfl, ?_⟩
    by_cases group : c.groupSize > 1
    · refine .inl ⟨group, ?_⟩
      simp only [if_true, if_pos group]
      rfl
    · refine .inr ⟨by omega, ?_⟩
      simp only [if_true, if_neg group]
      rfl

/-- The database after `update_view` has written the boundary of the new view. -/
def boundaryDb (env : Env) (c : Comp) (newViewInfo : View) : Database :=
  if newViewInfo.viewId = 1 then c.db
  else (c.db.storeRecord (vstol ⟨newViewInfo.viewId, 0⟩) (.view env.stack)).deleteRecord
    (vstol ⟨newViewInfo.viewId - 1, newViewInfo.reqId + 1⟩)

/-- `update_view` writes nothing but the boundary of the new view. -/
theorem boundaryDb_none (env : Env) (c : Comp) (newViewInfo : View) (vs : ViewStamp)
    (different : vs ≠ ⟨newViewInfo.viewId, 0⟩) (absent : c.stored vs = none) :
    (boundaryDb env c newViewInfo).retrieveRecord (vstol vs) = none := by
  rw [stored] at absent
  simp only [boundaryDb]
  split
  next first => exact absent
  next other =>
    rw [Database.retrieveRecord_deleteRecord, Database.retrieveRecord_storeRecord,
      if_neg (mt (vstol_inj _ _).mp different), absent, ite_self]

/-- Boundaries of views after the new one are left as they are. -/
theorem boundaryDb_later (env : Env) (c : Comp) (newViewInfo : View) (w : UInt32)
    (later : newViewInfo.viewId.toNat < w.toNat) (absent : c.stored ⟨w, 0⟩ = none) :
    (boundaryDb env c newViewInfo).retrieveRecord (vstol ⟨w, 0⟩) = none := by
  refine boundaryDb_none env c newViewInfo ⟨w, 0⟩ (fun same => ?_) absent
  have views := congrArg (fun vs : ViewStamp => vs.viewId.toNat) same
  simp only at views
  omega

/-- `update_view` enters the next view, ignores any other, or fails to write the boundary. -/
theorem updateView_cases (env : Env) (c : Comp) (newViewInfo : View) (running : c.fault = none) :
    (updateView env c newViewInfo = c ∧ c.curView.viewId + 1 ≠ newViewInfo.viewId) ∨
    (c.curView.viewId + 1 = newViewInfo.viewId ∧
      (env.storeOk = false ∧ updateView env c newViewInfo = c.fail .assertion ∨
        updateView env c newViewInfo = consensusUpdateRole
          { c with curView := newViewInfo, db := boundaryDb env c newViewInfo })) := by
  simp only [updateView]
  split
  next successor =>
    refine .inr ⟨successor, ?_⟩
    simp only [storeViewBoundary, boundaryDb]
    by_cases first : newViewInfo.viewId = 1
    · simp [first, running]
    · cases stores : env.storeOk with
      | false => simp [first, fail]
      | true => simp [first, running]
  next other => exact .inl ⟨rfl, other⟩

end Comp

end LibeventPaxos
