import LibeventPaxos.ConsensusRun
import LibeventPaxos.Lib.EpochLog

/-!
In which order a component delivers: the stamps given to `deliver_msg_data` by a component that
stays in the view it has entered.
-/
namespace LibeventPaxos

open Lib

namespace Comp

/-! ## The property -/

/-- The stamps delivered in one view, in the order of their delivery. -/
def deliveredIn (c : Comp) (viewId : UInt32) : List ViewStamp :=
  (c.delivered.map Delivery.vs).filter fun vs => decide (vs.viewId = viewId)

/-- Deliveries are strictly increasing, and those of a view are its requests 1, 2, 3, … -/
structure GapFree (c : Comp) : Prop where
  increasing : (c.delivered.map Delivery.vs).Pairwise fun a b => viewStampComp a b < 0
  everyView : ∀ viewId, ∃ n, n < 4294967296 ∧ c.deliveredIn viewId = stampsAfter ⟨viewId, 0⟩ n

/-- The request numbers an event brings to the component. -/
def reqIds (c : Comp) : Env × CompEvent → List UInt32
  | (_, .message (.acceptReq msgVs reqCanbeExed _ _)) => [msgVs.reqId, reqCanbeExed.reqId]
  | (_, .message (.acceptAck msgVs _)) => [msgVs.reqId]
  | (_, .message (.missingReq _ missingVs)) => [missingVs.reqId]
  | (_, .message (.missingAck _ missingVs _)) => [missingVs.reqId]
  | (_, .message (.forceExec _ highestCommittedOp)) => [highestCommittedOp.reqId]
  | (_, .message (.forwardReq _ _)) => [c.getNextViewStamp.reqId]
  | (_, .submit _) => [c.getNextViewStamp.reqId]
  | (_, .makeProgress) => []
  | (_, .updateView newViewInfo) => [newViewInfo.reqId]
  | (_, .acceptorUpdateRecord _ _) => []

def ReqIdsBelow (c : Comp) (e : Env × CompEvent) : Prop :=
  ∀ reqId ∈ reqIds c e, reqId.toNat < 4294967295

instance (c : Comp) (e : Env × CompEvent) : Decidable (ReqIdsBelow c e) :=
  List.decidableBAll (fun reqId : UInt32 => reqId.toNat < 4294967295) (reqIds c e)

/-- No event puts a record under request 0 of a later view, wraps the view number, or has a
component scan as a leader while it is in no view. -/
def BoundaryKept (c : Comp) : Env × CompEvent → Prop
  | (_, .message (.acceptReq msgVs _ _ _)) =>
    msgVs.reqId = 0 → msgVs.viewId.toNat ≤ c.curView.viewId.toNat
  | (_, .message (.missingAck _ missingVs _)) =>
    missingVs.reqId = 0 → missingVs.viewId.toNat ≤ c.curView.viewId.toNat
  | (_, .makeProgress) => c.myRole = .leader → c.curView.viewId ≠ 0
  | (_, .updateView newViewInfo) => newViewInfo.viewId ≠ 0
  | _ => True

/-! ## The invariant -/

def position (vs : ViewStamp) : ℕ × ℕ := (vs.viewId.toNat, vs.reqId.toNat)

theorem position_injective : Function.Injective position := by
  intro a b same
  obtain ⟨views, reqs⟩ := Prod.mk.inj same
  exact ViewStamp.ext_toNat views reqs

/-- The positions delivered so far. -/
def deliveredAt (c : Comp) : List (ℕ × ℕ) := (c.delivered.map Delivery.vs).map position

theorem position_deliveriesAt (c : Comp) (vs : ViewStamp) (n : ℕ)
    (room : vs.reqId.toNat + n < 4294967296) :
    ((c.deliveriesAt (stampsAfter vs n)).map Delivery.vs).map position =
      (List.range n).map fun i => (vs.viewId.toNat, vs.reqId.toNat + (i + 1)) := by
  simp only [deliveriesAt, stampsAfter, List.map_map]
  apply List.map_congr_left
  intro i member
  have below := List.mem_range.mp member
  simp only [Function.comp_apply, position, stampAfter_viewId]
  rw [stampAfter_reqId vs (i + 1) (by omega)]

/-- The next `n` deliveries continue the log. -/
theorem numbered_deliveries {c : Comp} {viewId reqId : ℕ} (n : ℕ)
    (room : c.highestCommittedVs.reqId.toNat + n < 4294967296)
    (inView : c.highestCommittedVs.viewId.toNat = viewId)
    (at_reqId : c.highestCommittedVs.reqId.toNat = reqId)
    (numbered : Numbered c.deliveredAt viewId reqId) :
    Numbered (((c.delivered ++ c.deliveriesAt (stampsAfter c.highestCommittedVs n)).map
      Delivery.vs).map position) viewId (reqId + n) := by
  rw [List.map_append, List.map_append, position_deliveriesAt c _ n room, inView, at_reqId]
  exact numbered.extend n

/-- A running component that has delivered in order so far. -/
structure InOrder (c : Comp) : Prop where
  running : c.fault = none
  boundary : ∀ w : UInt32, c.curView.viewId.toNat < w.toNat → c.stored ⟨w, 0⟩ = none
  toCommitRoom : c.highestToCommitVs.reqId.toNat < 4294967295
  seenRoom : c.highestSeenVs.reqId.toNat < 4294967295
  waiting : c.curView.viewId = 0 → c.delivered = []
  confined : c.curView.viewId ≠ 0 → c.Confined
  numbered : c.curView.viewId ≠ 0 → Numbered c.deliveredAt
    c.curView.viewId.toNat c.highestCommittedVs.reqId.toNat

/-- What holds after every call, also after one that does not return. -/
structure OrderInv (c : Comp) : Prop where
  delivered : ∃ epoch count, Numbered c.deliveredAt epoch count
  inOrder : c.fault = none → c.InOrder

theorem InOrder.inv {c : Comp} (inOrder : c.InOrder) : c.OrderInv := by
  refine ⟨?_, fun _ => inOrder⟩
  by_cases waiting : c.curView.viewId = 0
  · rw [deliveredAt, inOrder.waiting waiting]
    exact ⟨0, 0, .empty 0⟩
  · exact ⟨_, _, inOrder.numbered waiting⟩

/-! ## Changes that deliver nothing -/

theorem InOrder.fail {c : Comp} (inOrder : c.InOrder) (fault : Fault) : (c.fail fault).OrderInv :=
  ⟨inOrder.inv.delivered, fun none => by simp [Comp.fail] at none⟩

theorem InOrder.logs {c : Comp} (inOrder : c.InOrder) (upCalls : List (Int × ConsensusMsg))
    (assigned : List (ViewStamp × List UInt8)) :
    ({ c with upCalls := upCalls, assigned := assigned } : Comp).InOrder :=
  { inOrder with
    confined := fun active => { inOrder.confined active with } }

theorem InOrder.stamps {c : Comp} (inOrder : c.InOrder) (seen toCommit : ViewStamp)
    (seenUp : (vstol c.highestSeenVs).toNat ≤ (vstol seen).toNat)
    (toCommitUp : (vstol c.highestToCommitVs).toNat ≤ (vstol toCommit).toNat)
    (seenRoom : seen.reqId.toNat < 4294967295)
    (toCommitRoom : toCommit.reqId.toNat < 4294967295) :
    ({ c with highestSeenVs := seen, highestToCommitVs := toCommit } : Comp).InOrder :=
  { inOrder with
    toCommitRoom := toCommitRoom
    seenRoom := seenRoom
    confined := fun active =>
      { inOrder.confined active with
        toCommit := (inOrder.confined active).toCommit.trans toCommitUp
        seen := (inOrder.confined active).seen.trans (viewId_le_of_vstol_le seenUp)
        toCommitRoom := vstol_lt _ toCommitRoom
        seenRoom := vstol_lt _ seenRoom } }

theorem InOrder.store {c : Comp} (inOrder : c.InOrder) (vs : ViewStamp) (value : DbValue)
    (kept : vs.reqId = 0 → vs.viewId.toNat ≤ c.curView.viewId.toNat) :
    ({ c with db := c.db.storeRecord (vstol vs) value } : Comp).InOrder := by
  have boundary : ∀ w : UInt32, c.curView.viewId.toNat < w.toNat →
      ({ c with db := c.db.storeRecord (vstol vs) value } : Comp).stored ⟨w, 0⟩ = none := by
    intro w later
    rw [stored_storeRecord, if_neg, inOrder.boundary w later]
    rintro rfl
    exact absurd (kept rfl) (Nat.not_le.mpr later)
  exact { inOrder with
    boundary := boundary
    confined := fun active => { inOrder.confined active with boundary := boundary } }

/-! ## Execution -/

private theorem Executes.inv {env : Env} {c c' : Comp} {n k : ℕ}
    {missing : List (Int × ConsensusMsg)} (inOrder : c.InOrder) (active : c.curView.viewId ≠ 0)
    (executes : Executes env c c' n k missing) : c'.OrderInv := by
  have confined := inOrder.confined active
  obtain ⟨progress, -, committed, toCommit, fault, rfl, settled⟩ := executes
  have next := confined.progressed progress missing
  have bound := progress.scans.reqId_lt
  have room : c.highestCommittedVs.reqId.toNat + n < 4294967296 := by
    rcases Nat.eq_zero_or_pos n with rfl | delivers
    · exact c.highestCommittedVs.reqId.toNat_lt
    · have reached := (progress.upto delivers).2
      omega
  have numbered : Numbered (c.progressed committed toCommit n missing fault).deliveredAt
      c.curView.viewId.toNat (c.highestCommittedVs.reqId.toNat + n) :=
    numbered_deliveries n room (congrArg UInt32.toNat confined.inView) rfl
      (inOrder.numbered active)
  refine ⟨⟨_, _, numbered⟩, ?_⟩
  intro running
  obtain rfl : fault = none := running
  obtain ⟨rfl, rfl⟩ := settled rfl
  have toCommitRoom : (stampAfter c.highestToCommitVs k).reqId.toNat < 4294967295 := by
    have scanned := progress.scans.room
    have toCommitRoom := inOrder.toCommitRoom
    have seenRoom := inOrder.seenRoom
    rw [stampAfter_reqId _ k bound]
    omega
  refine ⟨rfl, inOrder.boundary, toCommitRoom, inOrder.seenRoom, fun zero => absurd zero active,
    fun _ => next, fun _ => ?_⟩
  have moved := stampAfter_reqId c.highestCommittedVs n room
  simp only [Comp.progressed] at numbered ⊢
  rwa [moved]

theorem InOrder.tryToExecute {c : Comp} (inOrder : c.InOrder) (env : Env) :
    (tryToExecute env c).OrderInv := by
  by_cases waiting : c.curView.viewId = 0
  · rw [Comp.tryToExecute, if_pos waiting]
    exact inOrder.inv
  · obtain ⟨n, k, missing, executes⟩ := tryToExecute_spec env c (inOrder.confined waiting)
    exact executes.inv inOrder waiting

/-! ## The handlers -/

theorem InOrder.handleAcceptReq {c : Comp} (inOrder : c.InOrder) (env : Env)
    (msgVs reqCanbeExed : ViewStamp) (nodeId : NodeId) (origin : RequestRecord)
    (room : msgVs.reqId.toNat < 4294967295) (toCommitRoom : reqCanbeExed.reqId.toNat < 4294967295)
    (kept : msgVs.reqId = 0 → msgVs.viewId.toNat ≤ c.curView.viewId.toNat) :
    (handleAcceptReq env c msgVs reqCanbeExed nodeId origin).OrderInv := by
  rw [Comp.handleAcceptReq]
  apply InOrder.tryToExecute
  obtain ⟨seen, toCommit, noted, seenIs, ⟨seenUp, -⟩, toCommitIs, toCommitUp, -⟩ :=
    noteAcceptReq_cases c msgVs reqCanbeExed
  have moved := inOrder.stamps seen toCommit seenUp toCommitUp
    (by rcases seenIs with rfl | rfl; exacts [inOrder.seenRoom, room])
    (by rcases toCommitIs with rfl | rfl; exacts [inOrder.toCommitRoom, toCommitRoom])
  rcases storeAcceptReq_cases env c msgVs reqCanbeExed nodeId origin with
    ⟨ignored, -⟩ | ⟨-, -, -, ⟨-, failed⟩ | ⟨-, stored⟩⟩
  · rwa [ignored]
  · rwa [failed, noted]
  · rw [stored, noted]
    exact (moved.store msgVs (.request (acceptedRecord env origin)) kept).logs
      (c.upCalls ++ [(nodeId, .acceptAck msgVs c.nodeId)]) c.assigned

theorem InOrder.handleAcceptAck {c : Comp} (inOrder : c.InOrder) (env : Env)
    (msgVs : ViewStamp) (nodeId : NodeId) : (handleAcceptAck env c msgVs nodeId).OrderInv := by
  rw [Comp.handleAcceptAck]
  apply InOrder.tryToExecute
  rcases storeAcceptAck_cases env c msgVs nodeId with ignored | ⟨-, -, -, value, found, stored⟩
  · rwa [ignored]
  · rw [stored]
    refine inOrder.store msgVs _ fun zero => ?_
    -- a boundary of a later view is not stored, so there is no record to add the bit to
    by_contra later
    have absent := inOrder.boundary msgVs.viewId (by omega)
    rw [← ViewStamp.eq_boundary zero, found] at absent
    exact Option.some_ne_none _ absent

theorem InOrder.handleMissingAck {c : Comp} (inOrder : c.InOrder) (env : Env)
    (missingVs : ViewStamp) (origin : RequestRecord)
    (kept : missingVs.reqId = 0 → missingVs.viewId.toNat ≤ c.curView.viewId.toNat) :
    (handleMissingAck env c missingVs origin).OrderInv := by
  rcases handleMissingAck_cases env c missingVs origin with
    ⟨ignored, -⟩ | ⟨-, -, ⟨-, failed⟩ | ⟨-, stored⟩⟩
  · rw [ignored]
    exact inOrder.inv
  · rw [failed]
    exact inOrder.tryToExecute env
  · rw [stored]
    exact (inOrder.store missingVs _ kept).tryToExecute env

theorem InOrder.handleForceExec {c : Comp} (inOrder : c.InOrder) (env : Env) (nodeId : NodeId)
    (highestCommittedOp : ViewStamp) (room : highestCommittedOp.reqId.toNat < 4294967295) :
    (handleForceExec env c nodeId highestCommittedOp).OrderInv := by
  rcases handleForceExec_cases env c nodeId highestCommittedOp with ⟨ignored, -⟩ | ⟨-, further, moved⟩
  · rw [ignored]
    exact inOrder.inv
  · rw [moved]
    exact (inOrder.stamps c.highestSeenVs highestCommittedOp le_rfl further.le inOrder.seenRoom
      room).tryToExecute env

theorem InOrder.leaderHandleSubmitReq {c : Comp} (inOrder : c.InOrder) (env : Env)
    (data : List UInt8) (room : c.getNextViewStamp.reqId.toNat < 4294967295) :
    (leaderHandleSubmitReq env c data).1.OrderInv := by
  have seenRoom := inOrder.seenRoom
  have reqId : c.getNextViewStamp.reqId.toNat = c.highestSeenVs.reqId.toNat + 1 := by
    simp only [getNextViewStamp, UInt32.toNat_add, UInt32.toNat_one]
    omega
  have seenUp : (vstol c.highestSeenVs).toNat ≤ (vstol c.getNextViewStamp).toNat := by
    rw [vstol_toNat, vstol_toNat, reqId]
    simp only [getNextViewStamp]
    omega
  rcases leaderHandleSubmitReq_cases env c data with ⟨-, failed⟩ | ⟨-, submitted, rfl, result⟩
  · rw [failed]
    exact inOrder.inv
  · have next := ((inOrder.stamps c.getNextViewStamp c.highestToCommitVs seenUp le_rfl room
      inOrder.toCommitRoom).store c.getNextViewStamp (.request (submitRecord env c data))
      (fun zero => by rw [zero] at reqId; simp at reqId)).logs c.upCalls
      (c.assigned ++ [(c.getNextViewStamp, data)])
    rcases result with ⟨-, sent⟩ | ⟨-, executed⟩
    · rw [sent]
      exact (next.logs _ _).inv
    · rw [executed]
      exact next.tryToExecute env

theorem InOrder.handleMissingReq {c : Comp} (inOrder : c.InOrder) (env : Env) (nodeId : NodeId)
    (missingVs : ViewStamp) : (handleMissingReq env c nodeId missingVs).OrderInv := by
  simp only [Comp.handleMissingReq]
  split
  next nothing => exact inOrder.inv
  next reply found => exact (inOrder.logs (c.upCalls ++ [(nodeId, reply)]) c.assigned).inv

theorem InOrder.consensusMakeProgress {c : Comp} (inOrder : c.InOrder) (env : Env)
    (active : c.myRole = .leader → c.curView.viewId ≠ 0) :
    (consensusMakeProgress env c).OrderInv := by
  simp only [Comp.consensusMakeProgress]
  split
  next secondary => exact inOrder.inv
  next leader =>
    have waiting := active (not_not.mp leader)
    obtain ⟨n, k, executes⟩ :=
      leaderTryToExecute_spec env c (inOrder.confined waiting) (not_not.mp leader)
    have scanned := executes.inv inOrder waiting
    generalize leaderTryToExecute env c = c' at scanned
    cases fault : c'.fault with
    | some fault => simpa only [fault, Option.isSome_some, if_true] using scanned
    | none =>
      obtain ⟨sent, raised, -, result, settled⟩ := retransmit_spec env c'
      simp only [result, Option.isSome_none, Bool.false_eq_true, if_false]
      have sends := ((scanned.inOrder fault).logs (c'.upCalls ++ sent) c'.assigned)
      rcases settled with rfl | ⟨raised, rfl⟩
      · simp only [fault, Option.isSome_none, Bool.false_eq_true, if_false]
        have forced := sends.logs (c'.upCalls ++ sent ++ [(-1, c'.buildForceExec)]) c'.assigned
        simp only [fault] at forced
        exact forced.inv
      · exact sends.fail raised

theorem InOrder.updateView {c : Comp} (inOrder : c.InOrder) (env : Env) (newViewInfo : View)
    (nonzero : newViewInfo.viewId ≠ 0) : (updateView env c newViewInfo).OrderInv := by
  rcases updateView_cases env c newViewInfo inOrder.running with
    ⟨ignored, -⟩ | ⟨successor, ⟨-, failed⟩ | entered⟩
  · rw [ignored]
    exact inOrder.inv
  · rw [failed]
    exact inOrder.fail .assertion
  · rw [entered]
    apply InOrder.inv
    -- a successor that wrapped would be view 0, which the call excludes
    have next : newViewInfo.viewId.toNat = c.curView.viewId.toNat + 1 := by
      have sum := congrArg UInt32.toNat successor
      have positive : newViewInfo.viewId.toNat ≠ 0 := fun zero =>
        nonzero (UInt32.toNat_inj.mp zero)
      have view_lt := c.curView.viewId.toNat_lt
      rw [UInt32.toNat_add, UInt32.toNat_one] at sum
      omega
    have boundary : ∀ w : UInt32, newViewInfo.viewId.toNat < w.toNat →
        (boundaryDb env c newViewInfo).retrieveRecord (vstol ⟨w, 0⟩) = none := by
      intro w later
      exact boundaryDb_later env c newViewInfo w later (inOrder.boundary w (by omega))
    have numbered : Numbered c.deliveredAt newViewInfo.viewId.toNat 0 := by
      by_cases waiting : c.curView.viewId = 0
      · rw [deliveredAt, inOrder.waiting waiting]
        exact .empty _
      · exact (inOrder.numbered waiting).enter (by omega)
    exact {
      running := inOrder.running
      boundary := boundary
      toCommitRoom := by simp [consensusUpdateRole]
      seenRoom := by simp [consensusUpdateRole]
      waiting := fun zero => absurd zero nonzero
      confined := fun active => {
        running := inOrder.running
        inView := rfl
        positive := active
        toCommit := le_rfl
        seen := le_rfl
        boundary := boundary
        toCommitRoom := vstol_lt _ (by simp [consensusUpdateRole])
        seenRoom := vstol_lt _ (by simp [consensusUpdateRole]) }
      numbered := fun _ => numbered }

theorem InOrder.acceptorUpdateRecord {c : Comp} (inOrder : c.InOrder) (nextView : UInt32)
    (record : AcceptorRecord) : (c.acceptorUpdateRecord nextView record).OrderInv := by
  rw [Comp.acceptorUpdateRecord, acceptorKey]
  refine (inOrder.store ⟨0, nextView⟩ (.acceptor record) fun _ => ?_).inv
  exact Nat.zero_le _

/-- One call keeps deliveries in order. -/
theorem InOrder.handle {c : Comp} (inOrder : c.InOrder) (e : Env × CompEvent)
    (below : ReqIdsBelow c e) (kept : BoundaryKept c e) : (handle c e).OrderInv := by
  obtain ⟨env, event⟩ := e
  simp only [ReqIdsBelow, reqIds] at below
  cases event with
  | message msg =>
    cases msg with
    | acceptReq msgVs reqCanbeExed nodeId record =>
      exact inOrder.handleAcceptReq env msgVs reqCanbeExed nodeId record
        (below _ (by simp)) (below _ (by simp)) kept
    | acceptAck msgVs nodeId => exact inOrder.handleAcceptAck env msgVs nodeId
    | missingReq nodeId missingVs => exact inOrder.handleMissingReq env nodeId missingVs
    | missingAck nodeId missingVs record =>
      exact inOrder.handleMissingAck env missingVs record kept
    | forceExec nodeId highestCommittedOp =>
      exact inOrder.handleForceExec env nodeId highestCommittedOp (below _ (by simp))
    | forwardReq nodeId data =>
      simp only [Comp.handle, consensusHandleMsg, handleForwardReq]
      split
      next secondary => exact inOrder.inv
      next leader => exact inOrder.leaderHandleSubmitReq env data (below _ (by simp))
  | submit data =>
    simp only [Comp.handle, consensusSubmitRequest]
    split
    next leader => exact inOrder.leaderHandleSubmitReq env data (below _ (by simp))
    next secondary => exact (inOrder.logs _ c.assigned).inv
  | makeProgress => exact inOrder.consensusMakeProgress env kept
  | updateView newViewInfo => exact inOrder.updateView env newViewInfo kept
  | acceptorUpdateRecord nextView record => exact inOrder.acceptorUpdateRecord nextView record

theorem init_inOrder (seed : Bool) (nodeId groupSize : Nat) :
    (init seed nodeId groupSize).InOrder := by
  cases seed with
  | false =>
    exact {
      running := rfl
      boundary := fun _ _ => rfl
      toCommitRoom := by simp [init]
      seenRoom := by simp [init]
      waiting := fun _ => rfl
      confined := fun active => absurd rfl active
      numbered := fun active => absurd rfl active }
  | true =>
    exact {
      running := rfl
      boundary := fun _ _ => rfl
      toCommitRoom := by simp [init]
      seenRoom := by simp [init]
      waiting := fun _ => rfl
      confined := fun active => {
        running := rfl
        inView := rfl
        positive := active
        toCommit := le_rfl
        seen := le_rfl
        boundary := fun _ _ => rfl
        toCommitRoom := vstol_lt _ (by simp [init])
        seenRoom := vstol_lt _ (by simp [init]) }
      numbered := fun _ => .empty _ }

/-! ## Gap-free delivery -/

theorem gapFree_of_numbered (c : Comp) (epoch count : ℕ)
    (numbered : Numbered c.deliveredAt epoch count) : c.GapFree := by
  constructor
  · have increasing := numbered.increasing
    rw [deliveredAt, List.pairwise_map] at increasing
    refine increasing.imp ?_
    intro a b order
    have a_lt := a.reqId.toNat_lt
    have b_lt := b.reqId.toNat_lt
    rw [viewStampComp_neg, vstol_toNat, vstol_toNat]
    simp only [position] at order
    omega
  · intro viewId
    obtain ⟨n, entries⟩ := numbered.every_epoch viewId.toNat
    have inView : (c.deliveredIn viewId).map position =
        (List.range n).map fun i => (viewId.toNat, i + 1) := by
      rw [← entries, deliveredAt, deliveredIn]
      generalize c.delivered.map Delivery.vs = stamps
      rw [List.filter_map]
      congr 1
      apply List.filter_congr
      intro vs _
      simp only [Function.comp_apply, position, UInt32.toNat_inj]
    -- the last id delivered is a 32-bit word
    have bound : n < 4294967296 := by
      rcases Nat.eq_zero_or_pos n with rfl | positive
      · omega
      · have last : (viewId.toNat, n) ∈ (c.deliveredIn viewId).map position := by
          rw [inView]
          exact List.mem_map.mpr ⟨n - 1, List.mem_range.mpr (by omega), by simp; omega⟩
        obtain ⟨vs, -, at_n⟩ := List.mem_map.mp last
        have reqId := congrArg Prod.snd at_n
        have vs_lt := vs.reqId.toNat_lt
        simp only [position] at reqId
        omega
    refine ⟨n, bound, List.map_injective_iff.mpr position_injective ?_⟩
    rw [inView, stampsAfter, List.map_map]
    apply List.map_congr_left
    intro i member
    have below := List.mem_range.mp member
    have reqId := stampAfter_reqId ⟨viewId, 0⟩ (i + 1) (by simp only [UInt32.toNat_zero]; omega)
    simp only [UInt32.toNat_zero, Nat.zero_add] at reqId
    simp only [Function.comp_apply, position, stampAfter_viewId, reqId]

end Comp

end LibeventPaxos
