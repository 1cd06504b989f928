import LibeventPaxos.ViewAgreement
import LibeventPaxos.ReplayOrder

/-!
What the proxy's thread sees of a call of the component: the record the call writes, and then the
stamps it delivers, one after the other.
-/
namespace LibeventPaxos

open Lib

namespace Comp

/-! ## The writes of a call -/

/-- The record a call writes before it executes; `update_view` is not one of these calls. -/
def written (c : Comp) : Env × CompEvent → Option (ViewStamp × DbValue)
  | (env, .message (.acceptReq msgVs _ nodeId origin)) =>
    if ¬ msgVs.viewId < c.curView.viewId ∧
        ¬ (msgVs.viewId = c.curView.viewId ∧ nodeId ≠ c.curView.leaderId) ∧
        ¬ viewStampComp msgVs c.highestCommittedVs ≤ 0 ∧ env.storeOk then
      some (msgVs, .request (acceptedRecord env origin))
    else none
  | (env, .message (.acceptAck msgVs nodeId)) =>
    if c.myRole = .leader ∧ ¬ viewStampComp msgVs c.highestCommittedVs ≤ 0 ∧ env.storeOk then
      (c.stored msgVs).map fun value =>
        (msgVs, .request (updateRecord (value.asRequest (env.junk (vstol msgVs))) nodeId))
    else none
  | (env, .message (.missingAck _ missingVs origin)) =>
    if ¬ viewStampComp c.highestCommittedVs missingVs ≥ 0 ∧ c.stored missingVs = none ∧
        env.storeOk then
      some (missingVs, .request (missingRecord env origin))
    else none
  | (env, .message (.forwardReq nodeId data)) =>
    (c.taken (env, .message (.forwardReq nodeId data))).map fun data =>
      (c.getNextViewStamp, .request (submitRecord env c data))
  | (env, .submit data) =>
    (c.taken (env, .submit data)).map fun data =>
      (c.getNextViewStamp, .request (submitRecord env c data))
  | (_, .acceptorUpdateRecord nextView record) => some (⟨0, nextView⟩, .acceptor record)
  | _ => none

/-- The database after the write of a call. -/
def writtenDb (c : Comp) (e : Env × CompEvent) : Database :=
  match c.written e with
  | some (vs, value) => c.db.storeRecord (vstol vs) value
  | none => c.db

section Written

variable (c : Comp)

theorem writtenDb_some {e : Env × CompEvent} {vs : ViewStamp} {value : DbValue}
    (written : c.written e = some (vs, value)) :
    c.writtenDb e = c.db.storeRecord (vstol vs) value := by
  rw [writtenDb, written]

theorem writtenDb_none {e : Env × CompEvent} (nothing : c.written e = none) :
    c.writtenDb e = c.db := by
  rw [writtenDb, nothing]

private theorem leaderHandleSubmitReq_db (env : Env) (data : List UInt8) :
    (leaderHandleSubmitReq env c data).1.db = if env.storeOk then
      c.db.storeRecord (vstol c.getNextViewStamp) (.request (submitRecord env c data)) else c.db := by
  rcases leaderHandleSubmitReq_cases env c data with
    ⟨refused, failed⟩ | ⟨stores, submitted, rfl, ⟨-, sent⟩ | ⟨-, executed⟩⟩
  · rw [failed, refused]
    rfl
  · rw [sent, stores, if_pos rfl]
    rfl
  · rw [executed, (sameRecords_tryToExecute env _).db, stores, if_pos rfl]

private theorem handleAcceptReq_db (env : Env) (msgVs reqCanbeExed : ViewStamp) (nodeId : NodeId)
    (origin : RequestRecord) :
    (handleAcceptReq env c msgVs reqCanbeExed nodeId origin).db =
      c.writtenDb (env, .message (.acceptReq msgVs reqCanbeExed nodeId origin)) := by
  rw [handleAcceptReq, (sameRecords_tryToExecute env _).db]
  obtain ⟨seen, toCommit, noted, -⟩ := noteAcceptReq_cases c msgVs reqCanbeExed
  simp only [storeAcceptReq, writtenDb, written]
  by_cases older : msgVs.viewId < c.curView.viewId
  · simp [older]
  · by_cases stranger : msgVs.viewId = c.curView.viewId ∧ nodeId ≠ c.curView.leaderId
    · simp [stranger]
    · by_cases done : viewStampComp msgVs c.highestCommittedVs ≤ 0
      · simp [older, stranger, done]
      · cases stores : env.storeOk with
        | false => simp [older, stranger, done, noted]
        | true => simp [older, stranger, done, noted, uc, acceptedRecord]

private theorem handleAcceptAck_db (env : Env) (msgVs : ViewStamp) (nodeId : NodeId) :
    (handleAcceptAck env c msgVs nodeId).db =
      c.writtenDb (env, .message (.acceptAck msgVs nodeId)) := by
  rw [handleAcceptAck, (sameRecords_tryToExecute env _).db]
  have lookup : c.db.retrieveRecord (vstol msgVs) = c.stored msgVs := rfl
  simp only [storeAcceptAck, writtenDb, written, lookup]
  by_cases leader : c.myRole = .leader
  · by_cases done : viewStampComp msgVs c.highestCommittedVs ≤ 0
    · simp [leader, done]
    · cases found : c.stored msgVs with
      | none => simp [leader, done]
      | some value => cases stores : env.storeOk <;> simp [leader, done]
  · simp [leader]

private theorem handleMissingAck_db (env : Env) (nodeId : NodeId) (missingVs : ViewStamp)
    (origin : RequestRecord) :
    (handleMissingAck env c missingVs origin).db =
      c.writtenDb (env, .message (.missingAck nodeId missingVs origin)) := by
  have lookup : c.db.retrieveRecord (vstol missingVs) = c.stored missingVs := rfl
  simp only [handleMissingAck, writtenDb, written, lookup]
  by_cases done : viewStampComp c.highestCommittedVs missingVs ≥ 0
  · simp [done]
  · cases found : c.stored missingVs with
    | some value => simp [done]
    | none =>
      cases stores : env.storeOk <;> simp [done, (sameRecords_tryToExecute env _).db]

private theorem consensusMakeProgress_db (env : Env) : (consensusMakeProgress env c).db = c.db := by
  simp only [consensusMakeProgress]
  split
  next secondary => rfl
  next leader =>
    have scanned := (sameRecords_leaderTryToExecute env c).db
    obtain ⟨sent, fault, -, resent, -⟩ := retransmit_spec env (leaderTryToExecute env c)
    simp only [resent]
    split
    next faulty => exact scanned
    next running =>
      split
      next faulty => exact scanned
      next settled => exact scanned

/-- A call writes one record at most, unless it enters a view. -/
theorem handle_db (e : Env × CompEvent) (stays : ∀ newViewInfo, e.2 ≠ .updateView newViewInfo) :
    (handle c e).db = c.writtenDb e := by
  obtain ⟨env, event⟩ := e
  cases event with
  | message msg =>
    cases msg with
    | acceptReq msgVs reqCanbeExed nodeId record =>
      exact handleAcceptReq_db c env msgVs reqCanbeExed nodeId record
    | acceptAck msgVs nodeId => exact handleAcceptAck_db c env msgVs nodeId
    | missingReq nodeId missingVs =>
      simp only [handle, consensusHandleMsg, handleMissingReq, writtenDb, written]
      split
      next nothing => rfl
      next reply built => rfl
    | missingAck nodeId missingVs record =>
      exact handleMissingAck_db c env nodeId missingVs record
    | forceExec nodeId highestCommittedOp =>
      simp only [handle, consensusHandleMsg, writtenDb, written]
      rcases handleForceExec_cases env c nodeId highestCommittedOp with
        ⟨ignored, -⟩ | ⟨-, -, moved⟩
      · rw [ignored]
      · rw [moved, (sameRecords_tryToExecute env _).db]
    | forwardReq nodeId data =>
      simp only [handle, consensusHandleMsg, handleForwardReq, writtenDb, written, taken]
      by_cases leader : c.myRole = .leader
      · rw [if_neg (not_not_intro leader), leaderHandleSubmitReq_db]
        cases stores : env.storeOk <;> simp [leader]
      · simp [leader]
  | submit data =>
    simp only [handle, consensusSubmitRequest, writtenDb, written, taken]
    by_cases leader : c.myRole = .leader
    · rw [if_pos leader, leaderHandleSubmitReq_db]
      cases stores : env.storeOk <;> simp [leader]
    · simp [leader, forwardSubmitReq, uc]
  | makeProgress => exact consensusMakeProgress_db c env
  | updateView newViewInfo => exact absurd rfl (stays newViewInfo)
  | acceptorUpdateRecord nextView record =>
    simp only [handle, acceptorUpdateRecord, writtenDb, written, acceptorKey]

/-- A call writes no record of a view before the node's own, but for the acceptor's. -/
theorem written_kept (inOrder : c.InOrder) (e : Env × CompEvent) (inView : Group.TakesInView c e)
    (later : ∀ nextView record, e.2 = .acceptorUpdateRecord nextView record → nextView ≠ 0)
    {vs : ViewStamp} {value : DbValue} (written : c.written e = some (vs, value)) :
    vs ≠ ⟨0, 0⟩ ∧ (c.curView.viewId.toNat ≤ vs.viewId.toNat ∨ vs.viewId = 0) := by
  -- a stamp above the committed one
  have above : ∀ vs, (vstol c.highestCommittedVs).toNat < (vstol vs).toNat →
      vs ≠ ⟨0, 0⟩ ∧ (c.curView.viewId.toNat ≤ vs.viewId.toNat ∨ vs.viewId = 0) := by
    intro vs order
    refine ⟨?_, .inl ?_⟩
    · rintro rfl
      have zero : (vstol ⟨0, 0⟩).toNat = 0 := by decide
      omega
    · by_cases waiting : c.curView.viewId = 0
      · rw [waiting]
        exact Nat.zero_le _
      · rw [← (inOrder.confined waiting).inView]
        exact viewId_le_of_vstol_le order.le
  -- the next stamp of a leader
  have next : c.taken e ≠ none → c.getNextViewStamp ≠ ⟨0, 0⟩ ∧
      (c.curView.viewId.toNat ≤ c.getNextViewStamp.viewId.toNat ∨
        c.getNextViewStamp.viewId = 0) := by
    intro takes
    obtain ⟨sameView, room⟩ := inView.1 takes
    refine ⟨?_, .inl (Nat.le_of_eq (congrArg UInt32.toNat sameView.symm))⟩
    intro zero
    have reqId := congrArg (fun vs => vs.reqId.toNat) zero
    simp only [getNextViewStamp, UInt32.toNat_add, UInt32.toNat_one, UInt32.toNat_zero] at reqId
    omega
  obtain ⟨env, event⟩ := e
  cases event with
  | message msg =>
    cases msg with
    | acceptReq msgVs reqCanbeExed nodeId record =>
      simp only [Comp.written] at written
      split at written
      next fresh =>
        obtain ⟨rfl, -⟩ := Prod.mk.inj (Option.some.inj written)
        have committed := viewStampComp_nonpos msgVs c.highestCommittedVs
        exact above msgVs (by omega)
      next ignored => cases written
    | acceptAck msgVs nodeId =>
      simp only [Comp.written] at written
      split at written
      next fresh =>
        obtain ⟨old, -, same⟩ := Option.map_eq_some_iff.mp written
        obtain ⟨rfl, -⟩ := Prod.mk.inj same
        have committed := viewStampComp_nonpos msgVs c.highestCommittedVs
        exact above msgVs (by omega)
      next ignored => cases written
    | missingReq nodeId missingVs => cases written
    | missingAck nodeId missingVs record =>
      simp only [Comp.written] at written
      split at written
      next fresh =>
        obtain ⟨rfl, -⟩ := Prod.mk.inj (Option.some.inj written)
        have committed := viewStampComp_nonneg c.highestCommittedVs missingVs
        exact above missingVs (by omega)
      next ignored => cases written
    | forceExec nodeId highestCommittedOp => cases written
    | forwardReq nodeId data =>
      obtain ⟨data', takes, same⟩ := Option.map_eq_some_iff.mp written
      obtain ⟨rfl, -⟩ := Prod.mk.inj same
      exact next (by rw [takes]; exact Option.some_ne_none data')
  | submit data =>
    obtain ⟨data', takes, same⟩ := Option.map_eq_some_iff.mp written
    obtain ⟨rfl, -⟩ := Prod.mk.inj same
    exact next (by rw [takes]; exact Option.some_ne_none data')
  | makeProgress => cases written
  | updateView newViewInfo => cases written
  | acceptorUpdateRecord nextView record =>
    obtain ⟨rfl, -⟩ := Prod.mk.inj (Option.some.inj written)
    refine ⟨fun zero => ?_, .inr rfl⟩
    exact later nextView record rfl (congrArg ViewStamp.reqId zero)

end Written

/-! ## The effects of a call -/

/-- The deliveries of a call. -/
def freshDeliveries (c : Comp) (e : Env × CompEvent) : List Delivery :=
  (handle c e).delivered.drop c.delivered.length

/-- `update_view` enters the view if the boundary is written. -/
def Enters (c : Comp) (env : Env) (newViewInfo : View) : Prop :=
  c.curView.viewId + 1 = newViewInfo.viewId ∧ (newViewInfo.viewId = 1 ∨ env.storeOk = true)

instance (c : Comp) (env : Env) (newViewInfo : View) : Decidable (c.Enters env newViewInfo) :=
  inferInstanceAs (Decidable (_ ∧ _))

/-- What a call does to the database and says to the proxy, in the order of the program. -/
def effects (c : Comp) : Env × CompEvent → List ReplayEvent
  | (env, .updateView newViewInfo) =>
    if c.Enters env newViewInfo then [.updateView newViewInfo.reqId (.view env.stack)] else []
  | e => ((c.written e).toList.map fun write => .store write.1 write.2) ++
      (freshDeliveries c e).map fun d => .announce d.vs

/-- A view is left at a boundary that covers what was delivered in it, and no election is for view
0. -/
def Covers (c : Comp) : Env × CompEvent → Prop
  | (_, .updateView newViewInfo) => ∀ d ∈ c.delivered, d.vs.viewId = c.curView.viewId →
      d.vs.reqId.toNat ≤ newViewInfo.reqId.toNat
  | (_, .acceptorUpdateRecord nextView _) => nextView ≠ 0
  | _ => True

instance (c : Comp) : ∀ e, Decidable (c.Covers e)
  | (_, .message _) => .isTrue trivial
  | (_, .submit _) => .isTrue trivial
  | (_, .makeProgress) => .isTrue trivial
  | (_, .updateView _) => inferInstanceAs (Decidable (∀ d ∈ c.delivered, _ → _))
  | (_, .acceptorUpdateRecord _ _) => inferInstanceAs (Decidable (_ ≠ _))

end Comp

namespace Replay

/-! ## What is left to publish -/

/-- Events of the component's thread. -/
def ByComponent : ReplayEvent → Prop
  | .store _ _ => True
  | .announce _ => True
  | .updateView _ _ => True
  | .wakeUp => False
  | .pass _ => False

/-- The proxy's thread sees what the component has, up to the events in the list: they are accepted
one after the other, and nothing is missing after the last. -/
def Due (c : Comp) : List ReplayEvent → Replay → Prop
  | [], s => s.db = c.db ∧ s.viewId = c.curView.viewId ∧
      s.announced = (c.delivered.map Delivery.vs).reverse
  | event :: rest, s => ByComponent event ∧ s.Kept event ∧ Due c rest (s.apply event)

/-- The same to a component that looks at its database, its view and what it has announced. -/
structure SameShared (s s' : Replay) : Prop where
  db : s'.db = s.db
  viewId : s'.viewId = s.viewId
  announced : s'.announced = s.announced

section Due

variable {c : Comp} {s s' : Replay}

theorem SameShared.kept (same : SameShared s s') {event : ReplayEvent} (own : ByComponent event)
    (kept : s.Kept event) : s'.Kept event := by
  cases event with
  | store vs value =>
    rw [Replay.Kept, same.viewId]
    exact kept
  | announce vs =>
    rw [Replay.Kept, Replay.latest, same.viewId, same.announced, same.db]
    exact kept
  | updateView boundary record =>
    rw [Replay.Kept, same.viewId, same.announced]
    exact kept
  | wakeUp => exact own.elim
  | pass junk => exact own.elim

theorem SameShared.apply (same : SameShared s s') {event : ReplayEvent} (own : ByComponent event) :
    SameShared (s.apply event) (s'.apply event) := by
  cases event with
  | store vs value => exact ⟨congrArg (·.storeRecord (vstol vs) value) same.db, same.viewId,
      same.announced⟩
  | announce vs => exact ⟨same.db, same.viewId, congrArg (vs :: ·) same.announced⟩
  | updateView boundary record =>
    refine ⟨?_, congrArg (· + 1) same.viewId, same.announced⟩
    simp only [Replay.apply, Replay.updateView, same.db, same.viewId]
  | wakeUp => exact own.elim
  | pass junk => exact own.elim

theorem db_announce (s : Replay) (vs : ViewStamp) : (s.apply (.announce vs)).db = s.db := rfl

/-- The proxy's own steps change nothing the component looks at. -/
theorem Due.congr {pending : List ReplayEvent} (due : Due c pending s) (same : SameShared s s') :
    Due c pending s' := by
  induction pending generalizing s s' with
  | nil => exact ⟨same.db.trans due.1, same.viewId.trans due.2.1, same.announced.trans due.2.2⟩
  | cons event rest ih =>
    obtain ⟨own, kept, later⟩ := due
    exact ⟨own, same.kept own kept, ih later (same.apply own)⟩

theorem sameShared_wakeUp (s : Replay) : SameShared s (s.apply .wakeUp) := ⟨rfl, rfl, rfl⟩

theorem sameShared_pass (s : Replay) (junk : DbKey → RequestRecord) :
    SameShared s (s.apply (.pass junk)) := by
  simp only [Replay.apply, Replay.pass]
  split
  next idle => exact ⟨rfl, rfl, rfl⟩
  next bound running =>
    split
    next behind => exact ⟨rfl, rfl, rfl⟩
    next done => exact ⟨rfl, rfl, rfl⟩

/-- The last stamp announced is that of the last delivery. -/
private theorem latest_concat (done : List Delivery) (last : Delivery)
    (announced : s.announced = ((done ++ [last]).map Delivery.vs).reverse) :
    s.latest = last.vs := by
  rw [Replay.latest, announced, List.map_append, List.reverse_append]
  rfl

/-- Numbered deliveries are announced in the order the proxy relies on. -/
private theorem next_of_numbered {done rest : List Delivery} {d : Delivery} {epoch count : ℕ}
    (numbered : Numbered (((done ++ d :: rest).map Delivery.vs).map Comp.position) epoch count)
    (request : Comp.IsRequest d.vs)
    (announced : s.announced = (done.map Delivery.vs).reverse) : Next s.latest d.vs := by
  rw [List.map_append, List.map_append, List.map_cons, List.map_cons] at numbered
  have viewId : d.vs.viewId.toNat ≠ 0 := fun zero => request.1 (UInt32.toNat_inj.mp zero)
  rcases List.eq_nil_or_concat done with rfl | ⟨earlier, last, rfl⟩
  · have start : s.latest = ⟨1, 0⟩ := by
      rw [Replay.latest, announced]
      rfl
    rw [start]
    rcases numbered.successor with ⟨before, number, nothing, -⟩ | ⟨first, -⟩
    · exact absurd nothing (by simp)
    · simp only [Comp.position] at first
      by_cases one : d.vs.viewId = 1
      · exact .inl ⟨one, first⟩
      · refine .inr ⟨?_, UInt32.toNat_inj.mp first⟩
        have other : d.vs.viewId.toNat ≠ 1 := fun same => one (UInt32.toNat_inj.mp same)
        rw [UInt32.toNat_one]
        omega
  · rw [List.concat_eq_append] at announced numbered
    rw [latest_concat earlier last announced]
    rcases numbered.successor with ⟨before, number, same, next⟩ | ⟨first, lower⟩
    · rw [List.map_append, List.map_append] at same
      have position := List.singleton_inj.mp (List.append_inj' same rfl).2
      obtain ⟨view, reqId⟩ := Prod.mk.inj position
      refine .inl ⟨(UInt32.toNat_inj.mp view).symm, ?_⟩
      simp only [Comp.position] at next
      omega
    · refine .inr ⟨lower (Comp.position last.vs) ?_, UInt32.toNat_inj.mp first⟩
      simp

/-- The deliveries of a call can be announced one after the other. -/
private theorem due_announces {epoch count : ℕ} (numbered : Numbered c.deliveredAt epoch count)
    (inView : ∀ d ∈ c.delivered, d.vs.viewId.toNat ≤ c.curView.viewId.toNat)
    (fresh done : List Delivery) (delivered : c.delivered = done ++ fresh)
    (stand : ∀ d ∈ fresh, Comp.IsRequest d.vs ∧ c.stored d.vs ≠ none) (db : s.db = c.db)
    (viewId : s.viewId = c.curView.viewId)
    (announced : s.announced = (done.map Delivery.vs).reverse) :
    Due c (fresh.map fun d => .announce d.vs) s := by
  induction fresh generalizing done s with
  | nil =>
    rw [List.append_nil] at delivered
    exact ⟨db, viewId, delivered ▸ announced⟩
  | cons d rest ih =>
    obtain ⟨request, there⟩ := stand d List.mem_cons_self
    have next : Next s.latest d.vs := by
      rw [Comp.deliveredAt, delivered] at numbered
      exact next_of_numbered numbered request announced
    have known : d ∈ c.delivered := by
      rw [delivered]
      exact List.mem_append_right _ List.mem_cons_self
    refine ⟨trivial, ⟨next, viewId ▸ inView d known, ?_⟩, ?_⟩
    · rw [db]
      exact Option.isSome_iff_ne_none.mpr there
    · refine ih (done ++ [d]) (by rw [delivered, List.append_assoc, List.singleton_append])
        (fun d member => stand d (List.mem_cons_of_mem _ member)) db viewId ?_
      show d.vs :: s.announced = _
      rw [announced, List.map_append, List.reverse_append]
      rfl

/-- Deliveries are numbered in views up to the node's own. -/
private theorem numbered_inView (inOrder : c.InOrder) :
    (∃ epoch count, Numbered c.deliveredAt epoch count) ∧
      ∀ d ∈ c.delivered, d.vs.viewId.toNat ≤ c.curView.viewId.toNat := by
  refine ⟨inOrder.inv.delivered, fun d member => ?_⟩
  by_cases waiting : c.curView.viewId = 0
  · rw [inOrder.waiting waiting] at member
    cases member
  · have known : Comp.position d.vs ∈ c.deliveredAt :=
      List.mem_map_of_mem (List.mem_map_of_mem member)
    rcases ((inOrder.numbered waiting).at_most _ known).1 with lower | ⟨same, -⟩
    · exact Nat.le_of_lt lower
    · exact Nat.le_of_eq same

/-- Entering a view, on both sides of the database. -/
private theorem due_updateView (shown : Due c [] s) (inOrder : c.InOrder) (env : Env)
    (newViewInfo : View) (nonzero : newViewInfo.viewId ≠ 0)
    (covers : c.Covers (env, .updateView newViewInfo)) :
    Due (Comp.updateView env c newViewInfo) (c.effects (env, .updateView newViewInfo)) s := by
  obtain ⟨db, viewId, announced⟩ := shown
  simp only [Comp.effects]
  by_cases successor : c.curView.viewId + 1 = newViewInfo.viewId
  · by_cases written : newViewInfo.viewId = 1 ∨ env.storeOk = true
    · rw [if_pos (show c.Enters env newViewInfo from ⟨successor, written⟩)]
      rcases Comp.updateView_cases env c newViewInfo inOrder.running with
        ⟨-, other⟩ | ⟨-, ⟨refused, failed⟩ | entered⟩
      · exact absurd successor other
      · -- the database refuses only what is written
        exfalso
        rcases written with first | stores
        · have running := congrArg Comp.fault failed
          simp [Comp.updateView, Comp.storeViewBoundary, successor, first, inOrder.running,
            Comp.consensusUpdateRole, Comp.fail] at running
        · rw [stores] at refused
          cases refused
      · rw [entered]
        have next : s.viewId + 1 = newViewInfo.viewId := viewId ▸ successor
        have before : newViewInfo.viewId - 1 = s.viewId := by
          rw [← next]
          exact UInt32.add_sub_cancel s.viewId 1
        refine ⟨trivial, ⟨?_, ?_⟩, ?_, next, announced⟩
        · have positive : newViewInfo.viewId.toNat ≠ 0 := fun zero =>
            nonzero (UInt32.toNat_inj.mp zero)
          have sum := congrArg UInt32.toNat next
          have view_lt := s.viewId.toNat_lt
          rw [UInt32.toNat_add, UInt32.toNat_one] at sum
          omega
        · intro vs member view
          rw [announced, List.mem_reverse, List.mem_map] at member
          obtain ⟨d, delivered, rfl⟩ := member
          exact covers d delivered (view.trans viewId)
        · show (s.updateView newViewInfo.reqId (.view env.stack)).db =
            Comp.boundaryDb env c newViewInfo
          simp only [Replay.updateView, Comp.boundaryDb, next, before, db]
          by_cases first : newViewInfo.viewId = 1
          · simp [first]
          · simp [first]
    · rw [if_neg (fun enters : c.Enters env newViewInfo => written enters.2)]
      have notFirst : ¬ newViewInfo.viewId = 1 := fun first => written (.inl first)
      have refused : env.storeOk = false :=
        Bool.eq_false_iff.mpr fun stores => written (.inr stores)
      have failed : Comp.updateView env c newViewInfo = c.fail .assertion := by
        simp [Comp.updateView, Comp.storeViewBoundary, successor, notFirst, refused, Comp.fail]
      rw [failed]
      exact ⟨db, viewId, announced⟩
  · rw [if_neg (fun enters : c.Enters env newViewInfo => successor enters.1)]
    have ignored : Comp.updateView env c newViewInfo = c := by
      rw [Comp.updateView, if_neg successor]
    rw [ignored]
    exact ⟨db, viewId, announced⟩

/-- The proxy's thread can take over a call event by event. -/
theorem Due.handle (shown : Due c [] s) (inOrder : c.InOrder) (e : Env × CompEvent)
    (after : (Comp.handle c e).OrderInv) (inView : Group.TakesInView c e) (covers : c.Covers e)
    (commits : Comp.Commits (fun _ => True) c (Comp.handle c e)) :
    Due (Comp.handle c e) (c.effects e) s := by
  obtain ⟨env, event⟩ := e
  by_cases enters : ∃ newViewInfo, event = .updateView newViewInfo
  · obtain ⟨newViewInfo, rfl⟩ := enters
    exact due_updateView shown inOrder env newViewInfo (inView.2 newViewInfo rfl) covers
  -- any other call: at most one record is written, then what it delivers is announced in order
  · have stays : ∀ newViewInfo, event ≠ .updateView newViewInfo := fun newViewInfo same =>
      enters ⟨newViewInfo, same⟩
    obtain ⟨db, viewId, announced⟩ := shown
    have effects : c.effects (env, event) =
        ((c.written (env, event)).toList.map fun write => .store write.1 write.2) ++
          (c.freshDeliveries (env, event)).map fun d => .announce d.vs := by
      cases event with
      | updateView newViewInfo => exact absurd rfl (stays newViewInfo)
      | message | submit | makeProgress | acceptorUpdateRecord => rfl
    have writes := Comp.handle_db c (env, event) stays
    have curView : (Comp.handle c (env, event)).curView = c.curView := by
      cases (Comp.handle_step c (env, event) inOrder.running).1 with
      | stays nothing assigned view => exact view
      | takes data some_data leader assigned view => exact view
      | enters newViewInfo same => exact absurd same (stays newViewInfo)
    obtain ⟨fresh, delivered, stand⟩ := commits.delivers
    have dropped : c.freshDeliveries (env, event) = fresh := by
      rw [Comp.freshDeliveries, delivered, List.drop_left]
    obtain ⟨⟨epoch, count, numbered⟩, known⟩ :
        (∃ epoch count, Numbered (Comp.handle c (env, event)).deliveredAt epoch count) ∧
          ∀ d ∈ (Comp.handle c (env, event)).delivered,
            d.vs.viewId.toNat ≤ (Comp.handle c (env, event)).curView.viewId.toNat := by
      rcases commits.returns with same | running
      · rw [Comp.deliveredAt, same, curView]
        exact numbered_inView inOrder
      · exact numbered_inView (after.inOrder running)
    -- the announcements fit whatever state the write leaves, if it has the final database
    have announces : ∀ s' : Replay, s'.db = (Comp.handle c (env, event)).db →
        s'.viewId = s.viewId → s'.announced = s.announced →
        Due (Comp.handle c (env, event)) (fresh.map fun d => .announce d.vs) s' := by
      intro s' db' viewId' announced'
      refine due_announces numbered known fresh c.delivered delivered
        (fun d member => ⟨(stand d member).1, (stand d member).2.2.1⟩) db' ?_ ?_
      · rw [viewId', viewId, curView]
      · rw [announced', announced]
    rw [effects, dropped]
    cases written : c.written (env, event) with
    | none =>
      refine announces s ?_ rfl rfl
      rw [writes, c.writtenDb_none written, db]
    | some write =>
      obtain ⟨vs, value⟩ := write
      refine ⟨trivial, ?_, announces _ ?_ rfl rfl⟩
      · rw [Replay.Kept, viewId]
        refine c.written_kept inOrder (env, event) inView ?_ written
        rintro nextView record rfl
        exact covers
      · rw [writes, c.writtenDb_some written, apply_store, db]

end Due

/-! ## What the proxy executes -/

/-- The positions executed so far. -/
def executedAt (s : Replay) : List (ℕ × ℕ) := s.executed.map fun key => Comp.position (ltovs key)

section Execution

variable {s : Replay}

/-- What a look at the condition of the loop does to the proxy. -/
theorem pass_cases (s : Replay) (junk : DbKey → RequestRecord) :
    (s.apply (.pass junk)).proxy = s.proxy ∨
    ∃ bound, s.bound = some bound ∧ s.proxy.curRec ≤ bound ∧
      (s.db.retrieveRecord s.proxy.curRec = none ∧
          (s.apply (.pass junk)).proxy = s.proxy.crossView ∨
        ∃ value, s.db.retrieveRecord s.proxy.curRec = some value ∧
          (s.apply (.pass junk)).proxy = { s.proxy with
            curRec := s.proxy.curRec + 1
            actions := s.proxy.actions ++
              [(s.proxy.curRec, (value.asRequest (junk s.proxy.curRec)).data)] }) := by
  simp only [Replay.apply, Replay.pass]
  cases running : s.bound with
  | none => exact .inl rfl
  | some bound =>
    by_cases behind : s.proxy.curRec ≤ bound
    · refine .inr ⟨bound, rfl, behind, ?_⟩
      simp only [if_pos behind]
      cases found : s.db.retrieveRecord s.proxy.curRec with
      | none => exact .inl ⟨rfl, Proxy.doActionOnce_none junk s.db s.proxy found⟩
      | some value =>
        refine .inr ⟨value, rfl, ?_⟩
        simp only [Proxy.doActionOnce, found, Proxy.doActionToServer]
    · left
      simp only [if_neg behind]

/-- The component's events leave the cursor and the actions alone. -/
theorem proxy_byComponent (s : Replay) {event : ReplayEvent} (own : ByComponent event) :
    (s.apply event).proxy.curRec = s.proxy.curRec ∧
      (s.apply event).proxy.actions = s.proxy.actions := by
  cases event with
  | store vs value => exact ⟨rfl, rfl⟩
  | announce vs =>
    rw [apply_announce]
    exact ⟨Proxy.updateState_curRec s.proxy (vstol vs), by rw [Proxy.updateState]⟩
  | updateView boundary record => exact ⟨rfl, rfl⟩
  | wakeUp => exact own.elim
  | pass junk => exact own.elim

/-- A key that holds nothing has a view behind it. -/
private theorem earlier_of_absent (announces : Announces s) (tracks : Tracks s)
    (reach : s.proxy.curRec.toNat ≤ s.proxy.highestRec.toNat)
    (absent : s.db.retrieveRecord s.proxy.curRec = none) :
    s.cursor.viewId.toNat < s.latest.viewId.toNat := by
  by_cases zero : s.cursor = ⟨0, 0⟩
  · rw [zero]
    exact announces.latest
  · rcases (tracks.under announces zero reach).2.2 with before | member
    · exact before
    · have there := announces.stored s.cursor member
      rw [Replay.cursor, vstol_ltovs, absent] at there
      cases there

/-- The proxy executes the requests of a view as 1, 2, 3, …, and its cursor is one ahead. -/
theorem executed_numbered (s : Replay) (reached : machine.Reaches staysInView s) :
    Numbered s.executedAt s.cursor.viewId.toNat (s.cursor.reqId.toNat - 1) := by
  apply reached.invariant_using
    (I := fun s => Numbered s.executedAt s.cursor.viewId.toNat (s.cursor.reqId.toNat - 1))
  · rintro s ⟨viewId, first, rfl⟩
    have start : (ltovs 0).reqId.toNat - 1 = 0 := by decide
    show Numbered ([] : List (ℕ × ℕ)) (ltovs 0).viewId.toNat ((ltovs 0).reqId.toNat - 1)
    rw [start]
    exact .empty _
  · intro s event before numbered allowed enabled
    obtain ⟨announces, tracks⟩ := tracks_of_reaches s before
    -- a step that leaves the cursor and the actions where they are
    have unmoved : ∀ s' : Replay, s'.proxy.curRec = s.proxy.curRec →
        s'.proxy.actions = s.proxy.actions →
        Numbered s'.executedAt s'.cursor.viewId.toNat (s'.cursor.reqId.toNat - 1) := by
      intro s' curRec actions
      rw [executedAt, executed, cursor, curRec, actions]
      exact numbered
    cases event with
    | store vs value => exact unmoved _ rfl rfl
    | announce vs =>
      have own : ByComponent (.announce vs) := trivial
      obtain ⟨curRec, actions⟩ := s.proxy_byComponent own
      exact unmoved _ curRec actions
    | updateView boundary record => exact unmoved _ rfl rfl
    | wakeUp => exact unmoved _ rfl rfl
    | pass junk =>
      rcases pass_cases s junk with same | ⟨bound, running, behind, outcome⟩
      · exact unmoved _ (congrArg Proxy.curRec same) (congrArg Proxy.actions same)
      · have reach : s.proxy.curRec.toNat ≤ s.proxy.highestRec.toNat :=
          Nat.le_trans (UInt64.le_iff_toNat_le.mp behind) (tracks.bounded bound running)
        show Numbered (executedAt (s.apply (.pass junk)))
          (cursor (s.apply (.pass junk))).viewId.toNat
          ((cursor (s.apply (.pass junk))).reqId.toNat - 1)
        rw [executedAt, executed, cursor]
        rcases outcome with ⟨absent, crossed⟩ | ⟨value, found, next⟩
        · -- the cursor enters the next view
          have earlier := earlier_of_absent announces tracks reach absent
          have latest_lt := s.latest.viewId.toNat_lt
          obtain ⟨place, view⟩ := ltovs_crossView s.proxy (by
            show s.cursor.viewId.toNat + 1 < 2 ^ 32
            omega)
          have actions : s.proxy.crossView.actions = s.proxy.actions := by rw [Proxy.crossView]
          rw [crossed, place, actions]
          exact numbered.enter (by
            show s.cursor.viewId.toNat < ((ltovs s.proxy.curRec).viewId + 1).toNat
            rw [view]
            exact Nat.lt_succ_self _)
        · -- the request under the cursor is the next of its view
          have positive := (positive_of_found announces tracks found).2
          have room : s.cursor.reqId ≠ 0xFFFFFFFF := by
            intro last
            refine allowed ⟨⟨?_, by rw [found]; rfl⟩, last⟩
            rw [running]
            exact decide_eq_true behind
          obtain ⟨place, -, reqId⟩ := ltovs_succ s.proxy.curRec room
          have reqId : ((ltovs s.proxy.curRec).reqId + 1).toNat = s.cursor.reqId.toNat + 1 := reqId
          have here : Comp.position (ltovs s.proxy.curRec) =
              (s.cursor.viewId.toNat, s.cursor.reqId.toNat - 1 + 1) := by
            rw [Nat.sub_add_cancel positive]
            rfl
          have grown := numbered.append
          rw [← here] at grown
          rw [next, place]
          simp only [List.map_append, List.map_cons, List.map_nil, reqId, Nat.add_sub_cancel]
          rw [Nat.sub_add_cancel positive] at grown
          exact grown

end Execution

/-- What the proxy has executed in one view, in order, with the payloads. -/
def executedIn (s : Replay) (viewId : UInt32) : List (ViewStamp × Option (List UInt8)) :=
  (s.proxy.actions.filter fun action => decide ((ltovs action.1).viewId = viewId)).map fun action =>
    (ltovs action.1, some action.2)

theorem mem_executedIn {s : Replay} {viewId : UInt32}
    {entry : ViewStamp × Option (List UInt8)} : entry ∈ s.executedIn viewId ↔
      ∃ action ∈ s.proxy.actions, (ltovs action.1).viewId = viewId ∧
        entry = (ltovs action.1, some action.2) := by
  simp only [executedIn, List.mem_map, List.mem_filter, decide_eq_true_eq]
  constructor
  · rintro ⟨action, ⟨member, view⟩, rfl⟩
    exact ⟨action, member, view, rfl⟩
  · rintro ⟨action, member, view, rfl⟩
    exact ⟨action, ⟨member, view⟩, rfl⟩

/-- What is executed in a view is numbered 1, 2, 3, … -/
theorem executedIn_numbers {s : Replay} {epoch count : ℕ}
    (numbered : Numbered s.executedAt epoch count) (viewId : UInt32) :
    (s.executedIn viewId).map Comp.requestNumber =
      (List.range (s.executedIn viewId).length).map fun i => 0 + (i + 1) := by
  obtain ⟨k, entries⟩ := numbered.every_epoch viewId.toNat
  have positions : (s.executedIn viewId).map (fun entry => Comp.position entry.1) =
      (List.range k).map fun i => (viewId.toNat, i + 1) := by
    rw [← entries, executedAt, executed, executedIn]
    simp only [List.filter_map, List.map_map]
    congr 1
    apply List.filter_congr
    intro action _
    simp only [Function.comp_apply, Comp.position, UInt32.toNat_inj]
  have length := congrArg List.length positions
  simp only [List.length_map, List.length_range] at length
  have numbers := congrArg (List.map Prod.snd) positions
  simp only [List.map_map] at numbers
  rw [length]
  refine Eq.trans numbers (List.map_congr_left fun i _ => ?_)
  simp only [Function.comp_apply]
  omega

end Replay

end LibeventPaxos
