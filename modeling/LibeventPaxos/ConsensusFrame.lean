import LibeventPaxos.ConsensusRun

/-!
What execution leaves alone in any state of a component, and where the payloads a component
stores and sends come from.
-/
namespace LibeventPaxos

open Lib

namespace Comp

/-! ## Execution moves two stamps and delivers -/

/-- Execution changes the commit stamps and the logs only. -/
structure SameRecords (c c' : Comp) : Prop where
  db : c'.db = c.db
  assigned : c'.assigned = c.assigned
  seen : c'.highestSeenVs = c.highestSeenVs
  curView : c'.curView = c.curView
  role : c'.myRole = c.myRole
  nodeId : c'.nodeId = c.nodeId
  groupSize : c'.groupSize = c.groupSize
  sends : ∃ missing, c.OnlyMissingReqs missing ∧ c'.upCalls = c.upCalls ++ missing

theorem SameRecords.refl (c : Comp) : SameRecords c c :=
  ⟨rfl, rfl, rfl, rfl, rfl, rfl, rfl, [], onlyMissingReqs_nil c, (List.append_nil _).symm⟩

theorem SameRecords.trans {a b c : Comp} (first : SameRecords a b) (second : SameRecords b c) :
    SameRecords a c := by
  obtain ⟨sent, only, calls⟩ := first.sends
  obtain ⟨sent', only', calls'⟩ := second.sends
  refine ⟨second.db.trans first.db, second.assigned.trans first.assigned,
    second.seen.trans first.seen, second.curView.trans first.curView,
    second.role.trans first.role, second.nodeId.trans first.nodeId,
    second.groupSize.trans first.groupSize, sent ++ sent', ?_, ?_⟩
  · intro call member
    rcases List.mem_append.mp member with old | new
    · exact only call old
    · obtain ⟨vs, rfl⟩ := only' call new
      exact ⟨vs, by rw [first.nodeId]⟩
  · rw [calls', calls, List.append_assoc]

theorem sameRecords_sendMissingReq (c : Comp) (vs : ViewStamp) :
    SameRecords c (c.sendMissingReq vs) := by
  refine ⟨rfl, rfl, rfl, rfl, rfl, rfl, rfl, [(-1, .missingReq c.nodeId vs)], ?_, rfl⟩
  intro call member
  exact ⟨vs, List.mem_singleton.mp member⟩

/-- Any change of the commit stamps, the delivery log and the fault. -/
theorem sameRecords_stamps (c : Comp) (committed toCommit : ViewStamp)
    (delivered : List Delivery) (fault : Option Fault) :
    SameRecords c { c with
      highestCommittedVs := committed, highestToCommitVs := toCommit, delivered := delivered,
      fault := fault } :=
  ⟨rfl, rfl, rfl, rfl, rfl, rfl, rfl, [], onlyMissingReqs_nil c, (List.append_nil _).symm⟩

private theorem sameRecords_leaderExecStep (env : Env) (execFlag : Bool) (index : ℕ)
    (s s' : Comp × Option RequestRecord)
    (stepped : leaderExecStep env execFlag index s = .next s' ∨
      leaderExecStep env execFlag index s = .ret s') : SameRecords s.1 s'.1 := by
  obtain ⟨c, recordData⟩ := s
  simp only [leaderExecStep] at stepped
  split at stepped
  next nothing =>
    rcases stepped with impossible | same
    · cases impossible
    · cases same
      exact sameRecords_stamps c _ _ _ _
  next record read =>
    by_cases quorum : reachedQuorum record c.groupSize = true
    · simp only [if_pos quorum] at stepped
      cases execFlag with
      | true =>
        rcases stepped with same | impossible
        · cases same
          exact sameRecords_stamps c _ _ _ _
        · cases impossible
      | false =>
        rcases stepped with same | impossible
        · cases same
          exact sameRecords_stamps c _ _ _ _
        · cases impossible
    · simp only [if_neg quorum] at stepped
      rcases stepped with impossible | same
      · cases impossible
      · cases same
        exact .refl c

theorem sameRecords_leaderExecFrom (env : Env) (c : Comp) (start : DbKey) :
    SameRecords c (leaderExecFrom env c start) := by
  have kept := forInclusive_invariant (fun s => SameRecords c s.1) 64 start.toNat
    (vstol c.highestSeenVs).toNat (leaderExecStep env
      (viewStampComp c.highestCommittedVs c.highestToCommitVs == 0)) (c, none) (.refl c)
    (fun index s s' before stepped =>
      before.trans (sameRecords_leaderExecStep env _ index s s' stepped))
  simp only [leaderExecFrom]
  generalize forInclusive 64 start.toNat _ _ (c, none) = exit at kept
  cases exit with
  | finished s => exact kept
  | returned s => exact kept
  | wrapped s => exact kept.trans (sameRecords_stamps _ _ _ _ _)

theorem sameRecords_leaderTryToExecute (env : Env) (c : Comp) :
    SameRecords c (leaderTryToExecute env c) := by
  rw [leaderTryToExecute]
  split
  next apart =>
    split
    next far => exact sameRecords_stamps c _ _ _ _
    next near =>
      exact (sameRecords_stamps c _ _ c.delivered c.fault).trans
        (sameRecords_leaderExecFrom env _ _)
  next same => exact sameRecords_leaderExecFrom env c _

private theorem sameRecords_execStep (index : ℕ) (s s' : Comp × Bool)
    (stepped : execStep index s = .next s' ∨ execStep index s = .ret s') :
    SameRecords s.1 s'.1 := by
  obtain ⟨c, execFlag⟩ := s
  simp only [execStep] at stepped
  split at stepped
  next missing =>
    rcases stepped with same | impossible
    · cases same
      exact sameRecords_sendMissingReq c _
    · cases impossible
  next value found =>
    cases execFlag with
    | false =>
      rcases stepped with same | impossible
      · cases same
        exact .refl c
      · cases impossible
    | true =>
      rcases stepped with same | impossible
      · cases same
        exact sameRecords_stamps c _ _ _ _
      · cases impossible

theorem sameRecords_execRange (c : Comp) (start stop : DbKey) :
    SameRecords c (execRange c start stop) := by
  have kept := forInclusive_invariant (fun s => SameRecords c s.1) 64 start.toNat stop.toNat
    execStep (c, true) (.refl c)
    (fun index s s' before stepped => before.trans (sameRecords_execStep index s s' stepped))
  simp only [execRange]
  generalize forInclusive 64 start.toNat _ _ (c, true) = exit at kept
  cases exit with
  | finished s => exact kept
  | returned s => exact kept
  | wrapped s => exact kept.trans (sameRecords_stamps _ _ _ _ _)

theorem sameRecords_executeCommitted (c : Comp) : SameRecords c (executeCommitted c) := by
  simp only [executeCommitted]
  split
  next apart =>
    split
    next missing => exact sameRecords_sendMissingReq c _
    next boundary found =>
      have executed := sameRecords_execRange c (vstol c.highestCommittedVs + 1)
        (vstol boundary.asBoundary)
      split
      next faulty => exact executed
      next running =>
        split
        next reached => exact executed.trans (sameRecords_stamps _ _ _ _ _)
        next short => exact executed
  next same => exact sameRecords_execRange c _ _

theorem sameRecords_tryToExecute (env : Env) (c : Comp) :
    SameRecords c (tryToExecute env c) := by
  rw [tryToExecute]
  split
  next waiting => exact .refl c
  next active =>
    have scanned : SameRecords c (if c.myRole = .leader then leaderTryToExecute env c else c) := by
      split
      next leader => exact sameRecords_leaderTryToExecute env c
      next secondary => exact .refl c
    generalize (if c.myRole = .leader then leaderTryToExecute env c else c) = c' at scanned
    simp only
    split
    next faulty => exact scanned
    next running => exact scanned.trans (sameRecords_executeCommitted c')

/-! ## Where payloads come from -/

/-- Stamps of requests: view 0 holds the acceptor records and request 0 the boundaries. -/
def IsRequest (vs : ViewStamp) : Prop := vs.viewId ≠ 0 ∧ vs.reqId ≠ 0

/-- Every stored request has a payload the source `P` allows under its stamp. -/
def RecordsFrom (P : ViewStamp → List UInt8 → Prop) (c : Comp) : Prop :=
  ∀ vs, IsRequest vs → ∀ value, c.stored vs = some value →
    ∃ record, value = .request record ∧ P vs record.data

/-- The payload a message carries, if any, is one the source allows. -/
def MsgFrom (P : ViewStamp → List UInt8 → Prop) : ConsensusMsg → Prop
  | .acceptReq msgVs _ _ record => IsRequest msgVs → P msgVs record.data
  | .missingAck _ missingVs record => IsRequest missingVs → P missingVs record.data
  | _ => True

/-- What a component stores and has sent comes from the source. -/
structure From (P : ViewStamp → List UInt8 → Prop) (c : Comp) : Prop where
  records : RecordsFrom P c
  calls : ∀ call ∈ c.upCalls, MsgFrom P call.2

section Payloads

variable {P : ViewStamp → List UInt8 → Prop} {c c' : Comp}

theorem From.mono {Q : ViewStamp → List UInt8 → Prop} (source : From P c)
    (implies : ∀ vs data, P vs data → Q vs data) : From Q c where
  records vs request value found := by
    obtain ⟨record, same, payload⟩ := source.records vs request value found
    exact ⟨record, same, implies _ _ payload⟩
  calls call member := by
    have payload := source.calls call member
    obtain ⟨target, msg⟩ := call
    cases msg with
    | acceptReq msgVs reqCanbeExed nodeId record => exact fun request => implies _ _ (payload request)
    | missingAck nodeId missingVs record => exact fun request => implies _ _ (payload request)
    | _ => trivial

theorem From.sameRecords (source : From P c) (same : SameRecords c c') : From P c' where
  records := by
    intro vs request value found
    rw [stored, same.db] at found
    exact source.records vs request value found
  calls := by
    obtain ⟨missing, only, calls⟩ := same.sends
    intro call member
    rw [calls] at member
    rcases List.mem_append.mp member with old | new
    · exact source.calls call old
    · obtain ⟨vs, rfl⟩ := only call new
      trivial

/-- The record read under a request's stamp has an allowed payload. -/
theorem From.asRequest (source : From P c) (env : Env) (vs : ViewStamp) (value : DbValue)
    (found : c.stored vs = some value) (request : IsRequest vs) :
    P vs (value.asRequest (env.junk (vstol vs))).data := by
  obtain ⟨record, rfl, payload⟩ := source.records vs request value found
  exact payload

/-- A store under an allowed payload, with new messages that are allowed too. -/
theorem From.store (source : From P c) (vs : ViewStamp) (record : RequestRecord)
    (payload : IsRequest vs → P vs record.data) (seen toCommit : ViewStamp)
    (assigned : List (ViewStamp × List UInt8)) (sent : List (Int × ConsensusMsg))
    (sends : ∀ call ∈ sent, MsgFrom P call.2) :
    From P { c with
      highestSeenVs := seen, highestToCommitVs := toCommit,
      db := c.db.storeRecord (vstol vs) (.request record), assigned := assigned,
      upCalls := c.upCalls ++ sent } where
  records other request value found := by
    have lookup : (if other = vs then some (.request record) else c.stored other) = some value := by
      rw [← stored_storeRecord c vs other (.request record)]
      exact found
    split at lookup
    next same =>
      subst same
      exact ⟨record, (Option.some.inj lookup).symm, payload request⟩
    next different => exact source.records other request value lookup
  calls call member := by
    rcases List.mem_append.mp member with old | new
    · exact source.calls call old
    · exact sends call new

theorem From.send (source : From P c) (sent : List (Int × ConsensusMsg))
    (sends : ∀ call ∈ sent, MsgFrom P call.2) (seen toCommit : ViewStamp) (fault : Option Fault) :
    From P { c with
      highestSeenVs := seen, highestToCommitVs := toCommit, upCalls := c.upCalls ++ sent,
      fault := fault } where
  records := source.records
  calls call member := by
    rcases List.mem_append.mp member with old | new
    · exact source.calls call old
    · exact sends call new

theorem From.handleAcceptReq (source : From P c) (env : Env) (msgVs reqCanbeExed : ViewStamp)
    (nodeId : NodeId) (origin : RequestRecord) (payload : IsRequest msgVs → P msgVs origin.data) :
    From P (handleAcceptReq env c msgVs reqCanbeExed nodeId origin) := by
  rw [Comp.handleAcceptReq]
  refine From.sameRecords ?_ (sameRecords_tryToExecute env _)
  obtain ⟨seen, toCommit, noted, -⟩ := noteAcceptReq_cases c msgVs reqCanbeExed
  rcases storeAcceptReq_cases env c msgVs reqCanbeExed nodeId origin with
    ⟨ignored, -⟩ | ⟨-, -, -, ⟨-, failed⟩ | ⟨-, stored⟩⟩
  · rwa [ignored]
  · rw [failed, noted]
    have moved := source.send [] (by simp) seen toCommit c.fault
    rwa [List.append_nil] at moved
  · rw [stored, noted]
    exact source.store msgVs (acceptedRecord env origin) payload seen toCommit c.assigned
      [(nodeId, .acceptAck msgVs c.nodeId)] (by simp [MsgFrom])

theorem From.handleAcceptAck (source : From P c) (env : Env) (msgVs : ViewStamp)
    (nodeId : NodeId) : From P (handleAcceptAck env c msgVs nodeId) := by
  rw [Comp.handleAcceptAck]
  refine From.sameRecords ?_ (sameRecords_tryToExecute env _)
  rcases storeAcceptAck_cases env c msgVs nodeId with ignored | ⟨-, -, -, value, found, stored⟩
  · rwa [ignored]
  · rw [stored]
    have acked := source.store msgVs
      (updateRecord (value.asRequest (env.junk (vstol msgVs))) nodeId)
      (source.asRequest env msgVs value found) c.highestSeenVs c.highestToCommitVs c.assigned []
      (by simp)
    rwa [List.append_nil] at acked

theorem From.handleMissingReq (source : From P c) (env : Env) (nodeId : NodeId)
    (missingVs : ViewStamp) : From P (handleMissingReq env c nodeId missingVs) := by
  rcases handleMissingReq_cases env c nodeId missingVs with silent | ⟨value, found, answers⟩
  · rwa [silent]
  · rw [answers]
    refine source.send [(nodeId, _)] ?_ c.highestSeenVs c.highestToCommitVs c.fault
    intro call member
    obtain rfl := List.mem_singleton.mp member
    exact source.asRequest env missingVs value found

theorem From.handleMissingAck (source : From P c) (env : Env) (missingVs : ViewStamp)
    (origin : RequestRecord) (payload : IsRequest missingVs → P missingVs origin.data) :
    From P (handleMissingAck env c missingVs origin) := by
  rcases handleMissingAck_cases env c missingVs origin with
    ⟨ignored, -⟩ | ⟨-, -, ⟨-, failed⟩ | ⟨-, stored⟩⟩
  · rwa [ignored]
  · rw [failed]
    exact source.sameRecords (sameRecords_tryToExecute env c)
  · rw [stored]
    refine From.sameRecords ?_ (sameRecords_tryToExecute env _)
    have kept := source.store missingVs (missingRecord env origin) payload c.highestSeenVs
      c.highestToCommitVs c.assigned [] (by simp)
    rwa [List.append_nil] at kept

theorem From.handleForceExec (source : From P c) (env : Env) (nodeId : NodeId)
    (highestCommittedOp : ViewStamp) : From P (handleForceExec env c nodeId highestCommittedOp) := by
  rcases handleForceExec_cases env c nodeId highestCommittedOp with ⟨ignored, -⟩ | ⟨-, -, moved⟩
  · rwa [ignored]
  · rw [moved]
    refine From.sameRecords ?_ (sameRecords_tryToExecute env _)
    have advanced := source.send [] (by simp) c.highestSeenVs highestCommittedOp c.fault
    rwa [List.append_nil] at advanced

/-- A submission is allowed if the source knows the stamp it takes. -/
theorem From.leaderHandleSubmitReq (source : From P c) (env : Env) (data : List UInt8)
    (payload : env.storeOk = true → IsRequest c.getNextViewStamp → P c.getNextViewStamp data) :
    From P (leaderHandleSubmitReq env c data).1 := by
  rcases leaderHandleSubmitReq_cases env c data with ⟨-, failed⟩ | ⟨stores, submitted, rfl, result⟩
  · rwa [failed]
  · have taken := source.store c.getNextViewStamp (submitRecord env c data) (payload stores)
      c.getNextViewStamp c.highestToCommitVs (c.assigned ++ [(c.getNextViewStamp, data)]) []
      (by simp)
    rw [List.append_nil] at taken
    rcases result with ⟨-, sent⟩ | ⟨-, executed⟩
    · rw [sent]
      refine taken.send _ ?_ _ _ _
      intro call member
      obtain rfl := List.mem_singleton.mp member
      exact payload stores
    · rw [executed]
      exact taken.sameRecords (sameRecords_tryToExecute env _)

theorem From.consensusMakeProgress (source : From P c) (env : Env) :
    From P (consensusMakeProgress env c) := by
  simp only [Comp.consensusMakeProgress]
  split
  next secondary => exact source
  next leader =>
    have scanned := source.sameRecords (sameRecords_leaderTryToExecute env c)
    generalize leaderTryToExecute env c = c' at scanned
    split
    next faulty => exact scanned
    next running =>
      obtain ⟨sent, fault, resent, result, -⟩ := retransmit_spec env c'
      have again := scanned.send sent (fun call member => by
        obtain ⟨vs, value, -, -, found, rfl⟩ := resent call member
        exact scanned.asRequest env vs value found) c'.highestSeenVs c'.highestToCommitVs fault
      rw [result]
      split
      next faulty => exact again
      next running =>
        refine again.send _ ?_ _ _ _
        intro call member
        obtain rfl := List.mem_singleton.mp member
        trivial

theorem From.updateView (source : From P c) (env : Env) (newViewInfo : View)
    (running : c.fault = none) : From P (updateView env c newViewInfo) := by
  rcases updateView_cases env c newViewInfo running with
    ⟨ignored, -⟩ | ⟨-, ⟨-, failed⟩ | entered⟩
  · rwa [ignored]
  · rw [failed]
    have raised := source.send [] (by simp) c.highestSeenVs c.highestToCommitVs (some .assertion)
    rwa [List.append_nil] at raised
  · rw [entered]
    refine ⟨?_, source.calls⟩
    intro vs request value found
    have lookup : (boundaryDb env c newViewInfo).retrieveRecord (vstol vs) = some value := found
    have notBoundary : vs ≠ ⟨newViewInfo.viewId, 0⟩ := fun same =>
      request.2 (congrArg ViewStamp.reqId same)
    simp only [boundaryDb] at lookup
    split at lookup
    next first => exact source.records vs request value lookup
    next other =>
      rw [Database.retrieveRecord_deleteRecord, Database.retrieveRecord_storeRecord,
        if_neg (mt (vstol_inj _ _).mp notBoundary)] at lookup
      split at lookup
      next removed => cases lookup
      next kept => exact source.records vs request value lookup

theorem From.acceptorUpdateRecord (source : From P c) (nextView : UInt32)
    (record : AcceptorRecord) : From P (c.acceptorUpdateRecord nextView record) := by
  refine ⟨?_, source.calls⟩
  intro vs request value found
  simp only [stored, Comp.acceptorUpdateRecord, acceptorKey,
    Database.retrieveRecord_storeRecord] at found
  have different : vs ≠ ⟨0, nextView⟩ := fun same => request.1 (congrArg ViewStamp.viewId same)
  rw [if_neg (mt (vstol_inj _ _).mp different)] at found
  exact source.records vs request value found

/-- The request an event makes the component take, if the database stores it. -/
def taken (c : Comp) : Env × CompEvent → Option (List UInt8)
  | (env, .submit data) => if c.myRole = .leader ∧ env.storeOk then some data else none
  | (env, .message (.forwardReq _ data)) =>
    if c.myRole = .leader ∧ env.storeOk then some data else none
  | _ => none

/-- One call stores and sends only what the source allows. -/
theorem From.handle (source : From P c) (running : c.fault = none) (e : Env × CompEvent)
    (received : ∀ env msg, e = (env, .message msg) → MsgFrom P msg)
    (assigns : ∀ data, c.taken e = some data → IsRequest c.getNextViewStamp →
      P c.getNextViewStamp data) : From P (handle c e) := by
  obtain ⟨env, event⟩ := e
  cases event with
  | message msg =>
    have payload := received env msg rfl
    cases msg with
    | acceptReq msgVs reqCanbeExed nodeId record =>
      exact source.handleAcceptReq env msgVs reqCanbeExed nodeId record payload
    | acceptAck msgVs nodeId => exact source.handleAcceptAck env msgVs nodeId
    | missingReq nodeId missingVs => exact source.handleMissingReq env nodeId missingVs
    | missingAck nodeId missingVs record =>
      exact source.handleMissingAck env missingVs record payload
    | forceExec nodeId highestCommittedOp =>
      exact source.handleForceExec env nodeId highestCommittedOp
    | forwardReq nodeId data =>
      simp only [Comp.handle, consensusHandleMsg, handleForwardReq]
      split
      next secondary => exact source
      next leader =>
        exact source.leaderHandleSubmitReq env data fun stores request =>
          assigns data (by simp [taken, not_not.mp leader, stores]) request
  | submit data =>
    simp only [Comp.handle, consensusSubmitRequest]
    split
    next leader =>
      exact source.leaderHandleSubmitReq env data fun stores request =>
        assigns data (by simp [taken, leader, stores]) request
    next secondary =>
      exact source.send [(c.curView.leaderId, c.buildForwardReq data)]
        (by simp [MsgFrom, buildForwardReq]) c.highestSeenVs c.highestToCommitVs c.fault
  | makeProgress => exact source.consensusMakeProgress env
  | updateView newViewInfo => exact source.updateView env newViewInfo running
  | acceptorUpdateRecord nextView record => exact source.acceptorUpdateRecord nextView record

end Payloads

/-! ## Views, roles and assigned stamps -/

/-- What one call does to the view, the role, the highest seen stamp and the assigned stamps. -/
inductive StepKind (c : Comp) (e : Env × CompEvent) (c' : Comp) : Prop
  | stays (nothing : c.taken e = none) (assigned : c'.assigned = c.assigned)
      (view : c'.curView = c.curView) (role : c'.myRole = c.myRole)
      (seen : (vstol c.highestSeenVs).toNat ≤ (vstol c'.highestSeenVs).toNat)
  | takes (data : List UInt8) (some_data : c.taken e = some data) (leader : c.myRole = .leader)
      (assigned : c'.assigned = c.assigned ++ [(c.getNextViewStamp, data)])
      (view : c'.curView = c.curView) (role : c'.myRole = c.myRole)
      (seen : c'.highestSeenVs = c.getNextViewStamp)
  | enters (newViewInfo : View) (event : e.2 = .updateView newViewInfo)
      (nothing : c.taken e = none) (successor : c.curView.viewId + 1 = newViewInfo.viewId)
      (assigned : c'.assigned = c.assigned) (view : c'.curView = newViewInfo)
      (role : c'.myRole = if newViewInfo.leaderId ≠ c.nodeId then .secondary else .leader)
      (seen : c'.highestSeenVs = ⟨newViewInfo.viewId, 0⟩)

/-- The identity of a component never changes. -/
structure SameNode (c c' : Comp) : Prop where
  nodeId : c'.nodeId = c.nodeId
  groupSize : c'.groupSize = c.groupSize

theorem SameRecords.sameNode {c c' : Comp} (same : SameRecords c c') : SameNode c c' :=
  ⟨same.nodeId, same.groupSize⟩

theorem SameRecords.stays {c before c' : Comp} {e : Env × CompEvent} (same : SameRecords before c')
    (nothing : c.taken e = none) (assigned : before.assigned = c.assigned)
    (view : before.curView = c.curView) (role : before.myRole = c.myRole)
    (seen : (vstol c.highestSeenVs).toNat ≤ (vstol before.highestSeenVs).toNat) :
    StepKind c e c' :=
  .stays nothing (same.assigned.trans assigned) (same.curView.trans view) (same.role.trans role)
    (same.seen ▸ seen)

private theorem leaderHandleSubmitReq_step (env : Env) (c : Comp) (event : CompEvent)
    (data : List UInt8) (leader : c.myRole = .leader)
    (takes : c.taken (env, event) = if c.myRole = .leader ∧ env.storeOk then some data else none) :
    StepKind c (env, event) (leaderHandleSubmitReq env c data).1 ∧
      SameNode c (leaderHandleSubmitReq env c data).1 := by
  rcases leaderHandleSubmitReq_cases env c data with
    ⟨refused, failed⟩ | ⟨stores, submitted, rfl, result⟩
  · rw [failed]
    exact ⟨.stays (by simp [takes, refused]) rfl rfl rfl le_rfl, rfl, rfl⟩
  · have some_data : c.taken (env, event) = some data := by simp [takes, leader, stores]
    rcases result with ⟨-, sent⟩ | ⟨-, executed⟩
    · rw [sent]
      exact ⟨.takes data some_data leader rfl rfl rfl rfl, rfl, rfl⟩
    · rw [executed]
      have same := sameRecords_tryToExecute env
        { c with
          db := c.db.storeRecord (vstol c.getNextViewStamp) (.request (submitRecord env c data))
          highestSeenVs := c.getNextViewStamp
          assigned := c.assigned ++ [(c.getNextViewStamp, data)] }
      exact ⟨.takes data some_data leader same.assigned same.curView same.role same.seen,
        same.nodeId, same.groupSize⟩

private theorem message_step (env : Env) (c : Comp) (msg : ConsensusMsg) :
    StepKind c (env, .message msg) (consensusHandleMsg env c msg) ∧
      SameNode c (consensusHandleMsg env c msg) := by
  cases msg with
  | acceptReq msgVs reqCanbeExed nodeId record =>
    obtain ⟨seen, toCommit, noted, -, ⟨up, -⟩, -⟩ := noteAcceptReq_cases c msgVs reqCanbeExed
    have same := sameRecords_tryToExecute env
      (storeAcceptReq env c msgVs reqCanbeExed nodeId record)
    simp only [consensusHandleMsg, Comp.handleAcceptReq]
    generalize Comp.tryToExecute env _ = c' at same ⊢
    rcases storeAcceptReq_cases env c msgVs reqCanbeExed nodeId record with
      ⟨ignored, -⟩ | ⟨-, -, -, ⟨-, failed⟩ | ⟨-, stored⟩⟩
    · rw [ignored] at same
      exact ⟨same.stays rfl rfl rfl rfl le_rfl, same.sameNode⟩
    · rw [failed, noted] at same
      exact ⟨same.stays rfl rfl rfl rfl up, same.nodeId, same.groupSize⟩
    · rw [stored, noted] at same
      exact ⟨same.stays rfl rfl rfl rfl up, same.nodeId, same.groupSize⟩
  | acceptAck msgVs nodeId =>
    have same := sameRecords_tryToExecute env (storeAcceptAck env c msgVs nodeId)
    simp only [consensusHandleMsg, Comp.handleAcceptAck]
    generalize Comp.tryToExecute env _ = c' at same ⊢
    rcases storeAcceptAck_cases env c msgVs nodeId with ignored | ⟨-, -, -, value, -, stored⟩
    · rw [ignored] at same
      exact ⟨same.stays rfl rfl rfl rfl le_rfl, same.sameNode⟩
    · rw [stored] at same
      exact ⟨same.stays rfl rfl rfl rfl le_rfl, same.nodeId, same.groupSize⟩
  | missingReq nodeId missingVs =>
    simp only [consensusHandleMsg, Comp.handleMissingReq]
    split
    next => exact ⟨.stays rfl rfl rfl rfl le_rfl, rfl, rfl⟩
    next => exact ⟨.stays rfl rfl rfl rfl le_rfl, rfl, rfl⟩
  | missingAck nodeId missingVs record =>
    simp only [consensusHandleMsg]
    rcases handleMissingAck_cases env c missingVs record with
      ⟨ignored, -⟩ | ⟨-, -, ⟨-, failed⟩ | ⟨-, stored⟩⟩
    · rw [ignored]
      exact ⟨.stays rfl rfl rfl rfl le_rfl, rfl, rfl⟩
    · have same := sameRecords_tryToExecute env c
      rw [failed]
      exact ⟨same.stays rfl rfl rfl rfl le_rfl, same.sameNode⟩
    · have same := sameRecords_tryToExecute env { c with
        db := c.db.storeRecord (vstol missingVs) (.request (missingRecord env record)) }
      rw [stored]
      exact ⟨same.stays rfl rfl rfl rfl le_rfl, same.nodeId, same.groupSize⟩
  | forceExec nodeId highestCommittedOp =>
    simp only [consensusHandleMsg]
    rcases handleForceExec_cases env c nodeId highestCommittedOp with
      ⟨ignored, -⟩ | ⟨-, -, moved⟩
    · rw [ignored]
      exact ⟨.stays rfl rfl rfl rfl le_rfl, rfl, rfl⟩
    · have same := sameRecords_tryToExecute env
        { c with highestToCommitVs := highestCommittedOp }
      rw [moved]
      exact ⟨same.stays rfl rfl rfl rfl le_rfl, same.nodeId, same.groupSize⟩
  | forwardReq nodeId data =>
    simp only [consensusHandleMsg, handleForwardReq]
    split
    next secondary => exact ⟨.stays (by simp [taken, secondary]) rfl rfl rfl le_rfl, rfl, rfl⟩
    next leader => exact leaderHandleSubmitReq_step env c _ data (not_not.mp leader) rfl

private theorem makeProgress_step (env : Env) (c : Comp) :
    StepKind c (env, .makeProgress) (consensusMakeProgress env c) ∧
      SameNode c (consensusMakeProgress env c) := by
  simp only [Comp.consensusMakeProgress]
  split
  next secondary => exact ⟨.stays rfl rfl rfl rfl le_rfl, rfl, rfl⟩
  next leader =>
    have same := sameRecords_leaderTryToExecute env c
    generalize leaderTryToExecute env c = c' at same
    split
    next faulty => exact ⟨same.stays rfl rfl rfl rfl le_rfl, same.sameNode⟩
    next running =>
      obtain ⟨sent, fault, -, result, -⟩ := retransmit_spec env c'
      rw [result]
      have seen : (vstol c.highestSeenVs).toNat ≤ (vstol c'.highestSeenVs).toNat := by
        rw [same.seen]
      split
      next faulty =>
        exact ⟨.stays rfl same.assigned same.curView same.role seen, same.nodeId, same.groupSize⟩
      next running =>
        exact ⟨.stays rfl same.assigned same.curView same.role seen, same.nodeId, same.groupSize⟩

/-- What one call of a running component does. -/
theorem handle_step (c : Comp) (e : Env × CompEvent) (running : c.fault = none) :
    StepKind c e (handle c e) ∧ SameNode c (handle c e) := by
  obtain ⟨env, event⟩ := e
  cases event with
  | message msg => exact message_step env c msg
  | submit data =>
    simp only [Comp.handle, consensusSubmitRequest]
    split
    next leader => exact leaderHandleSubmitReq_step env c _ data leader rfl
    next secondary => exact ⟨.stays (by simp [taken, secondary]) rfl rfl rfl le_rfl, rfl, rfl⟩
  | makeProgress => exact makeProgress_step env c
  | updateView newViewInfo =>
    simp only [Comp.handle]
    rcases updateView_cases env c newViewInfo running with
      ⟨ignored, -⟩ | ⟨successor, ⟨-, failed⟩ | entered⟩
    · rw [ignored]
      exact ⟨.stays rfl rfl rfl rfl le_rfl, rfl, rfl⟩
    · rw [failed]
      exact ⟨.stays rfl rfl rfl rfl le_rfl, rfl, rfl⟩
    · rw [entered]
      exact ⟨.enters newViewInfo rfl rfl successor rfl rfl rfl rfl, rfl, rfl⟩
  | acceptorUpdateRecord nextView record => exact ⟨.stays rfl rfl rfl rfl le_rfl, rfl, rfl⟩

end Comp

end LibeventPaxos
