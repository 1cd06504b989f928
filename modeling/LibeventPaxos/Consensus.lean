import LibeventPaxos.ConsensusMsg
import LibeventPaxos.Lib.CountedLoop

/-!
`consensus/consensus.c`: the consensus component. Its up-calls and its calls of
`deliver_msg_data` are kept as logs in the component, oldest first, so a run can be read off
its last state.
-/
namespace LibeventPaxos

open Lib

/-- What one call of a handler draws from outside the program: the clock, whether the database
accepts the write, and the contents of memory the code never set. -/
structure Env where
  now : TimeVal
  storeOk : Bool
  heapBitMap : UInt64
  heapClosed : UInt8
  junk : DbKey → RequestRecord
  stack : ViewBytes

/-- Ways a call does not return or is undefined: a failed assertion, a read through NULL, a loop
whose counter passes the largest key, a loop that makes no progress, an access outside an array,
and a use of an event that has been freed. -/
inductive Fault where
  | assertion
  | nullPointer
  | counterWrapped
  | noProgress
  | outOfBounds
  | useAfterFree
  deriving DecidableEq, Repr

inductive ConRole where
  | leader
  | secondary
  deriving DecidableEq, Repr

/-- One call of `deliver_msg_data`; `data` is the payload found under the key, if any. -/
structure Delivery where
  vs : ViewStamp
  data : Option (List UInt8)
  deriving DecidableEq, Repr

/-- `consensus_component`, with the view and the stamps of the node it points to. `upCalls`,
`delivered` and `assigned` are histories: the calls of `uc` with their target, the calls of
`deliver_msg_data`, and the stamps `leader_handle_submit_req` has given to requests. -/
structure Comp where
  myRole : ConRole
  nodeId : Nat
  groupSize : Nat
  curView : View
  highestSeenVs : ViewStamp
  highestToCommitVs : ViewStamp
  highestCommittedVs : ViewStamp
  db : Database
  upCalls : List (Int × ConsensusMsg)
  delivered : List Delivery
  assigned : List (ViewStamp × List UInt8)
  fault : Option Fault

namespace Comp

/-! ## Bit maps -/

/-- `1<<node_id`: a shift of a 32-bit int by the count modulo 32, sign-extended when it is
or-ed into the 64-bit map. -/
def nodeBit (nodeId : Int) : UInt64 :=
  UInt64.ofBitVec (((1#32) <<< (nodeId % 32).toNat).signExtend 64)

def updateRecord (record : RequestRecord) (nodeId : Int) : RequestRecord :=
  { record with bitMap := record.bitMap ||| nodeBit nodeId }

/-- `__builtin_popcountl`. -/
def popcount (word : UInt64) : Nat := word.toBitVec.cpop.toNat

def reachedQuorum (record : RequestRecord) (groupSize : Nat) : Bool :=
  decide (groupSize / 2 + 1 ≤ popcount record.bitMap)

/-! ## Stamps -/

def getNextViewStamp (c : Comp) : ViewStamp :=
  ⟨c.highestSeenVs.viewId, c.highestSeenVs.reqId + 1⟩

def viewStampInc (vs : ViewStamp) : ViewStamp := { vs with reqId := vs.reqId + 1 }

def crossView (vs : ViewStamp) : ViewStamp := ⟨vs.viewId + 1, 0⟩

/-! ## Logs and faults -/

/-- `comp->uc(comp->my_node, …, msg, target)`. -/
def uc (c : Comp) (target : Int) (msg : ConsensusMsg) : Comp :=
  { c with upCalls := c.upCalls ++ [(target, msg)] }

def fail (c : Comp) (fault : Fault) : Comp := { c with fault := some fault }

/-- The payload stored under a stamp, if a request record is stored there. -/
def payloadAt (c : Comp) (vs : ViewStamp) : Option (List UInt8) :=
  match c.db.retrieveRecord (vstol vs) with
  | some (.request record) => some record.data
  | _ => none

def deliverMsgData (c : Comp) (vs : ViewStamp) : Comp :=
  { c with delivered := c.delivered ++ [⟨vs, c.payloadAt vs⟩] }

/-! ## Messages -/

def buildAcceptReq (c : Comp) (record : RequestRecord) (vs : ViewStamp) : ConsensusMsg :=
  .acceptReq vs c.highestToCommitVs c.nodeId record

def buildAcceptAck (c : Comp) (vs : ViewStamp) : ConsensusMsg := .acceptAck vs c.nodeId

def buildMissingReq (c : Comp) (vs : ViewStamp) : ConsensusMsg := .missingReq c.nodeId vs

/-- The message takes `memsize` bytes of the record, which is less than there are: what is read of
it is `ConsensusMsg.Received`. -/
def buildMissingAck (env : Env) (c : Comp) (vs : ViewStamp) : Option ConsensusMsg :=
  match c.db.retrieveRecord (vstol vs) with
  | none => none
  | some value =>
    let record := value.asRequest (env.junk (vstol vs))
    -- a negative size asks `malloc` for nearly 2^64 bytes, which fails
    if 0 ≤ memsize record then some (.missingAck c.nodeId vs record) else none

def buildForceExec (c : Comp) : ConsensusMsg := .forceExec c.nodeId c.highestCommittedVs

def buildForwardReq (c : Comp) (data : List UInt8) : ConsensusMsg := .forwardReq c.nodeId data

def sendMissingReq (c : Comp) (vs : ViewStamp) : Comp := c.uc (-1) (c.buildMissingReq vs)

/-! ## Execution -/

/-- The body of the loop of `leader_try_to_execute`. `record_data` keeps the record of an
earlier key when nothing is stored under this one. -/
def leaderExecStep (env : Env) (execFlag : Bool) (index : ℕ) :
    Comp × Option RequestRecord → LoopStep (Comp × Option RequestRecord)
  | (c, recordData) =>
    let key := UInt64.ofNat index
    let recordData := match c.db.retrieveRecord key with
      | some value => some (value.asRequest (env.junk key))
      | none => recordData
    match recordData with
    -- "The Record Should Be Inserted By The Node Itself!"
    | none => .ret (c.fail .assertion, none)
    | some record =>
      -- the first request without a quorum ends the scan, also if later ones have one
      if reachedQuorum record c.groupSize then
        let c := { c with highestToCommitVs := viewStampInc c.highestToCommitVs }
        -- computed before the loop: nothing was waiting to be executed
        if execFlag then
          let c := c.deliverMsgData (ltovs key)
          .next ({ c with highestCommittedVs := viewStampInc c.highestCommittedVs }, some record)
        else .next (c, some record)
      else .ret (c, some record)

/-- The loop of `leader_try_to_execute` from key `start`. -/
def leaderExecFrom (env : Env) (c : Comp) (start : DbKey) : Comp :=
  let stop := vstol c.highestSeenVs
  let execFlag := viewStampComp c.highestCommittedVs c.highestToCommitVs == 0
  match forInclusive 64 start.toNat stop.toNat (leaderExecStep env execFlag) (c, none) with
  | .finished (c, _) => c
  | .returned (c, _) => c
  | .wrapped (c, _) => c.fail .counterWrapped

def leaderTryToExecute (env : Env) (c : Comp) : Comp :=
  if c.highestSeenVs.viewId ≠ c.highestToCommitVs.viewId then
    if c.highestToCommitVs.viewId + 1 ≠ c.highestSeenVs.viewId then c.fail .assertion
    else
      -- the step into the view of the highest seen stamp; the scan starts at request 0
      let toCommit : ViewStamp := ⟨c.highestToCommitVs.viewId + 1, 0⟩
      let c := { c with highestToCommitVs := toCommit, highestCommittedVs := toCommit }
      leaderExecFrom env c (vstol toCommit)
  else leaderExecFrom env c (vstol c.highestToCommitVs + 1)

/-- The body of the loop of `try_to_execute`; the flag is `exec_flag`. -/
def execStep (index : ℕ) : Comp × Bool → LoopStep (Comp × Bool)
  | (c, execFlag) =>
    let key := UInt64.ofNat index
    let missingVs := ltovs key
    match c.db.retrieveRecord key with
    -- every request that is missing is asked for, and nothing behind the first is executed
    | none => .next (c.sendMissingReq missingVs, false)
    | some _ =>
      if execFlag then
        let c := c.deliverMsgData missingVs
        .next ({ c with highestCommittedVs := viewStampInc c.highestCommittedVs }, true)
      else .next (c, false)

def execRange (c : Comp) (start stop : DbKey) : Comp :=
  match forInclusive 64 start.toNat stop.toNat execStep (c, true) with
  | .finished (c, _) => c
  | .returned (c, _) => c
  | .wrapped (c, _) => c.fail .counterWrapped

/-- The part of `try_to_execute` after the leader's own scan. -/
def executeCommitted (c : Comp) : Comp :=
  let start := vstol c.highestCommittedVs + 1
  if c.highestCommittedVs.viewId ≠ c.highestToCommitVs.viewId then
    -- the last request of this view stands in the first record of the next
    let bound : ViewStamp := ⟨c.highestCommittedVs.viewId + 1, 0⟩
    match c.db.retrieveRecord (vstol bound) with
    | none => c.sendMissingReq bound
    | some boundaryRecord =>
      let boundary := boundaryRecord.asBoundary
      let c := execRange c start (vstol boundary)
      -- crossed only when all of the view has been executed
      if c.fault.isSome then c
      else if vstol c.highestCommittedVs = vstol boundary then
        { c with highestCommittedVs := crossView c.highestCommittedVs }
      else c
  else execRange c start (vstol c.highestToCommitVs)

def tryToExecute (env : Env) (c : Comp) : Comp :=
  if c.curView.viewId = 0 then c
  else
    -- the leader's scan moves the committed stamp, from which the scan below starts
    let c := if c.myRole = .leader then leaderTryToExecute env c else c
    if c.fault.isSome then c else executeCommitted c

/-! ## Submission -/

/-- The record `leader_handle_submit_req` builds. -/
def submitRecord (env : Env) (c : Comp) (data : List UInt8) : RequestRecord :=
  { createdTime := env.now, isClosed := 0, bitMap := nodeBit c.nodeId, data := data }

/-- `leader_handle_submit_req`: the component, the value returned and the stamp written to
`vs`. -/
def leaderHandleSubmitReq (env : Env) (c : Comp) (data : List UInt8) : Comp × Nat × ViewStamp :=
  -- the stamp is handed out although the store may fail; then the next request gets it again
  let next := c.getNextViewStamp
  let record := submitRecord env c data
  if env.storeOk then
    let c := { c with
      db := c.db.storeRecord (vstol next) (.request record)
      highestSeenVs := viewStampInc c.highestSeenVs
      assigned := c.assigned ++ [(next, data)] }
    -- a group of one has nobody to wait for
    if c.groupSize > 1 then (c.uc (-1) (c.buildAcceptReq record next), 0, next)
    else (tryToExecute env c, 0, next)
  else (c, 1, next)

def forwardSubmitReq (c : Comp) (data : List UInt8) : Comp :=
  c.uc c.curView.leaderId (c.buildForwardReq data)

def consensusSubmitRequest (env : Env) (c : Comp) (data : List UInt8) : Comp :=
  if c.myRole = .leader then (leaderHandleSubmitReq env c data).1 else forwardSubmitReq c data

/-! ## Handlers -/

/-- The stamps `handle_accept_req` moves before it stores the record. -/
def noteAcceptReq (c : Comp) (msgVs reqCanbeExed : ViewStamp) : Comp :=
  let c := if viewStampComp msgVs c.highestSeenVs > 0 then { c with highestSeenVs := msgVs } else c
  if viewStampComp reqCanbeExed c.highestToCommitVs > 0 then
    { c with highestToCommitVs := reqCanbeExed }
  else c

/-- `handle_accept_req` up to its call of `try_to_execute`. -/
def storeAcceptReq (env : Env) (c : Comp) (msgVs reqCanbeExed : ViewStamp) (nodeId : NodeId)
    (origin : RequestRecord) : Comp :=
  if msgVs.viewId < c.curView.viewId then c
  else if msgVs.viewId = c.curView.viewId ∧ nodeId ≠ c.curView.leaderId then c
  else if viewStampComp msgVs c.highestCommittedVs ≤ 0 then c
  else
    let c := c.noteAcceptReq msgVs reqCanbeExed
    -- the bit map of the new record is never set
    let record : RequestRecord :=
      { createdTime := env.now, isClosed := origin.isClosed, bitMap := env.heapBitMap,
        data := origin.data }
    if env.storeOk then
      let c := { c with db := c.db.storeRecord (vstol msgVs) (.request record) }
      c.uc nodeId (c.buildAcceptAck msgVs)
    else c

def handleAcceptReq (env : Env) (c : Comp) (msgVs reqCanbeExed : ViewStamp) (nodeId : NodeId)
    (origin : RequestRecord) : Comp :=
  tryToExecute env (storeAcceptReq env c msgVs reqCanbeExed nodeId origin)

/-- `handle_accept_ack` up to its call of `try_to_execute`. -/
def storeAcceptAck (env : Env) (c : Comp) (msgVs : ViewStamp) (nodeId : NodeId) : Comp :=
  -- an acknowledgement counts at the leader only, and not for what it has executed already
  if c.myRole ≠ .leader then c
  else if viewStampComp msgVs c.highestCommittedVs ≤ 0 then c
  else
    match c.db.retrieveRecord (vstol msgVs) with
    | none => c
    | some value =>
      let record := updateRecord (value.asRequest (env.junk (vstol msgVs))) nodeId
      if env.storeOk then { c with db := c.db.storeRecord (vstol msgVs) (.request record) }
      else c

def handleAcceptAck (env : Env) (c : Comp) (msgVs : ViewStamp) (nodeId : NodeId) : Comp :=
  tryToExecute env (storeAcceptAck env c msgVs nodeId)

def handleMissingReq (env : Env) (c : Comp) (nodeId : NodeId) (missingVs : ViewStamp) : Comp :=
  match c.buildMissingAck env missingVs with
  | none => c
  | some reply => c.uc nodeId reply

/-- The record `handle_missing_ack` stores: neither its bit map nor `is_closed` is ever set. -/
def missingRecord (env : Env) (origin : RequestRecord) : RequestRecord :=
  { createdTime := env.now, isClosed := env.heapClosed, bitMap := env.heapBitMap,
    data := origin.data }

/-- `origin` is the record as it is read at the pointer to the data of the message, and past the end
of the message. -/
def handleMissingAck (env : Env) (c : Comp) (missingVs : ViewStamp) (origin : RequestRecord) :
    Comp :=
  -- neither what has been executed nor what is stored is overwritten
  if viewStampComp c.highestCommittedVs missingVs ≥ 0 then c
  else
    match c.db.retrieveRecord (vstol missingVs) with
    | some _ => c
    | none =>
      let record := missingRecord env origin
      let c := if env.storeOk then
          { c with db := c.db.storeRecord (vstol missingVs) (.request record) }
        else c
      tryToExecute env c

def handleForceExec (env : Env) (c : Comp) (nodeId : NodeId) (highestCommittedOp : ViewStamp) :
    Comp :=
  if nodeId ≠ c.curView.leaderId then c
  else if viewStampComp c.highestToCommitVs highestCommittedOp < 0 then
    tryToExecute env { c with highestToCommitVs := highestCommittedOp }
  else c

def handleForwardReq (env : Env) (c : Comp) (data : List UInt8) : Comp :=
  if c.myRole ≠ .leader then c else (leaderHandleSubmitReq env c data).1

def consensusHandleMsg (env : Env) (c : Comp) : ConsensusMsg → Comp
  | .acceptReq msgVs reqCanbeExed nodeId record =>
    handleAcceptReq env c msgVs reqCanbeExed nodeId record
  | .acceptAck msgVs nodeId => handleAcceptAck env c msgVs nodeId
  | .missingReq nodeId missingVs => handleMissingReq env c nodeId missingVs
  | .missingAck _ missingVs record => handleMissingAck env c missingVs record
  | .forceExec nodeId highestCommittedOp => handleForceExec env c nodeId highestCommittedOp
  | .forwardReq _ data => handleForwardReq env c data

/-! ## Make progress -/

/-- The body of the retransmission loop of `consensus_make_progress`. -/
def retransmitStep (env : Env) (index : ℕ) (c : Comp) : LoopStep Comp :=
  let key := UInt64.ofNat index
  match c.db.retrieveRecord key with
  | none => .ret (c.fail .nullPointer)
  | some value =>
    let record := value.asRequest (env.junk key)
    if reachedQuorum record c.groupSize then .next c
    else .next (c.uc (-1) (c.buildAcceptReq record (ltovs key)))

/-- The stamp the retransmission loop starts from. -/
def retransmitStart (c : Comp) : ViewStamp :=
  let temp : ViewStamp := ⟨c.curView.viewId, 0⟩
  let temp := if viewStampComp temp c.highestCommittedVs < 0 then c.highestCommittedVs else temp
  viewStampInc temp

def retransmit (env : Env) (c : Comp) : Comp :=
  if viewStampComp c.highestCommittedVs c.highestSeenVs < 0 ∧
      c.highestSeenVs.viewId = c.curView.viewId then
    match forInclusive 64 (vstol c.retransmitStart).toNat (vstol c.highestSeenVs).toNat
        (retransmitStep env) c with
    | .finished c => c
    | .returned c => c
    | .wrapped c => c.fail .counterWrapped
  else c

def consensusMakeProgress (env : Env) (c : Comp) : Comp :=
  if c.myRole ≠ .leader then c
  else
    let c := leaderTryToExecute env c
    if c.fault.isSome then c
    else
      let c := retransmit env c
      if c.fault.isSome then c else c.uc (-1) c.buildForceExec

/-! ## Views -/

def isLeader (c : Comp) : Bool := decide (c.curView.leaderId = c.nodeId)

def consensusUpdateRole (c : Comp) : Comp :=
  let start : ViewStamp := ⟨c.curView.viewId, 0⟩
  { c with
    myRole := if c.curView.leaderId ≠ c.nodeId then .secondary else .leader
    highestSeenVs := start
    highestToCommitVs := start
    highestCommittedVs := start }

/-- The database writes of `update_view`. It stores the bytes at the address of its pointer
argument, not the view the pointer refers to, and gives up after ten failed writes. -/
def storeViewBoundary (env : Env) (c : Comp) (newViewInfo : View) : Comp :=
  if newViewInfo.viewId = 1 then c
  else if env.storeOk then
    let last : ViewStamp := ⟨newViewInfo.viewId - 1, newViewInfo.reqId + 1⟩
    let db := c.db.storeRecord (vstol ⟨newViewInfo.viewId, 0⟩) (.view env.stack)
    { c with db := db.deleteRecord (vstol last) }
  else c.fail .assertion

/-- What `update_view` does to the view, the stamps, the role and the database; the timers and
the state of the node are in `Node.updateView`. -/
def updateView (env : Env) (c : Comp) (newViewInfo : View) : Comp :=
  if c.curView.viewId + 1 = newViewInfo.viewId then
    let c := c.storeViewBoundary env newViewInfo
    if c.fault.isSome then c
    else consensusUpdateRole { c with curView := newViewInfo }
  else c

/-! ## Initial state -/

/-- `system_initialize` and `init_consensus_comp` over an empty database. -/
def init (seed : Bool) (nodeId groupSize : Nat) : Comp :=
  let curView : View := if seed then ⟨1, nodeId, 0⟩ else ⟨0, 9999, 0⟩
  { myRole := if curView.leaderId = nodeId then .leader else .secondary
    nodeId := nodeId
    groupSize := groupSize
    curView := curView
    highestSeenVs := ⟨1, 0⟩
    highestToCommitVs := ⟨1, 0⟩
    highestCommittedVs := ⟨1, 0⟩
    db := Database.empty
    upCalls := []
    delivered := []
    assigned := []
    fault := none }

end Comp

end LibeventPaxos
