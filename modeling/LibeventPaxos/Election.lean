import LibeventPaxos.ElectionMsg
import LibeventPaxos.Consensus

/-!
`leader-election/view_controller.h` and the parts of `replica.c` that work on the election module
alone: what a proposer and a learner count, and the range of undecided requests the new leader
merges from the acknowledgements.
-/
namespace LibeventPaxos

open Lib

/-- A libevent timer: not allocated, allocated, waiting to fire, or freed. -/
inductive Timer where
  | absent
  | idle
  | pending
  | freed
  deriving DecidableEq, Repr

/-- `evtimer_del`. -/
def Timer.del : Timer → Timer
  | .pending => .idle
  | timer => timer

structure ProposerRecord where
  pPnum : Int
  aPnum : Int
  content : NodeId
  deriving DecidableEq, Repr

/-- `accepted_record`; nothing reads its `last_req`. -/
structure AcceptedRecord where
  pnum : Int
  content : NodeId
  deriving DecidableEq, Repr

/-- `leader_election_edge_mod`. An array that is not allocated is `none`; `reqEdge` has as many
entries as were allocated. -/
structure EdgeMod where
  msgCount : Option (NodeId → Bool)
  reqEdge : Option (List UInt32)
  start : UInt32
  stop : UInt32
  curEmptySlots : ℕ
  maxEmptySlots : Int

/-- `lele_mod`. -/
structure LeleMod where
  nextView : UInt32
  newLeader : NodeId
  nextPnum : Int
  edge : EdgeMod
  acceptor : AcceptorRecord
  learnerArr : NodeId → AcceptedRecord
  proposerArr : NodeId → ProposerRecord
  slientPeriod : Timer
  announceAckMsg : Option SysMsg

/-- What an election handler draws from outside the program besides `Env`: fields of a message
its sender leaves unset, memory behind a message, and arrays fresh from `malloc`. -/
structure NodeEnv extends Env where
  heapLele : LeleMsg
  heapIds : ℕ → UInt32
  heapLearner : NodeId → AcceptedRecord
  heapProposer : NodeId → ProposerRecord

/-- An index of an array with one entry for each node. -/
def InGroup (groupSize : ℕ) (nodeId : NodeId) : Prop := 0 ≤ nodeId ∧ nodeId < groupSize

instance (groupSize : ℕ) (nodeId : NodeId) : Decidable (InGroup groupSize nodeId) :=
  inferInstanceAs (Decidable (0 ≤ nodeId ∧ nodeId < groupSize))

namespace LeleMod

/-! ## Initialization -/

/-- `initialize_leader_election_mod`: the module is cleared, the two arrays are not. -/
def initializeLeaderElectionMod (env : NodeEnv) : LeleMod where
  nextView := 0
  newLeader := 0
  nextPnum := 0
  edge :=
    { msgCount := none, reqEdge := none, start := 0xFFFFFFFF, stop := 0, curEmptySlots := 0,
      maxEmptySlots := 0 }
  acceptor := ⟨0, 0, 0⟩
  learnerArr := env.heapLearner
  proposerArr := env.heapProposer
  slientPeriod := .idle
  announceAckMsg := none

/-- `refresh_leader_election`; the loop runs at least once, a node id being below the group size. -/
def refreshLeaderElection (groupSize : ℕ) (mod : LeleMod) : LeleMod :=
  { mod with
    learnerArr := fun i =>
      if InGroup groupSize i then { mod.learnerArr i with pnum := -1 } else mod.learnerArr i
    proposerArr := fun i =>
      if InGroup groupSize i then { mod.proposerArr i with aPnum := -1, content := -1 }
      else mod.proposerArr i
    acceptor := { mod.acceptor with content := -1 } }

/-! ## Messages -/

/-- `build_lele_msg`; `arg` holds the two fields of `corr_msg` it copies. -/
def buildLeleMsg (env : NodeEnv) (nodeId : NodeId) (mod : LeleMod) (type : LeleType)
    (arg : Int × NodeId) : LeleMsg :=
  let msg := { env.heapLele with nodeId := nodeId, nextView := mod.nextView, type := type }
  match type with
  | .prepare => { msg with pnum := mod.nextPnum, content := -1, pPnum := -1 }
  | .prepareAck =>
    -- what has been accepted, with the number that is promised
    { msg with
      pnum := mod.acceptor.acceptedPnum
      content := mod.acceptor.content
      pPnum := mod.acceptor.highestSeenPnum }
  -- what phase two proposes, from the message its caller has filled
  | .accept => { msg with pnum := arg.1, content := arg.2, pPnum := -1 }
  | .acceptAck =>
    { msg with
      pnum := mod.acceptor.acceptedPnum
      content := mod.acceptor.content
      lastReq := 0xFFFFFFFF }
  | .announce => { msg with pnum := arg.1, content := arg.2 }
  | _ => msg

/-! ## Counting -/

/-- `pnum_t origin` of the proposer's current round. -/
def origin (groupSize : ℕ) (mod : LeleMod) : Int := mod.nextPnum - groupSize

/-- One pass of the loop of `proposer_check_prepare` over the records of the round: how many have
answered, and the highest number accepted so far with its content. -/
def prepareStep (groupSize : ℕ) (mod : LeleMod) (found : ℕ × Int × NodeId) (i : ℕ) :
    ℕ × Int × NodeId :=
  let (inc, pnum, content) := found
  let record := mod.proposerArr i
  if record.pPnum = mod.origin groupSize then
    let inc := if record.aPnum ≠ -1 then inc + 1 else inc
    if record.aPnum > pnum then (inc, record.aPnum, record.content) else (inc, pnum, content)
  else (inc, pnum, content)

/-- `proposer_check_prepare`: the content to propose, if a majority has answered. -/
def proposerCheckPrepare (groupSize : ℕ) (mod : LeleMod) : Option NodeId :=
  let (inc, _, content) := (List.range groupSize).foldl (mod.prepareStep groupSize) (0, -1, -1)
  if groupSize / 2 + 1 ≤ inc then some content else none

/-- The inner loop of `learner_check_accept`. -/
def learnerCount (groupSize : ℕ) (mod : LeleMod) (base : Int) : ℕ :=
  ((List.range groupSize).filter fun j : ℕ => (mod.learnerArr j).pnum = base).length

/-- `learner_check_accept`: the first entry whose number a majority of the entries carries. -/
def learnerCheckAccept (groupSize : ℕ) (mod : LeleMod) : Option AcceptedRecord :=
  ((List.range groupSize).map fun i : ℕ => mod.learnerArr i).find? fun entry =>
    entry.pnum ≠ -1 ∧ groupSize / 2 + 1 ≤ mod.learnerCount groupSize entry.pnum

end LeleMod

namespace EdgeMod

/-! ## The range of undecided requests -/

/-- The body of the loop of `leader_election_leader_cal_edge`. -/
def leaderCalEdgeStep (c : Comp) (index : ℕ) :
    EdgeMod × Option Fault → LoopStep (EdgeMod × Option Fault)
  | (edge, fault) =>
    let recordKey := UInt32.ofNat index
    match c.db.retrieveRecord (vstol ⟨c.curView.viewId, recordKey⟩) with
    -- an empty slot is noted by its request id
    | some _ => .next (edge, fault)
    | none =>
      if edge.curEmptySlots < edge.maxEmptySlots then
        match edge.reqEdge with
        | none => .ret (edge, some .nullPointer)
        | some slots =>
          if edge.curEmptySlots < slots.length then
            .next ({ edge with
              reqEdge := some (slots.set edge.curEmptySlots recordKey)
              curEmptySlots := edge.curEmptySlots + 1 }, fault)
          else .ret (edge, some .outOfBounds)
      else .ret (edge, some .assertion)

/-- `leader_election_leader_cal_edge`. -/
def leaderCalEdge (c : Comp) (edge : EdgeMod) : EdgeMod × Option Fault :=
  let counted := edge.msgCount.map fun msgCount => Function.update msgCount (c.nodeId : Int) true
  let edge := { edge with msgCount := counted }
  match forInclusive 32 edge.start.toNat edge.stop.toNat (leaderCalEdgeStep c) (edge, none) with
  | .finished result => result
  | .returned result => result
  | .wrapped (edge, _) => (edge, some .counterWrapped)

/-- The range of the current view a node has not decided, as both sides of the election take it;
a node that has seen nothing of its view reports the end -1. -/
def undecidedRange (c : Comp) : UInt32 × UInt32 :=
  if c.highestSeenVs.viewId = c.curView.viewId then
    if c.highestSeenVs.viewId = c.highestToCommitVs.viewId then
      (c.highestToCommitVs.reqId, c.highestSeenVs.reqId)
    else (0, c.highestSeenVs.reqId)
  else (0, 0xFFFFFFFF)

/-- `(end-start)*2+DEFAULT_REQ_LENGTH`, computed in 32 bits and stored in an int. -/
def edgeLength (start stop : UInt32) : Int := ((stop - start) * 2 + 20).toInt32.toInt

/-- `leader_election_initialize_edge_mod`. A negative length is no size `malloc` can serve; the
array is kept from one election to the next, whatever the new length. -/
def initializeEdgeMod (c : Comp) (edge : EdgeMod) : EdgeMod × Option Fault :=
  let (start, stop) := undecidedRange c
  let length := if c.highestSeenVs.viewId = c.curView.viewId then edgeLength start stop else 100
  let edge := { edge with start := start, stop := stop, maxEmptySlots := length }
  match edge.reqEdge with
  | none =>
    if length < 0 then
      ({ edge with start := 0xFFFFFFFF, msgCount := none, reqEdge := none }, none)
    else
      leaderCalEdge c { edge with
        reqEdge := some (List.replicate length.toNat 0)
        msgCount := some fun _ => false }
  | some slots =>
    -- the memset clears as many entries as the new length asks for
    if length < 0 ∨ (slots.length : Int) < length then (edge, some .outOfBounds)
    else
      leaderCalEdge c { edge with
        reqEdge := some (List.replicate length.toNat 0 ++ slots.drop length.toNat)
        msgCount := some fun _ => false }

/-! ## Merging an acknowledgement -/

/-- `while(i<cur && req_edge[i]<=bound) req_edge[i++] = 0`. -/
def clearUpTo (bound : UInt32) (cur : ℕ) : ℕ → ℕ → List UInt32 → ℕ × List UInt32
  | 0, i, slots => (i, slots)
  | fuel + 1, i, slots =>
    if i < cur ∧ slots.getD i 0 ≤ bound then clearUpTo bound cur fuel (i + 1) (slots.set i 0)
    else (i, slots)

/-- The merge loop. An id below the slot under the cursor leaves both cursors where they are
(`i--` and then `i++`), so the loop never ends. -/
def mergeSlots (ids : ℕ → UInt32) (cur count : ℕ) :
    ℕ → ℕ → ℕ → List UInt32 → Option (ℕ × ℕ × List UInt32)
  | 0, i, j, slots => some (i, j, slots)
  | fuel + 1, i, j, slots =>
    if i < cur ∧ j < count then
      if slots.getD i 0 < ids j then mergeSlots ids cur count fuel (i + 1) j (slots.set i 0)
      else if slots.getD i 0 = ids j then mergeSlots ids cur count fuel (i + 1) (j + 1) slots
      else none
    else some (i, j, slots)

/-- `while(ptr[j]<=bound && j<count) j++`. -/
def skipIds (ids : ℕ → UInt32) (bound : UInt32) (count : ℕ) : ℕ → ℕ → ℕ
  | 0, j => j
  | fuel + 1, j => if ids j ≤ bound ∧ j < count then skipIds ids bound count fuel (j + 1) else j

/-- `while(ptr[j]<pnum)`: the id itself is compared with the number of ids. -/
def appendIds (ids : ℕ → UInt32) (pnum : Int) : ℕ → ℕ → EdgeMod → List UInt32 →
    EdgeMod × List UInt32 × Option Fault
  | 0, _, edge, slots => (edge, slots, some .noProgress)
  | fuel + 1, j, edge, slots =>
    if (ids j).toNat < pnum then
      if edge.curEmptySlots < edge.maxEmptySlots then
        if edge.curEmptySlots < slots.length then
          appendIds ids pnum fuel (j + 1) { edge with curEmptySlots := edge.curEmptySlots + 1 }
            (slots.set edge.curEmptySlots (ids j))
        else (edge, slots, some .outOfBounds)
      else (edge, slots, some .assertion)
    else (edge, slots, none)

/-- The loop that moves the slots that are left to the front. -/
def compact (cur : ℕ) (slots : List UInt32) : ℕ × List UInt32 :=
  let kept := (slots.take cur).filter (· ≠ 0)
  (kept.length, kept ++ slots.drop kept.length)

/-- The body of `leader_election_handle_announce_ack` for a node not heard before, up to the count
of the nodes heard. -/
def mergeAck (env : NodeEnv) (edge : EdgeMod) (msg : LeleMsg) (data : List UInt32) :
    EdgeMod × Option Fault :=
  match edge.reqEdge with
  | none => (edge, some .nullPointer)
  | some slots =>
    let cur := edge.curEmptySlots
    if slots.length < cur then (edge, some .outOfBounds)
    else
      -- what lies behind the message is read like its ids
      let ids := fun j => data.getD j (env.heapIds j)
      let count := (msg.pnum % 18446744073709551616).toNat
      let (start, i, slots) :=
        if edge.start < msg.startReq then (msg.startReq, clearUpTo msg.startReq cur cur 0 slots)
        else (edge.start, 0, slots)
      let edge := { edge with start := start }
      match mergeSlots ids cur count (cur + 1) i 0 slots with
      | none => (edge, some .noProgress)
      | some (i, j, slots) =>
        let (edge, slots, fault) :=
          if i = cur then
            let j := skipIds ids edge.stop count (count - j) j
            appendIds ids msg.pnum (edge.maxEmptySlots.toNat + 1) j edge slots
          else if j = count then (edge, (clearUpTo msg.lastReq cur (cur - i) i slots).2, none)
          else (edge, slots, none)
        let stop := if edge.stop < msg.lastReq then msg.lastReq else edge.stop
        let (cur, slots) := compact edge.curEmptySlots slots
        ({ edge with stop := stop, curEmptySlots := cur, reqEdge := some slots }, fault)

/-- The nodes heard so far. -/
def heard (groupSize : ℕ) (msgCount : NodeId → Bool) : ℕ :=
  ((List.range groupSize).filter fun k : ℕ => msgCount k).length

/-- The boundary `leader_election_leader_close` chooses: before the first empty slot, else the end
of the range. -/
def boundary (edge : EdgeMod) : UInt32 :=
  if edge.curEmptySlots ≠ 0 then (edge.reqEdge.getD []).getD 0 0 - 1 else edge.stop

end EdgeMod

end LibeventPaxos
