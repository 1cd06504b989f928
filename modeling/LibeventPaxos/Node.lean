import LibeventPaxos.Election
import LibeventPaxos.ConsensusRun

/-!
`replica-sys/replica.c`: a node with its three ping and progress timers, its election and its
consensus component. Messages to other nodes go to the log `sent`, those of the consensus
component to `comp.upCalls`; a target below 0 stands for every other node, and a message to a
target outside the group is lost.
-/
namespace LibeventPaxos

open Lib

/-- `node_state_code`; nothing sets `NODE_WAITFORSYNC`. -/
inductive NodeState where
  | active
  | inLele
  | postLele
  deriving DecidableEq, Repr

/-- `node`. Its view, its stamps, its id, its group size and the database are in `comp`;
`modAllocated` tells whether `election_mod` is not NULL. `sent` and `accepted` are histories: the
messages sent, and the proposals the acceptor has accepted, each with its next view. -/
structure Node where
  state : NodeState
  comp : Comp
  electionMod : LeleMod
  modAllocated : Bool
  evLeaderPing : Timer
  evExpectPing : Timer
  evMakeProgress : Timer
  lastPingMsg : TimeVal
  expectPingTimeval : TimeVal
  sent : List (Int × SysMsg)
  accepted : List (UInt32 × Int × NodeId)

namespace Node

def fail (node : Node) (fault : Fault) : Node := { node with comp := node.comp.fail fault }

def running (node : Node) : Bool := node.comp.fault.isNone

/-- What follows a call that may not have returned. -/
def andThen (node : Node) (next : Node → Node) : Node := if node.running then next node else node

def isLeader (node : Node) : Bool := node.comp.isLeader

def viewId (node : Node) : UInt32 := node.comp.curView.viewId

def nodeId (node : Node) : NodeId := node.comp.nodeId

def groupSize (node : Node) : ℕ := node.comp.groupSize

/-! ## Sending -/

def sendToOneNode (node : Node) (target : NodeId) (msg : SysMsg) : Node :=
  { node with sent := node.sent ++ [(target, msg)] }

def sendToOtherNodes (node : Node) (msg : SysMsg) : Node :=
  { node with sent := node.sent ++ [(-1, msg)] }

def withMod (node : Node) (mod : LeleMod) : Node := { node with electionMod := mod }

/-! ## Ping and progress timers -/

def initializeLeaderPing (node : Node) : Node :=
  if node.evLeaderPing = .freed then node.fail .useAfterFree
  else { node with evExpectPing := node.evExpectPing.del, evLeaderPing := .pending }

def initializeExpectPing (node : Node) : Node :=
  if node.evLeaderPing = .freed then node.fail .useAfterFree
  else { node with evLeaderPing := node.evLeaderPing.del, evExpectPing := .pending }

def initializeLeaderMakeProgress (node : Node) : Node :=
  if node.evMakeProgress = .freed then node.fail .useAfterFree
  else { node with evMakeProgress := .pending }

/-- `update_view` with `become_leader` and `become_secondary`; the view, the role, the stamps and
the database are moved by `Comp.updateView`. -/
def updateView (env : NodeEnv) (node : Node) (newViewInfo : View) : Node :=
  if node.viewId + 1 = newViewInfo.viewId then
    let node := { node with comp := Comp.updateView env.toEnv node.comp newViewInfo }
    node.andThen fun node =>
      let node := { node with state := .active }
      if node.isLeader then node.initializeLeaderPing else node.initializeExpectPing
  else node

/-! ## Leader election: proposer and acceptor -/

def initializeLeaderElection (env : NodeEnv) (node : Node) : Node :=
  let mod := if node.modAllocated then node.electionMod else LeleMod.initializeLeaderElectionMod env
  let mod := { mod with nextView := node.viewId + 1, nextPnum := node.nodeId }
  let mod := mod.refreshLeaderElection node.groupSize
  { node with
    state := .inLele
    modAllocated := true
    electionMod := { mod with slientPeriod := .pending } }

/-- `acceptor_update_record`, repeated until the database takes the record. -/
def acceptorUpdateRecord (node : Node) : Node :=
  { node with
    comp := node.comp.acceptorUpdateRecord node.electionMod.nextView node.electionMod.acceptor }

/-- `leader_election_proposer_phase_two`; the proposer enters its own proposal into its learner
before it sends it. -/
def leaderElectionProposerPhaseTwo (env : NodeEnv) (node : Node) (content : NodeId) : Node :=
  let pnum := node.electionMod.origin node.groupSize
  if pnum = -1 then node.fail .assertion
  else
    let content := if content = -1 then node.nodeId else content
    let msg := node.electionMod.buildLeleMsg env node.nodeId .accept (pnum, content)
    let mod := { node.electionMod with
      learnerArr := Function.update node.electionMod.learnerArr node.nodeId ⟨pnum, content⟩ }
    (node.withMod mod).sendToOtherNodes (.leaderElection msg [])

/-- The end of both branches of `leader_election_proposer_do`. -/
def checkPrepare (env : NodeEnv) (node : Node) : Node :=
  match node.electionMod.proposerCheckPrepare node.groupSize with
  | some content => node.leaderElectionProposerPhaseTwo env content
  | none => node

/-- `leader_election_proposer_do` without a message: a new round, with the next number. -/
def leaderElectionPropose (env : NodeEnv) (node : Node) : Node :=
  let msg := node.electionMod.buildLeleMsg env node.nodeId .prepare (0, 0)
  let pnum := node.electionMod.nextPnum
  let mod := { node.electionMod with nextPnum := pnum + node.groupSize, slientPeriod := .pending }
  let node := (node.withMod mod).sendToOtherNodes (.leaderElection msg [])
  -- its own acceptor promises too, unless it has promised a higher number
  if mod.acceptor.highestSeenPnum < pnum then
    let acceptor := { mod.acceptor with highestSeenPnum := pnum }
    let promise : ProposerRecord := ⟨pnum, acceptor.acceptedPnum, acceptor.content⟩
    let mod := { mod with
      acceptor := acceptor
      proposerArr := Function.update mod.proposerArr node.nodeId promise }
    (node.withMod mod).acceptorUpdateRecord.checkPrepare env
  else node

/-- `leader_election_proposer_do` with a message. -/
def leaderElectionProposerDo (env : NodeEnv) (node : Node) (msg : LeleMsg) : Node :=
  if msg.type ≠ .prepareAck then node.fail .assertion
  else
    let mod := node.electionMod
    let origin := mod.origin node.groupSize
    -- answers to earlier numbers of this node are dropped
    if msg.pPnum = origin ∧ msg.nextView = mod.nextView then
      if InGroup node.groupSize msg.nodeId then
        let promise : ProposerRecord := ⟨origin, msg.pnum, msg.content⟩
        let mod := { mod with proposerArr := Function.update mod.proposerArr msg.nodeId promise }
        (node.withMod mod).checkPrepare env
      else node.fail .outOfBounds
    else node

/-- The prepare branch of `leader_election_acceptor_do`. -/
def handlePrepare (env : NodeEnv) (node : Node) (msg : LeleMsg) : Node :=
  let mod := node.electionMod
  -- a proposer with a lower id makes this node wait: `stop_propose`
  let mod := if msg.nodeId < node.nodeId then { mod with slientPeriod := .pending } else mod
  if mod.acceptor.highestSeenPnum < msg.pnum then
    let acceptor := { mod.acceptor with highestSeenPnum := msg.pnum, content := msg.content }
    let node := (node.withMod { mod with acceptor := acceptor }).acceptorUpdateRecord
    let ack := node.electionMod.buildLeleMsg env node.nodeId .prepareAck (0, 0)
    node.sendToOneNode msg.nodeId (.leaderElection ack [])
  else node.withMod mod

/-! ## Leader election: the range of undecided requests -/

/-- The body of the loop of `leader_election_cal_edge` over the slots found empty so far. -/
def calEdgeStep (c : Comp) (length : Int) (index : ℕ) :
    List UInt32 × Option Fault → LoopStep (List UInt32 × Option Fault)
  | (slots, fault) =>
    let recordKey := UInt32.ofNat index
    match c.db.retrieveRecord (vstol ⟨c.curView.viewId, recordKey⟩) with
    | some _ => .next (slots, fault)
    | none =>
      if (slots.length : Int) < length then .next (slots ++ [recordKey], fault)
      else .ret (slots, some .outOfBounds)

/-- The slots `leader_election_cal_edge` reports. It scans the range of `mod->edge`, not the range
it has just computed. -/
def emptySlots (c : Comp) (edge : EdgeMod) (length : Int) : List UInt32 × Option Fault :=
  match forInclusive 32 edge.start.toNat edge.stop.toNat (calEdgeStep c length) ([], none) with
  | .finished result => result
  | .returned result => result
  | .wrapped (slots, _) => (slots, some .counterWrapped)

/-- `leader_election_cal_edge`: the acknowledgement of an announcement, kept to be sent again. -/
def leaderElectionCalEdge (env : NodeEnv) (node : Node) : Node :=
  let mod := node.electionMod
  let (start, stop) := EdgeMod.undecidedRange node.comp
  let ack (pnum : Int) : LeleMsg :=
    { env.heapLele with
      type := .announceAck
      startReq := start
      lastReq := stop
      nextView := mod.nextView
      content := mod.newLeader
      nodeId := node.nodeId
      pnum := pnum }
  let reply (msg : SysMsg) : Node :=
    (node.withMod { mod with announceAckMsg := some msg, slientPeriod := .pending }).sendToOneNode
      mod.newLeader msg
  if stop ≠ 0xFFFFFFFF then
    let length := EdgeMod.edgeLength start stop
    -- the array is cleared before it is compared with NULL
    if length < 0 then node.fail .nullPointer
    else
      let (slots, fault) := emptySlots node.comp mod.edge length
      match fault with
      | some fault => node.fail fault
      | none => reply (.leaderElection (ack slots.length) slots)
  else
    -- the number of ids is left as `malloc` returned it
    reply (.leaderElection (ack env.heapLele.pnum) [])

/-- `leader_election_initialize_edge_mod`. -/
def leaderElectionInitializeEdgeMod (node : Node) : Node :=
  let (edge, fault) := EdgeMod.initializeEdgeMod node.comp node.electionMod.edge
  let node := node.withMod { node.electionMod with edge := edge }
  match fault with
  | some fault => node.fail fault
  | none => node

/-- `leader_election_handle_announce`; `leader_election_enter_post_stage` is its first line. -/
def leaderElectionHandleAnnounce (env : NodeEnv) (node : Node) (msg : LeleMsg) : Node :=
  let node := { node with
    state := .postLele
    electionMod := { node.electionMod with newLeader := msg.content } }
  if msg.content = node.nodeId then node.leaderElectionInitializeEdgeMod
  else node.leaderElectionCalEdge env

/-! ## Leader election: learner -/

/-- `leader_election_learner_do`: a learner that finds a majority announces the leader. -/
def leaderElectionLearnerDo (env : NodeEnv) (node : Node) (msg : LeleMsg) : Node :=
  let mod := node.electionMod
  if InGroup node.groupSize msg.nodeId then
    -- an acceptor is believed again only with a higher number
    if msg.pnum > (mod.learnerArr msg.nodeId).pnum then
      let entry : AcceptedRecord := ⟨msg.pnum, msg.content⟩
      let mod := { mod with learnerArr := Function.update mod.learnerArr msg.nodeId entry }
      let node := node.withMod mod
      match mod.learnerCheckAccept node.groupSize with
      | none => node
      | some decided =>
        let announce := mod.buildLeleMsg env node.nodeId .announce (decided.pnum, decided.content)
        -- the learner takes its own announcement as well
        (node.sendToOtherNodes (.leaderElection announce [])).leaderElectionHandleAnnounce env
          announce
    else node
  else node.fail .outOfBounds

/-- The accept branch of `leader_election_acceptor_do`. -/
def handleAccept (env : NodeEnv) (node : Node) (msg : LeleMsg) : Node :=
  let mod := node.electionMod
  if mod.acceptor.highestSeenPnum ≤ msg.pnum then
    let node := { node with
      electionMod := { mod with acceptor := ⟨msg.pnum, msg.pnum, msg.content⟩ }
      accepted := node.accepted ++ [(mod.nextView, msg.pnum, msg.content)] }
    let node := node.acceptorUpdateRecord
    let ack := node.electionMod.buildLeleMsg env node.nodeId .acceptAck (0, 0)
    -- the node tells its own learner first, which may decide before the others hear of it
    (node.leaderElectionLearnerDo env ack).andThen fun node =>
      node.sendToOtherNodes (.leaderElection ack [])
  else node

/-! ## Leader election: closing -/

/-- The bytes of a value read as a `view`, as `leader_election_build_close` reads a boundary. -/
def asView : DbValue → View
  | .view bytes => ⟨lowHalf bytes.word0.toNat, bytes.word1.toBitVec.toInt, lowHalf bytes.word2.toNat⟩
  | .acceptor record =>
    ⟨lowHalf record.highestSeenPnum, record.acceptedPnum, lowHalf record.content⟩
  | .request record =>
    -- the byte of `is_closed` is followed by three of the bit map
    ⟨lowHalf record.createdTime.tvSec, record.createdTime.tvUsec,
      lowHalf (record.isClosed.toNat + record.bitMap.toNat * 256)⟩

/-- `leader_election_build_close` with a view. -/
def buildClose (env : NodeEnv) (newViewInfo : View) : LeleMsg :=
  { env.heapLele with
    type := .fin
    nextView := newViewInfo.viewId
    nodeId := newViewInfo.leaderId
    lastReq := newViewInfo.reqId
    content := newViewInfo.leaderId }

/-- `leader_election_build_close`: without a view, the boundary is read from the database. -/
def leaderElectionBuildClose (env : NodeEnv) (node : Node) (viewId : UInt32) : Option LeleMsg :=
  (node.comp.db.retrieveRecord (vstol ⟨viewId, 0⟩)).map fun value => buildClose env (asView value)

/-- `leader_election_handle_close`. -/
def leaderElectionHandleClose (env : NodeEnv) (node : Node) (msg : LeleMsg) : Node :=
  if node.electionMod.nextView = msg.nextView then
    node.updateView env ⟨msg.nextView, msg.content, msg.lastReq⟩
  else node

/-- `leader_election_leader_close`. -/
def leaderElectionLeaderClose (env : NodeEnv) (node : Node) : Node :=
  let mod := node.electionMod
  let newViewInfo : View := ⟨mod.nextView, mod.newLeader, mod.edge.boundary⟩
  (node.updateView env newViewInfo).andThen fun node =>
    node.sendToOtherNodes (.leaderElection (buildClose env newViewInfo) [])

/-- The part of `leader_election_handle_announce_ack` after the early announcement. -/
def mergeAnnounceAck (env : NodeEnv) (node : Node) (msg : LeleMsg) (data : List UInt32) : Node :=
  let edge := node.electionMod.edge
  match edge.msgCount with
  | none => node.fail .nullPointer
  | some msgCount =>
    if InGroup node.groupSize msg.nodeId then
      -- each node is heard once
      if msgCount msg.nodeId then node
      else
        let msgCount := Function.update msgCount msg.nodeId true
        let (edge, fault) := { edge with msgCount := some msgCount }.mergeAck env msg data
        let node := node.withMod { node.electionMod with edge := edge }
        match fault with
        | some fault => node.fail fault
        | none =>
          -- the view starts once a majority has told what it lacks
          if node.groupSize / 2 + 1 ≤ EdgeMod.heard node.groupSize msgCount then
            node.leaderElectionLeaderClose env
          else node
    else node.fail .outOfBounds

/-- `leader_election_handle_announce_ack`: one that overtakes the announcement stands for it. -/
def leaderElectionHandleAnnounceAck (env : NodeEnv) (node : Node) (msg : LeleMsg)
    (data : List UInt32) : Node :=
  let node :=
    if node.electionMod.edge.start = 0xFFFFFFFF ∧ node.nodeId = msg.content then
      node.leaderElectionHandleAnnounce env msg
    else node
  node.andThen fun node => node.mergeAnnounceAck env msg data

/-! ## Timers that fire -/

/-- `leader_election_on_timeout`. -/
def leaderElectionOnTimeout (env : NodeEnv) (node : Node) : Node :=
  let again (node : Node) : Node :=
    node.withMod { node.electionMod with slientPeriod := .pending }
  match node.state with
  | .postLele =>
    -- who waits for the new view says again what it lacks; the new leader waits itself
    if node.electionMod.newLeader ≠ node.nodeId then
      match node.electionMod.announceAckMsg with
      | some msg => again (node.sendToOneNode node.electionMod.newLeader msg)
      | none => again node
    else again node
  -- no leader yet: the next number is proposed
  | .inLele => (node.leaderElectionPropose env).andThen again
  | .active => node

/-- `expected_leader_ping_period` with `lost_connection_with_leader`. -/
def expectedLeaderPingPeriod (env : NodeEnv) (node : Node) : Node :=
  if node.isLeader then
    if node.evLeaderPing ≠ .absent then node.initializeLeaderPing else node
  else if timevalComp (timevalAdd node.lastPingMsg node.expectPingTimeval) env.now ≥ 0 then
    node.initializeExpectPing
  else node.initializeLeaderElection env

/-- `leader_ping_period`. -/
def leaderPingPeriod (env : NodeEnv) (node : Node) : Node :=
  if node.isLeader then
    let node := node.sendToOtherNodes (.pingReq node.nodeId node.comp.curView env.now)
    if node.evLeaderPing ≠ .absent then { node with evLeaderPing := .pending } else node
  else if node.evLeaderPing ≠ .absent then
    { node with evLeaderPing := .freed }.initializeExpectPing
  else node

/-- `make_progress_on`. -/
def makeProgressOn (env : NodeEnv) (node : Node) : Node :=
  if node.isLeader then
    let node := { node with comp := Comp.consensusMakeProgress env.toEnv node.comp }
    node.andThen fun node =>
      if node.evMakeProgress ≠ .absent then { node with evMakeProgress := .pending } else node
  else if node.evMakeProgress ≠ .absent then
    { node with evMakeProgress := .freed }.initializeLeaderMakeProgress
  else node

/-! ## Messages -/

def handlePingAck (env : NodeEnv) (node : Node) (view : View) : Node :=
  if node.viewId = view.viewId + 1 then node.updateView env view else node

def handlePingReq (env : NodeEnv) (node : Node) (nodeId : NodeId) (view : View)
    (timestamp : TimeVal) : Node :=
  -- one view behind the sender, or one ahead of it, which is told so; further away nothing is done
  if node.viewId + 1 = view.viewId then node.updateView env view
  else if node.viewId = view.viewId + 1 then
    node.sendToOneNode nodeId (.pingAck node.nodeId node.comp.curView env.now)
  else if node.viewId = view.viewId then
    -- the leader of this view lives, so the election is given up
    let node := if node.state = .inLele then { node with state := .active } else node
    if node.isLeader then node
    else
      let last := if timevalComp node.lastPingMsg timestamp < 0 then timestamp else node.lastPingMsg
      let node := { node with lastPingMsg := last }
      -- a secondary starts to wait for the next ping
      if node.evExpectPing ≠ .absent then { node with evExpectPing := .pending } else node
  else node

/-- `handle_leader_election_msg` for a message of the election the node is in. -/
def leaderElectionDo (env : NodeEnv) (node : Node) (msg : LeleMsg) (data : List UInt32) : Node :=
  match msg.type with
  | .prepare => node.handlePrepare env msg
  | .prepareAck => node.leaderElectionProposerDo env msg
  | .accept => node.handleAccept env msg
  | .acceptAck => node.leaderElectionLearnerDo env msg
  | .announce => node.leaderElectionHandleAnnounce env msg
  | .announceAck => node.leaderElectionHandleAnnounceAck env msg data
  | .fin => node.leaderElectionHandleClose env msg
  | .higherNode => node.leaderElectionProposerDo env msg
  | .lagged => node

def handleLeaderElectionMsg (env : NodeEnv) (node : Node) (msg : LeleMsg) (data : List UInt32) :
    Node :=
  if msg.nextView ≠ node.viewId + 1 then
    -- a late participant of the election that made this view is told how it ended
    if msg.nextView = node.viewId then
      match node.leaderElectionBuildClose env msg.nextView with
      | some close => node.sendToOneNode msg.nodeId (.leaderElection close [])
      | none => node
    else node
  else node.leaderElectionDo env msg data

def handleMsg (env : NodeEnv) (node : Node) : SysMsg → Node
  | .pingAck _ view _ => if node.state ≠ .postLele then node.handlePingAck env view else node
  | .pingReq nodeId view timestamp =>
    if node.state ≠ .postLele then node.handlePingReq env nodeId view timestamp else node
  -- in an election the component gets neither messages nor requests
  | .consensus msg =>
    if node.state = .active then
      { node with comp := Comp.consensusHandleMsg env.toEnv node.comp msg }
    else node
  | .requestSubmit data =>
    if node.state = .active then
      { node with comp := Comp.consensusSubmitRequest env.toEnv node.comp data }
    else node
  | .leaderElection msg data =>
    if node.state = .inLele ∨ node.state = .postLele then
      node.handleLeaderElectionMsg env msg data
    else node

/-! ## Initial state -/

/-- `system_initialize`; a seed is its own leader in view 1. -/
def init (seed : Bool) (nodeId groupSize : ℕ) (expectPingTimeval now : TimeVal)
    (env : NodeEnv) : Node :=
  let comp := Comp.init seed nodeId groupSize
  let leads := comp.isLeader
  { state := .active
    comp := comp
    electionMod := LeleMod.initializeLeaderElectionMod env
    modAllocated := false
    evLeaderPing := if leads then .pending else .absent
    evExpectPing := if leads then .absent else .pending
    evMakeProgress := if leads then .pending else .absent
    lastPingMsg := now
    expectPingTimeval := expectPingTimeval
    sent := []
    accepted := [] }

end Node

/-! ## Runs of a node -/

/-- What the event loop can dispatch: a message that was read, or a timer that is due. -/
inductive NodeEvent where
  | message (msg : SysMsg)
  | leaderPing
  | expectPing
  | makeProgress
  | electionTimeout
  deriving DecidableEq, Repr

namespace Node

/-- A timer that fires is no longer pending when its callback runs. -/
def dispatch (node : Node) : NodeEnv × NodeEvent → Node
  | (env, .message msg) => node.handleMsg env msg
  | (env, .leaderPing) => { node with evLeaderPing := .idle }.leaderPingPeriod env
  | (env, .expectPing) => { node with evExpectPing := .idle }.expectedLeaderPingPeriod env
  | (env, .makeProgress) => { node with evMakeProgress := .idle }.makeProgressOn env
  | (env, .electionTimeout) =>
    (node.withMod { node.electionMod with slientPeriod := .idle }).leaderElectionOnTimeout env

def Due (node : Node) : NodeEvent → Prop
  | .message _ => True
  | .leaderPing => node.evLeaderPing = .pending
  | .expectPing => node.evExpectPing = .pending
  | .makeProgress => node.evMakeProgress = .pending
  | .electionTimeout => node.modAllocated = true ∧ node.electionMod.slientPeriod = .pending

instance (node : Node) : ∀ event, Decidable (node.Due event)
  | .message _ => .isTrue trivial
  | .leaderPing => inferInstanceAs (Decidable (node.evLeaderPing = .pending))
  | .expectPing => inferInstanceAs (Decidable (node.evExpectPing = .pending))
  | .makeProgress => inferInstanceAs (Decidable (node.evMakeProgress = .pending))
  | .electionTimeout => inferInstanceAs (Decidable
      (node.modAllocated = true ∧ node.electionMod.slientPeriod = .pending))

/-- One node over its life, with arbitrary messages; a call that does not return is its last. -/
def machine : Machine Node (NodeEnv × NodeEvent) where
  initial node := ∃ seed nodeId groupSize expectPingTimeval now env, nodeId < groupSize ∧
    node = init seed nodeId groupSize expectPingTimeval now env
  enabled node e := node.comp.fault = none ∧ node.Due e.2
  apply := dispatch

instance (node : Node) (e : NodeEnv × NodeEvent) : Decidable (machine.enabled node e) :=
  inferInstanceAs (Decidable (node.comp.fault = none ∧ node.Due e.2))

end Node

end LibeventPaxos
