import LibeventPaxos.PeerNames
import LibeventPaxos.Restart

/-!
The node ids with which `replica.c` indexes the arrays that have one entry for each node:
`peer_pool`, `learner_arr`, `proposer_arr` and `edge.msg_count`. The loops over these arrays are
left out, their counters being below the group size.
-/
namespace LibeventPaxos

open Lib

namespace Node

/-! ## Ids used as indices -/

/-- `send_for_consensus_comp`: a target below 0 stands for all other nodes, any other indexes
`peer_pool`. -/
def callIds (before after : Comp) : List NodeId :=
  ((after.upCalls.drop before.upCalls.length).map Prod.fst).filter (0 ≤ ·)

/-- `leader_election_learner_do`: the entry of the voter, and after a decision the entry of the
leader, in `msg_count` if that is the node itself and in `peer_pool` otherwise. -/
def learnerIds (node : Node) (voter : NodeId) (pnum : Int) (content : NodeId) : List NodeId :=
  if (node.electionMod.learnerArr voter).pnum < pnum then
    let mod := { node.electionMod with
      learnerArr := Function.update node.electionMod.learnerArr voter ⟨pnum, content⟩ }
    match mod.learnerCheckAccept node.groupSize with
    | some decided => [voter, decided.content]
    | none => [voter]
  else [voter]

/-- `leader_election_proposer_do` with a message. The second phase enters the node's own proposal
into `learner_arr`. -/
def proposerIds (node : Node) (msg : LeleMsg) : List NodeId :=
  if msg.type = .prepareAck ∧ msg.pPnum = node.electionMod.origin node.groupSize ∧
      msg.nextView = node.electionMod.nextView then
    [msg.nodeId, node.nodeId]
  else []

/-- `handle_leader_election_msg`. -/
def electionIds (node : Node) (msg : LeleMsg) : List NodeId :=
  if msg.nextView ≠ node.viewId + 1 then
    if msg.nextView = node.viewId ∧
        (node.comp.db.retrieveRecord (vstol ⟨msg.nextView, 0⟩)).isSome then [msg.nodeId]
    else []
  else
    let acceptor := node.electionMod.acceptor
    match msg.type with
    | .prepare => if acceptor.highestSeenPnum < msg.pnum then [msg.nodeId] else []
    | .prepareAck => node.proposerIds msg
    | .accept =>
      if acceptor.highestSeenPnum ≤ msg.pnum then
        node.learnerIds node.nodeId msg.pnum msg.content
      else []
    | .acceptAck => node.learnerIds msg.nodeId msg.pnum msg.content
    | .announce => [msg.content]
    | .announceAck =>
      if node.electionMod.edge.start = 0xFFFFFFFF ∧ node.nodeId = msg.content then
        [msg.content, msg.nodeId]
      else [msg.nodeId]
    | .fin => []
    | .higherNode => []
    | .lagged => []

/-- `leader_election_on_timeout`; a new round enters the node's own promise. -/
def timeoutIds (node : Node) : List NodeId :=
  match node.state with
  | .postLele =>
    if node.electionMod.newLeader ≠ node.nodeId ∧ node.electionMod.announceAckMsg.isSome then
      [node.electionMod.newLeader]
    else []
  | .inLele =>
    if node.electionMod.acceptor.highestSeenPnum < node.electionMod.nextPnum then [node.nodeId]
    else []
  | .active => []

/-- The ids a call indexes with. -/
def peerIds (node : Node) : NodeEnv × NodeEvent → List NodeId
  | (_, .message (.pingReq nodeId view _)) =>
    if node.state ≠ .postLele ∧ node.viewId + 1 ≠ view.viewId ∧ node.viewId = view.viewId + 1 then
      [nodeId]
    else []
  | (_, .message (.pingAck _ _ _)) => []
  | (env, .message (.consensus msg)) =>
    if node.state = .active then
      callIds node.comp (Comp.consensusHandleMsg env.toEnv node.comp msg)
    else []
  | (env, .message (.requestSubmit data)) =>
    if node.state = .active then
      callIds node.comp (Comp.consensusSubmitRequest env.toEnv node.comp data)
    else []
  | (_, .message (.leaderElection msg _)) =>
    if node.state ≠ .active then node.electionIds msg else []
  | (env, .makeProgress) =>
    if node.isLeader then callIds node.comp (Comp.consensusMakeProgress env.toEnv node.comp) else []
  | (_, .electionTimeout) => node.timeoutIds
  | (_, .leaderPing) => []
  | (_, .expectPing) => []

/-- Every id the call indexes with is at least 0 and below the group size. -/
def InRange (node : Node) (e : NodeEnv × NodeEvent) : Prop :=
  ∀ id ∈ node.peerIds e, InGroup node.groupSize id

instance (node : Node) (e : NodeEnv × NodeEvent) : Decidable (node.InRange e) :=
  inferInstanceAs (Decidable (∀ id ∈ node.peerIds e, InGroup node.groupSize id))

section Ids

variable {n : ℕ} {node : Node}

/-- Only the addressee of a reply is used as an index. -/
theorem callIds_reply {reply : Option Int} {c c' : Comp} (sends : Comp.Sends reply c c')
    (id : NodeId) (member : id ∈ callIds c c') : reply = some id := by
  obtain ⟨sent, calls, address⟩ := sends
  rw [callIds, calls, List.drop_left] at member
  obtain ⟨called, nonneg⟩ := List.mem_filter.mp member
  obtain ⟨call, new, rfl⟩ := List.mem_map.mp called
  rcases (address call new).2 with others | answered
  · rw [others] at nonneg
    cases nonneg
  · exact answered

theorem KnowsGroup.learnerIds (knows : KnowsGroup n node) (allocated : node.modAllocated = true)
    (voter : NodeId) (pnum : Int) (content : NodeId) (member : InGroup n voter)
    (inside : InGroup n content) : ∀ id ∈ node.learnerIds voter pnum content, InGroup n id := by
  have learnt := (knows.mod allocated).learn voter pnum content inside
  simp only [Node.learnerIds, knows.groupSize]
  split
  next newer =>
    split
    next decided found => simp [member, learnt.decided decided found]
    next => simp [member]
  next older => simp [member]

theorem KnowsGroup.electionIds (knows : KnowsGroup n node) (allocated : node.modAllocated = true)
    (msg : LeleMsg) (names : msg.Names n) : ∀ id ∈ node.electionIds msg, InGroup n id := by
  simp only [Node.electionIds]
  split
  next other => split <;> simp [names.1]
  next current =>
    cases type : msg.type with
    | prepare => simp only; split <;> simp [names.1]
    | prepareAck =>
      simp only [proposerIds]
      split <;> simp [names.1, knows.member]
    | accept =>
      simp only
      split
      next => exact knows.learnerIds allocated _ _ _ knows.member (names.2.2 (.inl type))
      next => simp
    | acceptAck => exact knows.learnerIds allocated _ _ _ names.1 (names.2.2 (.inr (.inl type)))
    | announce => simp [names.2.2 (.inr (.inr (.inl type)))]
    | announceAck =>
      simp only
      split
      next early => simp [names.1, ← early.2, knows.member]
      next => simp [names.1]
    | fin => simp
    | higherNode => simp
    | lagged => simp

/-- The ids of a call are in range unless it forwards a request before any view is entered. -/
theorem KnowsGroup.inRange_iff (knows : KnowsGroup n node) (tidy : Tidy node)
    (e : NodeEnv × NodeEvent) (running : node.comp.fault = none) (names : NamesGroup n e.2) :
    node.InRange e ↔ node.Joined e.2 := by
  obtain ⟨env, event⟩ := e
  simp only [InRange, knows.groupSize]
  cases event with
  | message msg =>
    cases msg with
    | pingReq nodeId view timestamp =>
      simp only [peerIds, Joined, iff_true]
      split <;> simp [names.1]
    | pingAck => simp [peerIds, Joined]
    | consensus msg =>
      simp only [peerIds, Joined, iff_true]
      split
      next active =>
        intro id member
        have answered := callIds_reply
          (Comp.sends_handle node.comp (env.toEnv, .message msg) running) id member
        cases msg with
        | acceptReq => exact Option.some.inj answered ▸ names
        | missingReq => exact Option.some.inj answered ▸ names
        | acceptAck | missingAck | forceExec | forwardReq => cases answered
      next => simp
    | requestSubmit data =>
      simp only [peerIds, Joined, knows.groupSize]
      constructor
      · intro inside active fresh
        by_contra small
        -- a node without a leader would forward to the id 9999
        have secondary : ¬ node.comp.myRole = .leader := by
          intro leads
          have own := knows.role leads
          rw [fresh] at own
          have bound := knows.member.2
          rw [← own] at bound
          exact small (Int.ofNat_lt.mp bound)
        have forwarded : (9999 : NodeId) ∈ callIds node.comp
            (Comp.consensusSubmitRequest env.toEnv node.comp data) := by
          simp [Comp.consensusSubmitRequest, secondary, callIds, Comp.forwardSubmitReq, Comp.uc,
            fresh]
        rw [if_pos active] at inside
        exact small (Int.ofNat_lt.mp (inside 9999 forwarded).2)
      · intro joined
        split
        next active =>
          intro id member
          have answered := callIds_reply
            (Comp.sends_handle node.comp (env.toEnv, .submit data) running) id member
          simp only [Comp.replyTarget] at answered
          split at answered
          next => cases answered
          next =>
            rw [← Option.some.inj answered]
            -- the only target of a submission is the leader of the view
            rcases knows.leader with leader | fresh
            · exact leader
            · rw [fresh]
              exact LeleMod.inGroup_natCast (joined active fresh)
        next => simp
    | leaderElection msg data =>
      simp only [peerIds, Joined, iff_true]
      split
      next electing => exact knows.electionIds (tidy.allocated electing) msg names
      next => simp
  | leaderPing => simp [peerIds, Joined]
  | expectPing => simp [peerIds, Joined]
  | makeProgress =>
    simp only [peerIds, Joined, iff_true]
    split
    next leads =>
      intro id member
      have answered := callIds_reply
        (Comp.sends_handle node.comp (env.toEnv, .makeProgress) running) id member
      cases answered
    next => simp
  | electionTimeout =>
    simp only [peerIds, timeoutIds, Joined, iff_true]
    cases state : node.state with
    | active => simp
    | inLele =>
      simp only
      split <;> simp [knows.member]
    | postLele =>
      have mod := knows.mod (tidy.allocated (by rw [state]; exact NodeState.noConfusion))
      simp only
      split <;> simp [mod.newLeader]

end Ids

/-! ## The ids cover every addressee -/

/-- What is sent from `node` to `node'` goes to all others or to an id in `ids`. -/
def Adds (ids : List NodeId) (node node' : Node) : Prop :=
  ∃ sent, node'.sent = node.sent ++ sent ∧ ∀ call ∈ sent, call.1 = -1 ∨ call.1 ∈ ids

section Adds

variable {ids : List NodeId} {node before node' : Node}

theorem Adds.silent (same : node'.sent = node.sent) : Adds ids node node' :=
  ⟨[], by rw [same, List.append_nil], fun call member => by cases member⟩

theorem Adds.one (target : Int) (msg : SysMsg) (same : node'.sent = node.sent ++ [(target, msg)])
    (address : target = -1 ∨ target ∈ ids) : Adds ids node node' := by
  refine ⟨[(target, msg)], same, fun call member => ?_⟩
  obtain rfl := List.mem_singleton.mp member
  exact address

theorem Adds.trans (first : Adds ids node before) (second : Adds ids before node') :
    Adds ids node node' := by
  obtain ⟨sent, calls, known⟩ := first
  obtain ⟨sent', calls', known'⟩ := second
  refine ⟨sent ++ sent', by rw [calls', calls, List.append_assoc], fun call member => ?_⟩
  rcases List.mem_append.mp member with old | new
  · exact known call old
  · exact known' call new

theorem Adds.mono {more : List NodeId} (adds : Adds ids node node') (part : ids ⊆ more) :
    Adds more node node' := by
  obtain ⟨sent, calls, known⟩ := adds
  exact ⟨sent, calls, fun call member => (known call member).imp_right fun named => part named⟩

theorem Adds.andThen {next : Node → Node} (first : Adds ids node before)
    (rest : Adds ids before (next before)) : Adds ids node (before.andThen next) := by
  simp only [Node.andThen]
  split
  next => exact first.trans rest
  next => exact first

theorem sent_afterUpdateView (env : NodeEnv) (node : Node) (newViewInfo : View) :
    (node.updateView env newViewInfo).sent = node.sent := by
  simp only [Node.updateView, Node.andThen, Node.initializeLeaderPing, Node.initializeExpectPing]
  split_ifs <;> rfl

private theorem adds_checkPrepare (env : NodeEnv) (node : Node) :
    Adds ids node (node.checkPrepare env) := by
  simp only [Node.checkPrepare, Node.leaderElectionProposerPhaseTwo]
  split
  next content found =>
    split
    next unset => exact .silent rfl
    next set => exact .one (-1) _ rfl (.inl rfl)
  next => exact .silent rfl

private theorem adds_leaderElectionPropose (env : NodeEnv) (node : Node) :
    Adds ids node (node.leaderElectionPropose env) := by
  simp only [Node.leaderElectionPropose]
  split
  next higher =>
    refine Adds.trans ?_ (adds_checkPrepare env _)
    exact .one (-1) _ rfl (.inl rfl)
  next lower => exact .one (-1) _ rfl (.inl rfl)

private theorem adds_leaderElectionProposerDo (env : NodeEnv) (node : Node) (msg : LeleMsg) :
    Adds ids node (node.leaderElectionProposerDo env msg) := by
  simp only [Node.leaderElectionProposerDo]
  split
  next other => exact .silent rfl
  next isAck =>
    split
    next current =>
      split
      next inside =>
        refine Adds.trans ?_ (adds_checkPrepare env _)
        exact .silent rfl
      next outside => exact .silent rfl
    next old => exact .silent rfl

private theorem adds_handlePrepare (env : NodeEnv) (node : Node) (msg : LeleMsg) :
    Adds (if node.electionMod.acceptor.highestSeenPnum < msg.pnum then [msg.nodeId] else []) node
      (node.handlePrepare env msg) := by
  -- whether the node is made to wait plays no part
  obtain ⟨timer, waits⟩ := stopPropose_timer node msg
  simp only [Node.handlePrepare]
  rw [waits]
  split
  next higher => exact .one msg.nodeId _ rfl (.inr (List.mem_singleton_self _))
  next lower => exact .silent rfl

private theorem adds_leaderElectionHandleAnnounce (env : NodeEnv) (node : Node) (msg : LeleMsg) :
    Adds [msg.content] node (node.leaderElectionHandleAnnounce env msg) := by
  simp only [Node.leaderElectionHandleAnnounce, Node.leaderElectionInitializeEdgeMod,
    Node.leaderElectionCalEdge]
  have reply : ∀ reply : SysMsg, ∀ node' : Node,
      node'.sent = node.sent ++ [(msg.content, reply)] → Adds [msg.content] node node' :=
    fun reply node' same => .one msg.content reply same (.inr (List.mem_singleton_self _))
  split
  next own => split <;> exact .silent rfl
  next other =>
    split
    next seen =>
      split
      next huge => exact .silent rfl
      next sized =>
        split
        next fault _ => exact .silent rfl
        next => exact reply _ _ rfl
    next nothing => exact reply _ _ rfl

private theorem adds_leaderElectionLearnerDo (env : NodeEnv) (node : Node) (msg : LeleMsg) :
    Adds (node.learnerIds msg.nodeId msg.pnum msg.content) node
      (node.leaderElectionLearnerDo env msg) := by
  simp only [Node.leaderElectionLearnerDo]
  split
  next known =>
    split
    next newer =>
      split
      next => exact .silent rfl
      next decided found =>
        have group : (node.withMod { node.electionMod with
            learnerArr := Function.update node.electionMod.learnerArr msg.nodeId
              ⟨msg.pnum, msg.content⟩ }).groupSize = node.groupSize := rfl
        rw [group] at found
        have ids : node.learnerIds msg.nodeId msg.pnum msg.content =
            [msg.nodeId, decided.content] := by
          simp only [Node.learnerIds, if_pos newer, found]
        rw [ids]
        have leader : [decided.content] ⊆ [msg.nodeId, decided.content] :=
          List.subset_cons_self _ _
        refine Adds.trans ?_ ((adds_leaderElectionHandleAnnounce env _ _).mono leader)
        exact .one (-1) _ rfl (.inl rfl)
    next older => exact .silent rfl
  next outside => exact .silent rfl

private theorem adds_handleAccept (env : NodeEnv) (node : Node) (msg : LeleMsg) :
    Adds (if node.electionMod.acceptor.highestSeenPnum ≤ msg.pnum
      then node.learnerIds node.nodeId msg.pnum msg.content else []) node
      (node.handleAccept env msg) := by
  simp only [Node.handleAccept]
  split
  next accepts =>
    refine Adds.andThen ?_ (.one (-1) _ rfl (.inl rfl))
    -- the acknowledgement the learner gets repeats the proposal under the node's own id
    exact Adds.trans (.silent rfl) (adds_leaderElectionLearnerDo env _ _)
  next refuses => exact .silent rfl

private theorem adds_mergeAnnounceAck (env : NodeEnv) (node : Node) (msg : LeleMsg)
    (data : List UInt32) : Adds ids node (node.mergeAnnounceAck env msg data) := by
  simp only [Node.mergeAnnounceAck]
  split
  next => exact .silent rfl
  next =>
    split
    next =>
      split
      next => exact .silent rfl
      next =>
        generalize same : node.withMod _ = before
        have silent : before.sent = node.sent := by
          subst same
          rfl
        split
        next => exact .silent silent
        next =>
          split
          next =>
            refine Adds.andThen (.silent ((sent_afterUpdateView env before _).trans silent)) ?_
            exact .one (-1) _ rfl (.inl rfl)
          next => exact .silent silent
    next => exact .silent rfl

private theorem adds_leaderElectionDo (env : NodeEnv) (node : Node) (msg : LeleMsg)
    (data : List UInt32) (current : msg.nextView = node.viewId + 1) :
    Adds (node.electionIds msg) node (node.leaderElectionDo env msg data) := by
  simp only [Node.electionIds, Node.leaderElectionDo, if_neg (not_not.mpr current)]
  cases msg.type with
  | prepare => exact adds_handlePrepare env node msg
  | prepareAck => exact adds_leaderElectionProposerDo env node msg
  | accept => exact adds_handleAccept env node msg
  | acceptAck => exact adds_leaderElectionLearnerDo env node msg
  | announce => exact adds_leaderElectionHandleAnnounce env node msg
  | announceAck =>
    simp only [Node.leaderElectionHandleAnnounceAck]
    split
    next early =>
      refine Adds.andThen ?_ (adds_mergeAnnounceAck env _ msg data)
      refine (adds_leaderElectionHandleAnnounce env node msg).mono ?_
      intro id member
      exact List.mem_cons.mpr (.inl (List.mem_singleton.mp member))
    next => exact Adds.andThen (.silent rfl) (adds_mergeAnnounceAck env node msg data)
  | fin =>
    simp only [Node.leaderElectionHandleClose]
    split
    next => exact .silent (sent_afterUpdateView env node _)
    next => exact .silent rfl
  | higherNode => exact adds_leaderElectionProposerDo env node msg
  | lagged => exact .silent rfl

private theorem adds_handleMsg (env : NodeEnv) (node : Node) (msg : SysMsg) :
    Adds (node.peerIds (env, .message msg)) node (node.handleMsg env msg) := by
  cases msg with
  | pingAck nodeId view timestamp =>
    simp only [Node.handleMsg, handlePingAck_ignored, ite_self]
    exact .silent rfl
  | pingReq nodeId view timestamp =>
    simp only [Node.handleMsg, Node.peerIds]
    by_cases pinged : node.state ≠ .postLele
    · rw [if_pos pinged, Node.handlePingReq]
      by_cases ahead : node.viewId + 1 = view.viewId
      · rw [if_pos ahead]
        exact .silent (sent_afterUpdateView env node view)
      · rw [if_neg ahead]
        by_cases behind : node.viewId = view.viewId + 1
        · rw [if_pos behind, if_pos ⟨pinged, ahead, behind⟩]
          exact .one nodeId _ rfl (.inr (List.mem_singleton_self _))
        · rw [if_neg behind]
          refine .silent ?_
          dsimp only
          split_ifs <;> rfl
    · rw [if_neg pinged]
      exact .silent rfl
  | consensus msg =>
    simp only [Node.handleMsg]
    split <;> exact .silent rfl
  | requestSubmit data =>
    simp only [Node.handleMsg]
    split <;> exact .silent rfl
  | leaderElection msg data =>
    simp only [Node.handleMsg]
    split
    next inElection =>
      have electing := electing_of_reads inElection
      have ids : node.peerIds (env, .message (.leaderElection msg data)) = node.electionIds msg :=
        if_pos electing
      rw [ids]
      simp only [Node.handleLeaderElectionMsg]
      split
      next other =>
        split
        next late =>
          split
          next close closes =>
            refine .one msg.nodeId _ rfl (.inr ?_)
            have found : (node.comp.db.retrieveRecord (vstol ⟨msg.nextView, 0⟩)).isSome := by
              rw [Node.leaderElectionBuildClose, Option.map_eq_some_iff] at closes
              obtain ⟨value, found, -⟩ := closes
              rw [found]
              rfl
            rw [Node.electionIds, if_pos other, if_pos ⟨late, found⟩]
            exact List.mem_singleton_self _
          next => exact .silent rfl
        next => exact .silent rfl
      next current => exact adds_leaderElectionDo env node msg data (not_not.mp current)
    next => exact .silent rfl

private theorem adds_leaderElectionOnTimeout (env : NodeEnv) (node : Node) :
    Adds node.timeoutIds node (node.leaderElectionOnTimeout env) := by
  simp only [Node.leaderElectionOnTimeout]
  split
  next post =>
    split
    next other =>
      split
      next msg kept =>
        have ids : node.timeoutIds = [node.electionMod.newLeader] := by
          simp only [timeoutIds, post]
          exact if_pos ⟨other, by rw [kept]; rfl⟩
        rw [ids]
        exact .one node.electionMod.newLeader msg rfl (.inr (List.mem_singleton_self _))
      next => exact .silent rfl
    next own => exact .silent rfl
  next electing => exact Adds.andThen (adds_leaderElectionPropose env node) (.silent rfl)
  next => exact .silent rfl

/-- Whatever a call sends to one node, it sends to one of its ids. -/
theorem adds_dispatch (node : Node) (e : NodeEnv × NodeEvent) :
    Adds (node.peerIds e) node (node.dispatch e) := by
  obtain ⟨env, event⟩ := e
  cases event with
  | message msg => exact adds_handleMsg env node msg
  | leaderPing =>
    simp only [Node.dispatch, Node.leaderPingPeriod, Node.initializeExpectPing]
    split
    next leads => split <;> exact .one (-1) _ rfl (.inl rfl)
    next follows => split_ifs <;> exact .silent rfl
  | expectPing =>
    simp only [Node.dispatch, Node.expectedLeaderPingPeriod, Node.initializeExpectPing,
      Node.initializeLeaderPing]
    split_ifs <;> exact .silent rfl
  | makeProgress =>
    simp only [Node.dispatch, Node.makeProgressOn, Node.initializeLeaderMakeProgress, Node.andThen]
    split_ifs <;> exact .silent rfl
  | electionTimeout =>
    have fired := adds_leaderElectionOnTimeout env
      (node.withMod { node.electionMod with slientPeriod := .idle })
    exact Adds.trans (.silent rfl) fired

end Adds

/-! ## Starts and restarts -/

/-- The node is started again over the database `db`; what it has sent may still be under way. -/
def restarted (node : Node) (db : Database) (start : Boot) : Node :=
  let fresh := Life.boot node db start
  { fresh with
    sent := node.sent
    comp := { fresh.comp with upCalls := node.comp.upCalls } }

theorem Member.restarted {n : ℕ} {i : NodeId} {node : Node} (member : Member n i node)
    (db : Database) (start : Boot) : Member n i (node.restarted db start) := by
  have booted := Life.boot_member node db start member
  obtain ⟨timed, tidy⟩ := booted
  exact ⟨⟨timed.leaderPing, timed.kept, timed.expectPing, timed.leads, timed.election⟩,
    ⟨tidy.cleared, tidy.allocated, tidy.resent⟩, member.nodeId, member.groupSize⟩

/-- The view of a component that has just started. -/
theorem init_leader (seed : Bool) (nodeId groupSize : ℕ) (inside : nodeId < groupSize) :
    (InGroup groupSize (Comp.init seed nodeId groupSize).curView.leaderId ∨
      (Comp.init seed nodeId groupSize).curView = ⟨0, 9999, 0⟩) ∧
    ((Comp.init seed nodeId groupSize).myRole = .leader →
      (Comp.init seed nodeId groupSize).curView.leaderId = nodeId) := by
  cases seed with
  | true => exact ⟨.inl (LeleMod.inGroup_natCast inside), fun _ => rfl⟩
  | false =>
    refine ⟨.inr rfl, fun leads => ?_⟩
    by_contra other
    simp [Comp.init] at leads
    exact other leads

theorem KnowsGroup.restarted {n : ℕ} {node : Node} (knows : KnowsGroup n node) (db : Database)
    (start : Boot) : KnowsGroup n (node.restarted db start) := by
  have small : node.comp.nodeId < n := Int.ofNat_lt.mp knows.member.2
  have view := init_leader start.seed node.comp.nodeId n small
  rw [← knows.groupSize] at view
  exact {
    member := knows.member
    groupSize := knows.groupSize
    leader := knows.groupSize ▸ view.1
    role := view.2
    calls := knows.calls
    mod := fun allocated => by cases allocated
    sent := knows.sent }

end Node

namespace Cluster

open Node

variable {n : ℕ}

/-- A call of a node, or its restart over whatever its database holds then. -/
inductive LivesEvent (n : ℕ) where
  | call (e : ClusterEvent n)
  | restart (i : Fin n) (db : Database) (start : Boot)

/-- The cluster with restarts. -/
def lives (n : ℕ) : Machine (Cluster n) (LivesEvent n) where
  initial := Booted
  enabled g
    | .call e => (machine Booted).enabled g e
    | .restart _ _ _ => True
  apply g
    | .call e => act g e
    | .restart i db start => Function.update g i ((g i).restarted db start)

/-- No request comes to a node that has entered no view, and no late election message is answered
with a record that names no node. -/
def namesMembers (g : Cluster n) : LivesEvent n → Prop
  | .call e => (g e.1).Joined e.2.2 ∧ (g e.1).AnswersMember e.2.2
  | .restart _ _ _ => True

instance (g : Cluster n) : ∀ e, Decidable ((lives n).enabled g e)
  | .call e => inferInstanceAs (Decidable ((machine Booted).enabled g e))
  | .restart _ _ _ => .isTrue trivial

instance (g : Cluster n) : ∀ e, Decidable (namesMembers g e)
  | .call e => inferInstanceAs (Decidable ((g e.1).Joined e.2.2 ∧ (g e.1).AnswersMember e.2.2))
  | .restart _ _ _ => .isTrue trivial

/-- A message that arrives is from a node of the group. -/
theorem namesGroup_of_sent {g : Cluster n} (knows : ∀ k, KnowsGroup n (g k)) (i : Fin n)
    (event : NodeEvent) (sent : Sent g i event) : NamesGroup n event := by
  cases event with
  | message msg =>
    cases msg with
    | consensus msg =>
      obtain ⟨source, ⟨address, built⟩, member, -, received⟩ := sent
      have named := ((knows source).calls _ member).2
      -- the names in a message are read as they were sent
      cases received with
      | whole => exact named
      | short => exact named
    | requestSubmit data => trivial
    | pingReq nodeId view timestamp =>
      obtain ⟨source, call, member, -, same⟩ := sent
      exact same ▸ ((knows source).sent call member).2
    | pingAck nodeId view timestamp => trivial
    | leaderElection msg data =>
      obtain ⟨source, call, member, -, same⟩ := sent
      exact same ▸ ((knows source).sent call member).2
  | leaderPing => trivial
  | expectPing => trivial
  | makeProgress => trivial
  | electionTimeout => trivial

theorem knows_of_reaches (g : Cluster n) (reached : (lives n).Reaches namesMembers g) (i : Fin n) :
    (g i).Member n (i : ℕ) ∧ KnowsGroup n (g i) := by
  revert i
  apply reached.invariant
  · intro g booted i
    refine ⟨booted.member i, ?_⟩
    obtain ⟨seed, expectPingTimeval, now, env, same⟩ := booted i
    have view := init_leader seed i n i.isLt
    rw [same]
    exact {
      member := LeleMod.inGroup_natCast i.isLt
      groupSize := rfl
      leader := view.1
      role := view.2
      calls := fun call member => by cases member
      mod := fun allocated => by cases allocated
      sent := fun call member => by cases member }
  · intro g e known allowed enabled i
    cases e with
    | call e =>
      by_cases actor : i = e.1
      · subst actor
        have names := namesGroup_of_sent (fun k => (known k).2) e.1 e.2.2 enabled.2
        obtain ⟨member, knows⟩ := known e.1
        show (act g e e.1).Member n _ ∧ KnowsGroup n (act g e e.1)
        rw [act_self]
        exact ⟨member.dispatch e.2 enabled.1, knows.dispatch member.timed member.tidy e.2 enabled.1
          names allowed.1 allowed.2⟩
      · show (act g e i).Member n _ ∧ KnowsGroup n (act g e i)
        rw [act_other g e i actor]
        exact known i
    | restart j db start =>
      by_cases same : i = j
      · subst same
        show (Function.update g i _ i).Member n _ ∧ KnowsGroup n (Function.update g i _ i)
        rw [Function.update_self]
        exact ⟨(known i).1.restarted db start, (known i).2.restarted db start⟩
      · show (Function.update g j _ i).Member n _ ∧ KnowsGroup n (Function.update g j _ i)
        rw [Function.update_of_ne same]
        exact known i

/-- In every run in which no node forwards a request before it has entered a view, and none answers
a late message with a record that names no node, every message goes to all others or to a node of
the group, and the next call of any node indexes in range unless it is such a request. -/
theorem peer_ids_in_range (n : ℕ) (g : Cluster n) (reached : (lives n).Reaches namesMembers g)
    (i : Fin n) :
    (∀ call ∈ (g i).sent, call.1 = -1 ∨ InGroup n call.1) ∧
    (∀ call ∈ (g i).comp.upCalls, call.1 = -1 ∨ InGroup n call.1) ∧
    ∀ e, (machine Booted).enabled g (i, e) → ((g i).InRange e ↔ (g i).Joined e.2) := by
  have known := knows_of_reaches g reached
  obtain ⟨member, knows⟩ := known i
  refine ⟨fun call sent => (knows.sent call sent).1, fun call sent => (knows.calls call sent).1, ?_⟩
  intro e enabled
  exact knows.inRange_iff member.tidy e enabled.1.1
    (namesGroup_of_sent (fun k => (known k).2) i e.2 enabled.2)

/-- Node 0 learns that nodes 0 and 2 have accepted node 1, and node 2 starts again. -/
def learnsAndRestarts : List (LivesEvent 3) :=
  learnedByZero.map .call ++ [.restart 2 Database.empty ⟨false, ⟨8, 0⟩, ⟨0, 0⟩, lateEnv⟩]

/-- Node 1 takes the announcement of node 0, the leader being node 1 itself. -/
theorem announced_in_range :
    (learnsAndRestarts.foldl (lives 3).apply unseeded 1).InRange
      (firstElection 1 0 .announce 1 0 1).2 := by
  have accepted : (lives 3).Accepts namesMembers unseeded learnsAndRestarts := by decide
  have reached : (lives 3).Reaches namesMembers
      (learnsAndRestarts.foldl (lives 3).apply unseeded) :=
    ⟨unseeded, fun _ => ⟨_, _, _, _, rfl⟩, accepted.run⟩
  exact ((peer_ids_in_range 3 _ reached 1).2.2 (firstElection 1 0 .announce 1 0 1).2
    (by decide)).mpr trivial

/-- Node 0 has entered no view and gets a request, which it forwards to node 9999. -/
theorem forwarded_out_of_range :
    ¬ ∀ (n : ℕ) (g : Cluster n), (lives n).Reaches Machine.anything g → ∀ (i : Fin n) e,
      (machine Booted).enabled g (i, e) → (g i).InRange e := by
  intro claim
  have inside := claim 3 unseeded ⟨unseeded, fun _ => ⟨_, _, _, _, rfl⟩, .refl⟩ 0
    (lateEnv, .message (.requestSubmit [7])) (by decide)
  exact absurd inside (by decide)

end Cluster

end LibeventPaxos
