import LibeventPaxos.Voting
import LibeventPaxos.Cluster
import LibeventPaxos.NodeFrame

/-!
Every call of a node is a sequence of atomic steps of its votes.
-/
namespace LibeventPaxos

open Lib

namespace Node

/-! ## Handlers that touch no vote -/

theorem voting_andThen {node : Node} {next : Node → Node}
    (same : (next node).voting = node.voting) : (node.andThen next).voting = node.voting := by
  simp only [andThen]
  split
  next => exact same
  next => rfl

theorem voting_updateView (env : NodeEnv) (node : Node) (newViewInfo : View) :
    (node.updateView env newViewInfo).voting = node.voting := by
  simp only [updateView]
  split
  next successor =>
    refine voting_andThen ?_
    simp only [initializeLeaderPing, initializeExpectPing]
    split <;> split <;> rfl
  next => rfl

theorem voting_leaderElectionHandleAnnounce (env : NodeEnv) (node : Node) (msg : LeleMsg) :
    (node.leaderElectionHandleAnnounce env msg).voting = node.voting := by
  simp only [leaderElectionHandleAnnounce]
  split
  next own =>
    simp only [leaderElectionInitializeEdgeMod]
    split <;> rfl
  next other =>
    simp only [leaderElectionCalEdge]
    split
    next seen =>
      split
      next huge => rfl
      next sized =>
        split
        next fault _ => rfl
        next => exact voting_sendOther _ _ _ rfl
    next nothing => exact voting_sendOther _ _ _ rfl

private theorem voting_leaderElectionLeaderClose (env : NodeEnv) (node : Node) :
    (node.leaderElectionLeaderClose env).voting = node.voting := by
  simp only [leaderElectionLeaderClose]
  rw [voting_andThen (voting_sendOther _ _ _ rfl), voting_updateView]

theorem voting_leaderElectionHandleAnnounceAck (env : NodeEnv) (node : Node) (msg : LeleMsg)
    (data : List UInt32) :
    (node.leaderElectionHandleAnnounceAck env msg data).voting = node.voting := by
  have merges : ∀ node : Node, (node.mergeAnnounceAck env msg data).voting = node.voting := by
    intro node
    simp only [mergeAnnounceAck]
    split
    next => rfl
    next =>
      split
      next =>
        split
        next => rfl
        next =>
          split
          next => rfl
          next =>
            split
            next => exact voting_leaderElectionLeaderClose env _
            next => rfl
      next => rfl
  simp only [leaderElectionHandleAnnounceAck]
  rw [voting_andThen (merges _)]
  split
  next => exact voting_leaderElectionHandleAnnounce env node msg
  next => rfl

section Handlers

variable {n : ℕ} {i : NodeId} {timeout : Prop} {heard : LeleMsg → Prop}
  {checks decides : Voting → Prop}
  {node : Node}

open Voting (Steps Step Hears)

/-! ## The handlers as sequences of atomic steps -/

/-- The check finds no majority, or the second phase follows. -/
theorem voting_checkPrepare (env : NodeEnv) (groupSize : node.groupSize = n)
    (nodeId : node.nodeId = i) : (node.checkPrepare env).voting = node.voting ∨
      ∃ content msg, Voting.Vote i node.voting .accept msg ∧
        node.voting.mod.proposerCheckPrepare n = some content ∧
        msg.pnum = node.voting.mod.origin n ∧ msg.content = Voting.choice i content ∧
        (node.checkPrepare env).voting =
          (node.voting.learn i msg.pnum msg.content).say msg := by
  simp only [checkPrepare]
  split
  next content found =>
    simp only [leaderElectionProposerPhaseTwo]
    split
    next unset => exact .inl rfl
    next set =>
      subst groupSize
      subst nodeId
      -- the proposal is entered into the learner before it is sent
      have sent := voting_sendVote (node.withMod { node.electionMod with
        learnerArr := Function.update node.electionMod.learnerArr node.nodeId
          ⟨node.electionMod.origin node.groupSize, Voting.choice node.nodeId content⟩ }) (-1)
        (node.electionMod.buildLeleMsg env node.nodeId .accept
          (node.electionMod.origin node.groupSize, Voting.choice node.nodeId content)) [] rfl
      exact .inr ⟨content, node.electionMod.buildLeleMsg env node.nodeId .accept
        (node.electionMod.origin node.groupSize, Voting.choice node.nodeId content),
        ⟨rfl, rfl, rfl⟩, found, rfl, rfl, sent⟩
  next => exact .inl rfl

/-- The votes once a round has begun with the PREPARE. -/
def begunRound (n : ℕ) (v : Voting) (msg : LeleMsg) : Voting :=
  Voting.say { v with mod := { v.mod with nextPnum := v.mod.nextPnum + n } } msg

/-- What a new round does to the votes: the PREPARE is sent, and if its number is above what the
node has seen, the node promises it to itself and checks whether that completes the round. -/
structure Proposes (n : ℕ) (i : NodeId) (v : Voting) (msg : LeleMsg) (v' : Voting) : Prop where
  vote : Voting.Vote i v .prepare msg
  fields : msg.pnum = v.mod.nextPnum ∧ msg.content = -1
  lower : ¬ v.mod.acceptor.highestSeenPnum < v.mod.nextPnum → v' = begunRound n v msg
  higher : v.mod.acceptor.highestSeenPnum < v.mod.nextPnum →
    v' = (begunRound n v msg).promiseOwn n i ∨
    ∃ content accept, Voting.Vote i v .accept accept ∧
      ((begunRound n v msg).promiseOwn n i).mod.proposerCheckPrepare n = some content ∧
      accept.pnum = (begunRound n v msg).mod.origin n ∧
      accept.content = Voting.choice i content ∧
      v' = (((begunRound n v msg).promiseOwn n i).learn i accept.pnum accept.content).say accept

theorem begunRound_origin (v : Voting) (msg : LeleMsg) :
    (begunRound n v msg).mod.origin n = v.mod.nextPnum := Int.add_sub_cancel _ _

theorem voting_leaderElectionPropose (env : NodeEnv) (groupSize : node.groupSize = n)
    (nodeId : node.nodeId = i) :
    ∃ msg, Proposes n i node.voting msg (node.leaderElectionPropose env).voting := by
  simp only [leaderElectionPropose]
  generalize built : node.electionMod.buildLeleMsg env node.nodeId .prepare (0, 0) = msg
  -- the PREPARE carries the number of the round that begins
  have vote : Voting.Vote i node.voting .prepare msg := by
    subst built
    exact ⟨rfl, nodeId, rfl⟩
  have fields : msg.pnum = node.voting.mod.nextPnum ∧ msg.content = -1 := by
    subst built
    exact ⟨rfl, rfl⟩
  have isVote : msg.type.isVote = true := by rw [vote.type]; rfl
  generalize proposed : node.withMod { node.electionMod with
    nextPnum := node.electionMod.nextPnum + node.groupSize, slientPeriod := .pending } = node'
  generalize opened : node'.sendToOtherNodes (.leaderElection msg []) = round
  have begins : round.voting = begunRound n node.voting msg := by
    subst opened
    rw [sendToOtherNodes, voting_sendVote node' (-1) msg [] isVote]
    subst proposed
    subst groupSize
    rfl
  refine ⟨msg, vote, fields, fun lower => ?_, fun higher => ?_⟩
  · split
    next higher => exact absurd higher lower
    next => exact begins
  · split
    next =>
      generalize promised : (round.withMod _).acceptorUpdateRecord = own
      have voting : own.voting = (begunRound n node.voting msg).promiseOwn n i := by
        have origin := begunRound_origin (n := n) node.voting msg
        simp only [Voting.promiseOwn, origin]
        rw [← begins]
        subst promised
        subst opened
        subst proposed
        subst nodeId
        rfl
      have same : own.groupSize = n ∧ own.nodeId = i := by
        subst promised
        subst opened
        subst proposed
        exact ⟨groupSize, nodeId⟩
      have checked := voting_checkPrepare env same.1 same.2
      rw [voting] at checked
      rcases checked with unchanged | ⟨content, accept, vote', found, pnum, chosen, result⟩
      · exact .inl unchanged
      · exact .inr ⟨content, accept, ⟨vote'.type, vote'.nodeId, vote'.nextView⟩, found, pnum, chosen,
          result⟩
    next lower => exact absurd higher lower

theorem steps_leaderElectionPropose (env : NodeEnv) (groupSize : node.groupSize = n)
    (nodeId : node.nodeId = i) (begun : node.modAllocated = true) (due : timeout) :
    Steps n i timeout heard checks decides node.voting (node.leaderElectionPropose env).voting := by
  obtain ⟨msg, proposes⟩ := voting_leaderElectionPropose env groupSize nodeId
  have first : Step n i timeout heard checks decides node.voting (begunRound n node.voting msg) :=
    .propose _ due msg proposes.vote proposes.fields.1 proposes.fields.2
  by_cases higher : node.voting.mod.acceptor.highestSeenPnum < node.voting.mod.nextPnum
  · have above : (begunRound n node.voting msg).mod.acceptor.highestSeenPnum <
        (begunRound n node.voting msg).mod.origin n := by
      rw [begunRound_origin]
      exact higher
    rcases proposes.higher higher with result | ⟨content, accept, vote, found, pnum, chosen, result⟩
    · rw [result]
      exact .tail (.single first) (.promiseOwn _ due above)
    · rw [result]
      exact .tail (.single first) (.proposeAlone _ due begun above content accept
        ⟨vote.type, vote.nodeId, vote.nextView⟩ found pnum chosen)
  · rw [proposes.lower higher]
    exact .single first

theorem steps_leaderElectionProposerDo (env : NodeEnv) (msg : LeleMsg)
    (groupSize : node.groupSize = n) (nodeId : node.nodeId = i) (begun : node.modAllocated = true)
    (hears : Hears heard node.voting msg.type msg)
    (checked : msg.type = .prepareAck → msg.pPnum = node.electionMod.origin n →
      checks (node.voting.answer n msg)) :
    Steps n i timeout heard checks decides node.voting
      (node.leaderElectionProposerDo env msg).voting := by
  simp only [leaderElectionProposerDo]
  split
  next other => exact .refl
  next isAck =>
    have isAck := not_not.mp isAck
    split
    next round =>
      split
      next inGroup =>
        subst groupSize
        subst nodeId
        generalize entered : node.withMod _ = node'
        have answers : Step node.groupSize node.nodeId timeout heard checks decides node.voting
            node'.voting := by
          subst entered
          exact .answer _ msg (isAck ▸ hears) round.1 inGroup
        have checks' : checks node'.voting := by
          subst entered
          exact checked isAck round.1
        have same : node'.groupSize = node.groupSize ∧ node'.nodeId = node.nodeId ∧
            node'.voting.begun = true := by
          subst entered
          exact ⟨rfl, rfl, begun⟩
        rcases voting_checkPrepare env same.1 same.2.1 with
          unchanged | ⟨content, accept, vote, found, pnum, chosen, result⟩
        · rw [unchanged]
          exact .single answers
        · rw [result]
          exact .tail (.single answers) (.phaseTwo _ same.2.2 content accept vote checks' found pnum
            chosen)
      next outside => exact .refl
    next old => exact .refl

/-- A PREPARE with a number above all seen is promised, and answered with the number accepted and
the content of the PREPARE. -/
theorem voting_handlePrepare (env : NodeEnv) (msg : LeleMsg) (nodeId : node.nodeId = i) :
    (¬ node.electionMod.acceptor.highestSeenPnum < msg.pnum ∧
      (node.handlePrepare env msg).voting = node.voting) ∨
    (node.electionMod.acceptor.highestSeenPnum < msg.pnum ∧
      ∃ ack, Voting.Vote i node.voting .prepareAck ack ∧
        ack.pnum = node.electionMod.acceptor.acceptedPnum ∧ ack.content = msg.content ∧
        ack.pPnum = msg.pnum ∧
        (node.handlePrepare env msg).voting =
          (node.voting.promise msg.pnum msg.content).say ack) := by
  obtain ⟨timer, waits⟩ := stopPropose_timer node msg
  simp only [handlePrepare, waits]
  split
  next higher =>
    generalize promised : (node.withMod { node.electionMod with
      slientPeriod := timer
      acceptor := { node.electionMod.acceptor with
        highestSeenPnum := msg.pnum, content := msg.content } }).acceptorUpdateRecord = node'
    have voting : node'.voting = node.voting.promise msg.pnum msg.content := by
      subst promised
      rfl
    generalize built : LeleMod.buildLeleMsg env node'.nodeId node'.electionMod .prepareAck (0, 0) =
      ack
    have isVote : ack.type.isVote = true := by
      subst built
      rfl
    have sent := voting_sendVote node' msg.nodeId ack [] isVote
    rw [voting] at sent
    refine .inr ⟨higher, ack, ?_, ?_, ?_, ?_, sent⟩
    all_goals
      subst built
      subst promised
    · exact ⟨rfl, nodeId, rfl⟩
    · rfl
    · rfl
    · rfl
  next lower => exact .inl ⟨lower, rfl⟩

theorem steps_handlePrepare (env : NodeEnv) (msg : LeleMsg) (nodeId : node.nodeId = i)
    (hears : Hears heard node.voting .prepare msg) :
    Steps n i timeout heard checks decides node.voting (node.handlePrepare env msg).voting := by
  rcases voting_handlePrepare env msg nodeId with
    ⟨-, same⟩ | ⟨higher, ack, vote, pnum, content, pPnum, result⟩
  · rw [same]
    exact .refl
  · rw [result]
    exact .single (.promise _ msg ack hears higher vote pnum content pPnum)

/-- The learner enters a vote, and announces the leader if it decides. -/
theorem steps_leaderElectionLearnerDo (env : NodeEnv) (msg : LeleMsg) (before : Voting)
    (groupSize : node.groupSize = n) (nodeId : node.nodeId = i) (begun : node.modAllocated = true)
    (reached : Steps n i timeout heard checks decides before node.voting)
    (source : Hears heard node.voting .acceptAck msg ∨
      msg.nodeId = i ∧ (node.voting.mod.nextView, msg.pnum, msg.content) ∈ node.accepted)
    (decided : (node.electionMod.learnerArr msg.nodeId).pnum < msg.pnum →
      decides (node.voting.learn msg.nodeId msg.pnum msg.content)) :
    Steps n i timeout heard checks decides before (node.leaderElectionLearnerDo env msg).voting := by
  simp only [leaderElectionLearnerDo]
  split
  next inGroup =>
    split
    next newer =>
      generalize entered : node.withMod { node.electionMod with
        learnerArr := Function.update node.electionMod.learnerArr msg.nodeId
          ⟨msg.pnum, msg.content⟩ } = node'
      have voting : node'.voting = node.voting.learn msg.nodeId msg.pnum msg.content := by
        subst entered
        rfl
      have learns : Steps n i timeout heard checks decides before node'.voting := by
        rw [voting]
        exact .tail reached (.learn _ msg source (groupSize ▸ inGroup) newer)
      split
      next undecided => exact learns
      next entry found =>
        rw [voting_leaderElectionHandleAnnounce]
        generalize built : LeleMod.buildLeleMsg env _ _ LeleType.announce (entry.pnum, entry.content)
          = announcement
        have isVote : announcement.type.isVote = true := by
          subst built
          rfl
        rw [sendToOtherNodes, voting_sendVote node' (-1) announcement [] isVote]
        have begun' : node'.voting.begun = true := by
          subst entered
          exact begun
        refine .tail learns (.announce _ begun' entry announcement ?_ ?_ ?_ ?_ ?_)
        · subst built
          subst entered
          exact ⟨rfl, nodeId, rfl⟩
        · rw [voting]
          exact decided newer
        · subst entered
          exact groupSize ▸ found
        · subst built
          rfl
        · subst built
          rfl
    next older => exact reached
  next outside => exact reached

theorem steps_handleAccept (env : NodeEnv) (msg : LeleMsg) (groupSize : node.groupSize = n)
    (nodeId : node.nodeId = i) (begun : node.modAllocated = true)
    (hears : Hears heard node.voting .accept msg)
    (decided : node.electionMod.acceptor.highestSeenPnum ≤ msg.pnum →
      (node.electionMod.learnerArr i).pnum < msg.pnum →
      decides ((node.voting.accept msg.pnum msg.content).learn i msg.pnum msg.content)) :
    Steps n i timeout heard checks decides node.voting (node.handleAccept env msg).voting := by
  simp only [handleAccept]
  split
  next order =>
    generalize accepts : acceptorUpdateRecord { node with
      electionMod := { node.electionMod with acceptor := ⟨msg.pnum, msg.pnum, msg.content⟩ }
      accepted := node.accepted ++ [(node.electionMod.nextView, msg.pnum, msg.content)] } = node'
    have voting : node'.voting = node.voting.accept msg.pnum msg.content := by
      subst accepts
      rfl
    have same : node'.groupSize = n ∧ node'.nodeId = i := by
      subst accepts
      exact ⟨groupSize, nodeId⟩
    -- the acceptance comes first, then the own vote is learned, then the ack goes out
    have first : Steps n i timeout heard checks decides node.voting node'.voting := by
      rw [voting]
      exact .single (.accept _ msg hears order)
    generalize built : LeleMod.buildLeleMsg env node'.nodeId node'.electionMod .acceptAck (0, 0) =
      ack
    have fields : ack.type = .acceptAck ∧ ack.nodeId = i ∧
        ack.nextView = node.electionMod.nextView ∧ ack.pnum = msg.pnum ∧
        ack.content = msg.content := by
      subst built
      subst accepts
      exact ⟨rfl, nodeId, rfl, rfl, rfl⟩
    obtain ⟨type, own, view, pnum, content⟩ := fields
    have member : (node.electionMod.nextView, ack.pnum, ack.content) ∈ node'.accepted := by
      rw [pnum, content]
      subst accepts
      exact List.mem_append_right _ (List.mem_singleton_self _)
    have learns : Steps n i timeout heard checks decides node.voting
        (node'.leaderElectionLearnerDo env ack).voting := by
      have begun' : node'.modAllocated = true := by
        subst accepts
        exact begun
      refine steps_leaderElectionLearnerDo env ack node.voting same.1 same.2 begun' first ?_ ?_
      · rw [voting]
        exact .inr ⟨own, member⟩
      · intro newer
        rw [own, pnum] at newer
        rw [voting, own, pnum, content]
        subst accepts
        exact decided order newer
    have elects := elects_leaderElectionLearnerDo env node' ack
    generalize node'.leaderElectionLearnerDo env ack = learned at learns elects
    by_cases running : learned.comp.fault = none
    · rw [andThen_of_running _ _ running]
      have isVote : ack.type.isVote = true := by rw [type]; rfl
      rw [sendToOtherNodes, voting_sendVote learned (-1) ack [] isVote]
      -- learning may announce, but it leaves the view of the election as it is
      have inView : ack.nextView = learned.electionMod.nextView := by
        rw [elects.nextView, view]
        subst accepts
        rfl
      have current : learned.voting.mod.nextView = node.electionMod.nextView :=
        inView.symm.trans view
      refine .tail learns (.acknowledge _ ack ⟨type, own, inView⟩ ?_)
      rw [current]
      exact elects.logs.2 member
    · rw [andThen_of_fault _ _ running]
      exact learns
  next refuses => exact .refl

/-- An election that starts, or starts again. -/
theorem steps_initializeLeaderElection (env : NodeEnv) (tidy : Tidy node)
    (groupSize : node.groupSize = n) (nodeId : node.nodeId = i) :
    Steps n i timeout heard checks decides node.voting
      (node.initializeLeaderElection env).voting := by
  generalize started : (if node.modAllocated then node.electionMod
    else LeleMod.initializeLeaderElectionMod env) = mod
  have acceptor : mod.acceptor = node.electionMod.acceptor := by
    subst started
    split
    next => rfl
    next fresh => exact (tidy.cleared (Bool.eq_false_iff.mpr fresh)).symm
  have result : (node.initializeLeaderElection env).voting = { node.voting with
      begun := true
      mod := { node.voting.mod with
        nextView := node.viewId + 1
        nextPnum := i
        acceptor := { node.voting.mod.acceptor with content := -1 }
        learnerArr := (mod.refreshLeaderElection n).learnerArr
        proposerArr := (mod.refreshLeaderElection n).proposerArr } } := by
    subst groupSize
    subst nodeId
    simp only [initializeLeaderElection, started, voting, LeleMod.refreshLeaderElection,
      LeleMod.votes, acceptor]
  rw [result]
  refine .single (.start _ _ _ _ ?_ ?_)
  · intro k inGroup
    simp only [LeleMod.refreshLeaderElection, if_pos inGroup]
  · intro k inGroup
    simp only [LeleMod.refreshLeaderElection, if_pos inGroup, and_self]

/-- A message for another election than the one the node is in changes no vote. -/
theorem voting_ignored (env : NodeEnv) (msg : LeleMsg) (data : List UInt32)
    (ignores : ¬ node.Handles msg) :
    (node.dispatch (env, .message (.leaderElection msg data))).voting = node.voting := by
  simp only [dispatch, handleMsg, handleLeaderElectionMsg]
  split
  next inElection =>
    split
    next other =>
      split
      next same =>
        split
        next close closes =>
          have notVote : (SysMsg.leaderElection close []).asVote = none := by
            simp only [leaderElectionBuildClose, Option.map_eq_some_iff] at closes
            obtain ⟨value, -, rfl⟩ := closes
            rfl
          exact voting_sendOther node _ _ notVote
        next => rfl
      next => rfl
    next current =>
      exact absurd ⟨electing_of_reads inElection, not_not.mp current⟩ ignores
  next => rfl

theorem dispatch_handled (env : NodeEnv) (msg : LeleMsg) (data : List UInt32)
    (handles : node.Handles msg) :
    node.dispatch (env, .message (.leaderElection msg data)) =
      node.leaderElectionDo env msg data := by
  obtain ⟨electing, current⟩ := handles
  have inElection : node.state = .inLele ∨ node.state = .postLele := by
    cases state : node.state with
    | active => exact absurd state electing
    | inLele => exact .inl rfl
    | postLele => exact .inr rfl
  simp only [dispatch, handleMsg, handleLeaderElectionMsg, if_pos inElection, current, ne_eq,
    not_true_eq_false, if_false]

/-- A timeout sends again what is no vote, or begins a round. -/
theorem voting_electionTimeout (env : NodeEnv) (tidy : Tidy node) :
    (node.dispatch (env, .electionTimeout)).voting =
      if node.state = .inLele then ((node.withMod { node.electionMod with
        slientPeriod := .idle }).leaderElectionPropose env).voting
      else node.voting := by
  have again : ∀ node' : Node, (node'.withMod { node'.electionMod with
      slientPeriod := .pending }).voting = node'.voting := fun _ => rfl
  simp only [dispatch, leaderElectionOnTimeout]
  cases state : node.state with
  | active =>
    simp only [withMod, state, reduceCtorEq, if_false]
    rfl
  | inLele =>
    simp only [withMod, state, if_true]
    exact voting_andThen (again _)
  | postLele =>
    simp only [withMod, state, reduceCtorEq, if_false]
    split
    next other =>
      split
      next msg pending => exact voting_sendOther node _ _ (tidy.resent msg pending)
      next => rfl
    next own => rfl

/-- A timeout in an election begins a round. -/
theorem proposes_electionTimeout (env : NodeEnv) (tidy : Tidy node) (groupSize : node.groupSize = n)
    (nodeId : node.nodeId = i) (inElection : node.state = .inLele) :
    ∃ msg, Proposes n i node.voting msg (node.dispatch (env, .electionTimeout)).voting := by
  rw [voting_electionTimeout env tidy, if_pos inElection]
  generalize idle : node.withMod { node.electionMod with slientPeriod := .idle } = node'
  have same : node'.voting = node.voting ∧ node'.groupSize = n ∧ node'.nodeId = i := by
    subst idle
    exact ⟨rfl, groupSize, nodeId⟩
  rw [← same.1]
  exact voting_leaderElectionPropose env same.2.1 same.2.2

private theorem steps_handled (env : NodeEnv) (msg : LeleMsg) (data : List UInt32)
    (timed : Timed node) (handles : node.Handles msg) (begun : node.modAllocated = true)
    (groupSize : node.groupSize = n) (nodeId : node.nodeId = i) (hears : heard msg)
    (checked : ∀ v ∈ node.checksPrepare (.message (.leaderElection msg data)), checks v)
    (decided : ∀ v ∈ node.checksAccept (.message (.leaderElection msg data)), decides v) :
    Steps n i timeout heard checks decides node.voting
      (node.leaderElectionDo env msg data).voting := by
  have view : msg.nextView = node.voting.mod.nextView :=
    handles.2.trans (timed.election handles.1).symm
  subst groupSize
  subst nodeId
  simp only [leaderElectionDo]
  cases type : msg.type with
  | prepare => exact steps_handlePrepare env msg rfl ⟨hears, type, view⟩
  | prepareAck =>
    refine steps_leaderElectionProposerDo env msg rfl rfl begun ⟨hears, rfl, view⟩ ?_
    exact fun isAck round => checked _ (if_pos ⟨handles, isAck, round⟩)
  | accept =>
    refine steps_handleAccept env msg rfl rfl begun ⟨hears, type, view⟩ fun order newer => ?_
    refine decided _ ?_
    simp only [checksAccept, if_pos handles, type, reduceCtorEq, false_and, if_false, true_and,
      if_pos (And.intro order newer), Option.mem_def]
  | acceptAck =>
    refine steps_leaderElectionLearnerDo env msg _ rfl rfl begun .refl (.inl ⟨hears, type, view⟩)
      fun newer => ?_
    refine decided _ ?_
    simp only [checksAccept, if_pos handles, type, true_and, if_pos newer, Option.mem_def]
  | announce =>
    simp only [voting_leaderElectionHandleAnnounce]
    exact .refl
  | announceAck =>
    simp only [voting_leaderElectionHandleAnnounceAck]
    exact .refl
  | fin =>
    simp only [leaderElectionHandleClose]
    split
    next =>
      rw [voting_updateView]
      exact .refl
    next => exact .refl
  | higherNode =>
    -- the type is not the one the proposer asserts
    simp only [leaderElectionProposerDo, type, ne_eq, reduceCtorEq, not_false_eq_true, if_true]
    exact .refl
  | lagged => exact .refl

/-- Every call of a node is a sequence of atomic steps of its votes. -/
theorem steps_dispatch (timed : Timed node) (tidy : Tidy node) (e : NodeEnv × NodeEvent)
    (groupSize : node.groupSize = n) (nodeId : node.nodeId = i)
    (due : e.2 = .electionTimeout → timeout)
    (hears : ∀ msg data, e.2 = .message (.leaderElection msg data) → node.Handles msg → heard msg)
    (checked : ∀ v ∈ node.checksPrepare e.2, checks v)
    (decided : ∀ v ∈ node.checksAccept e.2, decides v) :
    Steps n i timeout heard checks decides node.voting (node.dispatch e).voting := by
  obtain ⟨env, event⟩ := e
  cases event with
  | message msg =>
    cases msg with
    | pingAck sender view timestamp =>
      simp only [dispatch, handleMsg, handlePingAck_ignored, ite_self]
      exact .refl
    | pingReq sender view timestamp =>
      simp only [dispatch, handleMsg]
      split
      next =>
        -- a ping may install a view, which is no step of the vote
        have same : (node.handlePingReq env sender view timestamp).voting = node.voting := by
          simp only [handlePingReq]
          split_ifs
          · exact voting_updateView env node view
          · exact voting_sendOther node _ _ rfl
          all_goals rfl
        rw [same]
        exact .refl
      next => exact .refl
    | consensus msg =>
      simp only [dispatch, handleMsg]
      split <;> exact .refl
    | requestSubmit data =>
      simp only [dispatch, handleMsg]
      split <;> exact .refl
    | leaderElection msg data =>
      by_cases handles : node.Handles msg
      · rw [dispatch_handled env msg data handles]
        exact steps_handled env msg data timed handles (tidy.allocated handles.1) groupSize nodeId
          (hears msg data rfl handles) checked decided
      · rw [voting_ignored env msg data handles]
        exact .refl
  | leaderPing =>
    have same : (node.dispatch (env, .leaderPing)).voting = node.voting := by
      simp only [dispatch, leaderPingPeriod, initializeExpectPing]
      split_ifs
      · exact voting_sendOther node _ _ rfl
      · exact voting_sendOther node _ _ rfl
      all_goals rfl
    rw [same]
    exact .refl
  -- the missed ping starts an election
  | expectPing =>
    simp only [dispatch, expectedLeaderPingPeriod, initializeExpectPing, initializeLeaderPing]
    split_ifs
    all_goals first
      | exact .refl
      | exact steps_initializeLeaderElection env ⟨tidy.cleared, tidy.allocated, tidy.resent⟩
          groupSize nodeId
  | makeProgress =>
    have same : (node.dispatch (env, .makeProgress)).voting = node.voting := by
      simp only [dispatch, makeProgressOn, initializeLeaderMakeProgress]
      split
      next =>
        refine voting_andThen ?_
        split <;> rfl
      next => split <;> rfl
    rw [same]
    exact .refl
  | electionTimeout =>
    -- a timeout proposes again, and only while the node is in an election
    rw [voting_electionTimeout env tidy]
    split
    next inElection =>
      refine steps_leaderElectionPropose env groupSize nodeId (tidy.allocated ?_) (due rfl)
      rw [inElection]
      exact NodeState.noConfusion
    next => exact .refl

end Handlers

/-! ## What the votes rest on -/

theorem init_tidy (seed : Bool) (nodeId groupSize : ℕ) (expectPingTimeval now : TimeVal)
    (env : NodeEnv) : (init seed nodeId groupSize expectPingTimeval now env).Tidy where
  cleared _ := rfl
  allocated electing := absurd rfl electing
  resent msg pending := by cases pending

private theorem resends_checkPrepare (env : NodeEnv) (node : Node)
    (resent : Resends node.electionMod) : Resends (node.checkPrepare env).electionMod := by
  simp only [checkPrepare, leaderElectionProposerPhaseTwo]
  split
  next => split <;> exact resent
  next => exact resent

private theorem resends_leaderElectionPropose (env : NodeEnv) (node : Node)
    (resent : Resends node.electionMod) : Resends (node.leaderElectionPropose env).electionMod := by
  simp only [leaderElectionPropose]
  split
  next => exact resends_checkPrepare env _ resent
  next => exact resent

private theorem resends_leaderElectionProposerDo (env : NodeEnv) (node : Node) (msg : LeleMsg)
    (resent : Resends node.electionMod) :
    Resends (node.leaderElectionProposerDo env msg).electionMod := by
  simp only [leaderElectionProposerDo]
  split_ifs
  · exact resent
  · exact resends_checkPrepare env _ resent
  · exact resent
  · exact resent

private theorem resends_handlePrepare (env : NodeEnv) (node : Node) (msg : LeleMsg)
    (resent : Resends node.electionMod) : Resends (node.handlePrepare env msg).electionMod := by
  simp only [handlePrepare]
  split <;> split <;> exact resent

/-- The acknowledgement of an announcement is kept to be sent again. -/
private theorem resends_leaderElectionHandleAnnounce (env : NodeEnv) (node : Node)
    (msg : LeleMsg) (resent : Resends node.electionMod) :
    Resends (node.leaderElectionHandleAnnounce env msg).electionMod := by
  simp only [leaderElectionHandleAnnounce]
  split
  next own =>
    simp only [leaderElectionInitializeEdgeMod]
    split <;> exact resent
  next other =>
    have acknowledges : ∀ (mod : LeleMod) (vcMsg : LeleMsg) (data : List UInt32),
        mod.announceAckMsg = some (.leaderElection vcMsg data) → vcMsg.type = .announceAck →
        Resends mod := by
      intro mod vcMsg data kept type msg pending
      obtain rfl := Option.some.inj (kept.symm.trans pending)
      simp [SysMsg.asVote, type, LeleType.isVote]
    simp only [leaderElectionCalEdge]
    split
    next seen =>
      split
      next huge => exact resent
      next sized =>
        split
        next fault _ => exact resent
        next => exact acknowledges _ _ _ rfl rfl
    next nothing => exact acknowledges _ _ _ rfl rfl

private theorem resends_leaderElectionLearnerDo (env : NodeEnv) (node : Node) (msg : LeleMsg)
    (resent : Resends node.electionMod) :
    Resends (node.leaderElectionLearnerDo env msg).electionMod := by
  simp only [leaderElectionLearnerDo]
  split
  next =>
    split
    next =>
      split
      next => exact resent
      next => exact resends_leaderElectionHandleAnnounce env _ _ resent
    next => exact resent
  next => exact resent

private theorem resends_andThen {node : Node} {next : Node → Node}
    (resent : Resends node.electionMod)
    (rest : Resends (next node).electionMod) : Resends (node.andThen next).electionMod := by
  simp only [andThen]
  split
  next => exact rest
  next => exact resent

private theorem resends_handleAccept (env : NodeEnv) (node : Node) (msg : LeleMsg)
    (resent : Resends node.electionMod) : Resends (node.handleAccept env msg).electionMod := by
  simp only [handleAccept]
  split
  next =>
    have learned := resends_leaderElectionLearnerDo env
    exact resends_andThen (learned _ _ resent) (learned _ _ resent)
  next => exact resent

private theorem resends_leaderElectionOnTimeout (env : NodeEnv) (node : Node)
    (resent : Resends node.electionMod) :
    Resends (node.leaderElectionOnTimeout env).electionMod := by
  simp only [leaderElectionOnTimeout]
  split
  next =>
    split
    next => split <;> exact resent
    next => exact resent
  next =>
    have proposed := resends_leaderElectionPropose env node resent
    exact resends_andThen proposed proposed
  next => exact resent

private theorem resends_leaderElectionHandleAnnounceAck (env : NodeEnv) (node : Node)
    (msg : LeleMsg) (data : List UInt32) (resent : Resends node.electionMod) :
    Resends (node.leaderElectionHandleAnnounceAck env msg data).electionMod := by
  have merges : ∀ node : Node, Resends node.electionMod →
      Resends (node.mergeAnnounceAck env msg data).electionMod := by
    intro node resent
    simp only [mergeAnnounceAck]
    split
    next => exact resent
    next =>
      split
      next =>
        split
        next => exact resent
        next =>
          split
          next => exact resent
          next =>
            split
            next =>
              simp only [leaderElectionLeaderClose]
              refine resends_andThen ?_ ?_ <;>
                simp only [sendToOtherNodes, electionMod_updateView] <;> exact resent
            next => exact resent
      next => exact resent
  simp only [leaderElectionHandleAnnounceAck]
  split
  next =>
    have announced := resends_leaderElectionHandleAnnounce env node msg resent
    exact resends_andThen announced (merges _ announced)
  next => exact resends_andThen resent (merges _ resent)

private theorem modAllocated_andThen {node : Node} {next : Node → Node}
    (same : (next node).modAllocated = node.modAllocated) :
    (node.andThen next).modAllocated = node.modAllocated := by
  simp only [andThen]
  split
  next => exact same
  next => rfl

private theorem modAllocated_leaderElectionHandleAnnounceAck (env : NodeEnv) (node : Node)
    (msg : LeleMsg) (data : List UInt32) :
    (node.leaderElectionHandleAnnounceAck env msg data).modAllocated = node.modAllocated := by
  have merges : ∀ node : Node,
      (node.mergeAnnounceAck env msg data).modAllocated = node.modAllocated := by
    intro node
    simp only [mergeAnnounceAck]
    split
    next => rfl
    next =>
      split
      next =>
        split
        next => rfl
        next =>
          split
          next => rfl
          next =>
            split
            next =>
              simp only [leaderElectionLeaderClose]
              rw [modAllocated_andThen rfl]
              exact (electionMod_updateView env _ _).2
            next => rfl
      next => rfl
  simp only [leaderElectionHandleAnnounceAck]
  rw [modAllocated_andThen (merges _)]
  split
  next => exact (elects_leaderElectionHandleAnnounce env node msg).allocated
  next => rfl

/-- Once the module is allocated it stays so. -/
private theorem tidy_of_allocated {node : Node} (allocated : node.modAllocated = true)
    (resent : Resends node.electionMod) : Tidy node where
  cleared unallocated := by
    rw [allocated] at unallocated
    cases unallocated
  allocated _ := allocated
  resent := resent

private theorem handleLeaderElectionMsg_tidy {node : Node} (tidy : Tidy node)
    (electing : node.state ≠ .active) (env : NodeEnv) (msg : LeleMsg) (data : List UInt32) :
    Tidy (node.handleLeaderElectionMsg env msg data) := by
  have allocated := tidy.allocated electing
  have resent := tidy.resent
  have elected : ∀ {node' : Node}, Elects node node' → Resends node'.electionMod → Tidy node' :=
    fun elects resent => tidy_of_allocated (elects.allocated.trans allocated) resent
  simp only [handleLeaderElectionMsg]
  split
  next other =>
    split
    next same =>
      split
      next close _ => exact elected (elects_sendToOneNode node _ _) resent
      next => exact tidy
    next => exact tidy
  next current =>
    simp only [leaderElectionDo]
    cases msg.type with
    | prepare =>
      exact elected (elects_handlePrepare env node msg) (resends_handlePrepare env node msg resent)
    | prepareAck =>
      exact elected (elects_leaderElectionProposerDo env node msg)
        (resends_leaderElectionProposerDo env node msg resent)
    | accept =>
      exact elected (elects_handleAccept env node msg) (resends_handleAccept env node msg resent)
    | acceptAck =>
      exact elected (elects_leaderElectionLearnerDo env node msg)
        (resends_leaderElectionLearnerDo env node msg resent)
    | announce =>
      exact elected (elects_leaderElectionHandleAnnounce env node msg)
        (resends_leaderElectionHandleAnnounce env node msg resent)
    | announceAck =>
      exact tidy_of_allocated
        ((modAllocated_leaderElectionHandleAnnounceAck env node msg data).trans allocated)
        (resends_leaderElectionHandleAnnounceAck env node msg data resent)
    | fin =>
      simp only [leaderElectionHandleClose]
      split
      next =>
        obtain ⟨mod, same⟩ :=
          electionMod_updateView env node ⟨msg.nextView, msg.content, msg.lastReq⟩
        exact tidy_of_allocated (same.trans allocated) (mod ▸ resent)
      next => exact tidy
    | higherNode =>
      exact elected (elects_leaderElectionProposerDo env node msg)
        (resends_leaderElectionProposerDo env node msg resent)
    | lagged => exact tidy

theorem Tidy.updateView {node : Node} (tidy : Tidy node) (env : NodeEnv) (newViewInfo : View) :
    Tidy (node.updateView env newViewInfo) := by
  obtain ⟨mod, allocated⟩ := electionMod_updateView env node newViewInfo
  refine ⟨?_, ?_, ?_⟩
  · rw [mod, allocated]
    exact tidy.cleared
  · intro electing
    rw [allocated]
    -- a node that is not active afterwards was not active before
    refine tidy.allocated fun active => electing ?_
    simp only [Node.updateView, andThen, initializeLeaderPing, initializeExpectPing]
    split
    next =>
      split
      next => split <;> split <;> rfl
      next => exact active
    next => exact active
  · rw [mod]
    exact tidy.resent

theorem Tidy.dispatch {node : Node} (tidy : Tidy node) (e : NodeEnv × NodeEvent) :
    Tidy (node.dispatch e) := by
  obtain ⟨env, event⟩ := e
  have resent := tidy.resent
  cases event with
  | message msg =>
    cases msg with
    | pingAck sender view timestamp =>
      simp only [Node.dispatch, handleMsg, handlePingAck_ignored, ite_self]
      exact tidy
    | pingReq sender view timestamp =>
      simp only [Node.dispatch, handleMsg, handlePingReq]
      split_ifs
      · exact tidy.updateView env view
      · exact { tidy with }
      -- what is left is a ping of the node's own view, after which it may be active again
      all_goals first
        | exact { tidy with }
        | exact ⟨tidy.cleared, fun electing => absurd rfl electing, resent⟩
    | consensus msg =>
      simp only [Node.dispatch, handleMsg]
      split
      next => exact { tidy with }
      next => exact tidy
    | requestSubmit data =>
      simp only [Node.dispatch, handleMsg]
      split
      next => exact { tidy with }
      next => exact tidy
    | leaderElection msg data =>
      simp only [Node.dispatch, handleMsg]
      split
      next inElection =>
        have electing := electing_of_reads inElection
        exact handleLeaderElectionMsg_tidy tidy electing env msg data
      next => exact tidy
  | leaderPing =>
    simp only [Node.dispatch, leaderPingPeriod, initializeExpectPing]
    split_ifs <;> exact { tidy with }
  | expectPing =>
    simp only [Node.dispatch, expectedLeaderPingPeriod, initializeExpectPing, initializeLeaderPing]
    split_ifs
    all_goals first
      | exact { tidy with }
      | exact tidy_of_allocated rfl (by
          simp only [initializeLeaderElection, LeleMod.refreshLeaderElection, Resends]
          split
          next => exact resent
          next => exact fun msg pending => by cases pending)
  | makeProgress =>
    simp only [Node.dispatch, makeProgressOn, initializeLeaderMakeProgress, andThen]
    split_ifs <;> exact { tidy with }
  | electionTimeout =>
    by_cases electing : node.state = .active
    · simp only [Node.dispatch, leaderElectionOnTimeout, withMod, electing]
      exact ⟨tidy.cleared, fun other => absurd rfl other, resent⟩
    · have elects := elects_leaderElectionOnTimeout env
        (node.withMod { node.electionMod with slientPeriod := .idle })
      exact tidy_of_allocated (elects.allocated.trans (tidy.allocated electing))
        (resends_leaderElectionOnTimeout env _ resent)

/-! ## Members of a group -/

open LibeventPaxos.Comp (SameNode)

private theorem sameNode_trans {a b c : Comp} (first : SameNode a b) (second : SameNode b c) :
    SameNode a c :=
  ⟨second.nodeId.trans first.nodeId, second.groupSize.trans first.groupSize⟩

theorem Elects.sameNode {node node' : Node} (elects : Elects node node') :
    SameNode node.comp node'.comp := by
  obtain ⟨db, fault, comp⟩ := elects.comp
  rw [comp]
  exact ⟨rfl, rfl⟩

private theorem sameNode_andThen {node before : Node} {next : Node → Node}
    (first : SameNode node.comp before.comp)
    (rest : SameNode before.comp (next before).comp) :
    SameNode node.comp (before.andThen next).comp := by
  simp only [andThen]
  split
  next => exact sameNode_trans first rest
  next => exact first

theorem sameNode_updateView (env : NodeEnv) (node : Node) (newViewInfo : View) :
    SameNode node.comp (node.updateView env newViewInfo).comp := by
  have entered : SameNode node.comp (Comp.updateView env.toEnv node.comp newViewInfo) := by
    simp only [Comp.updateView, Comp.storeViewBoundary, Comp.consensusUpdateRole, Comp.fail]
    split_ifs <;> exact ⟨rfl, rfl⟩
  simp only [updateView]
  split
  next successor =>
    refine sameNode_andThen entered ?_
    simp only [initializeLeaderPing, initializeExpectPing]
    split <;> split <;> exact ⟨rfl, rfl⟩
  next => exact ⟨rfl, rfl⟩

private theorem sameNode_leaderElectionLeaderClose (env : NodeEnv) (node before : Node)
    (same : before.comp = node.comp) :
    SameNode node.comp (before.leaderElectionLeaderClose env).comp := by
  rw [← same]
  exact sameNode_andThen (sameNode_updateView env before _) ⟨rfl, rfl⟩

private theorem sameNode_leaderElectionHandleAnnounceAck (env : NodeEnv) (node : Node)
    (msg : LeleMsg) (data : List UInt32) :
    SameNode node.comp (node.leaderElectionHandleAnnounceAck env msg data).comp := by
  have merges : ∀ node : Node, SameNode node.comp (node.mergeAnnounceAck env msg data).comp := by
    intro node
    simp only [mergeAnnounceAck]
    split
    next => exact ⟨rfl, rfl⟩
    next =>
      split
      next =>
        split
        next => exact ⟨rfl, rfl⟩
        next =>
          split
          next => exact ⟨rfl, rfl⟩
          next =>
            split
            next => exact sameNode_leaderElectionLeaderClose env node _ rfl
            next => exact ⟨rfl, rfl⟩
      next => exact ⟨rfl, rfl⟩
  simp only [leaderElectionHandleAnnounceAck]
  split
  next =>
    exact sameNode_andThen (elects_leaderElectionHandleAnnounce env node msg).sameNode (merges _)
  next => exact sameNode_andThen ⟨rfl, rfl⟩ (merges _)

private theorem sameNode_handleMsg (env : NodeEnv) (node : Node) (msg : SysMsg)
    (running : node.comp.fault = none) : SameNode node.comp (node.handleMsg env msg).comp := by
  cases msg with
  | pingAck sender view timestamp =>
    simp only [handleMsg, handlePingAck_ignored, ite_self]
    exact ⟨rfl, rfl⟩
  | pingReq sender view timestamp =>
    simp only [handleMsg, handlePingReq]
    split_ifs
    · exact sameNode_updateView env node view
    all_goals exact ⟨rfl, rfl⟩
  | consensus msg =>
    simp only [handleMsg]
    split
    next => exact (Comp.handle_step node.comp (env.toEnv, .message msg) running).2
    next => exact ⟨rfl, rfl⟩
  | requestSubmit data =>
    simp only [handleMsg]
    split
    next => exact (Comp.handle_step node.comp (env.toEnv, .submit data) running).2
    next => exact ⟨rfl, rfl⟩
  | leaderElection msg data =>
    simp only [handleMsg, handleLeaderElectionMsg, leaderElectionDo]
    split
    next inElection =>
      split
      next other =>
        split
        next same => split <;> exact ⟨rfl, rfl⟩
        next => exact ⟨rfl, rfl⟩
      next current =>
        cases msg.type with
        | prepare => exact (elects_handlePrepare env node msg).sameNode
        | prepareAck => exact (elects_leaderElectionProposerDo env node msg).sameNode
        | accept => exact (elects_handleAccept env node msg).sameNode
        | acceptAck => exact (elects_leaderElectionLearnerDo env node msg).sameNode
        | announce => exact (elects_leaderElectionHandleAnnounce env node msg).sameNode
        | announceAck => exact sameNode_leaderElectionHandleAnnounceAck env node msg data
        | fin =>
          simp only [leaderElectionHandleClose]
          split
          next => exact sameNode_updateView env node _
          next => exact ⟨rfl, rfl⟩
        | higherNode => exact (elects_leaderElectionProposerDo env node msg).sameNode
        | lagged => exact ⟨rfl, rfl⟩
    next => exact ⟨rfl, rfl⟩

/-- No call changes the id of the node or the size of the group. -/
theorem sameNode_dispatch (node : Node) (e : NodeEnv × NodeEvent)
    (running : node.comp.fault = none) : SameNode node.comp (node.dispatch e).comp := by
  obtain ⟨env, event⟩ := e
  cases event with
  | message msg => exact sameNode_handleMsg env node msg running
  | leaderPing =>
    simp only [dispatch, leaderPingPeriod, initializeExpectPing]
    split_ifs <;> exact ⟨rfl, rfl⟩
  | expectPing =>
    simp only [dispatch, expectedLeaderPingPeriod, initializeExpectPing, initializeLeaderPing]
    split_ifs <;> exact ⟨rfl, rfl⟩
  | makeProgress =>
    have progressed : SameNode node.comp (Comp.consensusMakeProgress env.toEnv node.comp) :=
      (Comp.handle_step node.comp (env.toEnv, .makeProgress) running).2
    simp only [dispatch, makeProgressOn, initializeLeaderMakeProgress]
    split
    next =>
      refine sameNode_andThen progressed ?_
      split <;> exact ⟨rfl, rfl⟩
    next => split <;> exact ⟨rfl, rfl⟩
  | electionTimeout =>
    have fired : Elects node (node.withMod { node.electionMod with slientPeriod := .idle }) :=
      elects_withMod node _ rfl
    exact (fired.trans (elects_leaderElectionOnTimeout env _)).sameNode

/-- Node `i` of `n` between two calls. -/
structure Member (n : ℕ) (i : NodeId) (node : Node) : Prop where
  timed : Timed node
  tidy : Tidy node
  nodeId : node.nodeId = i
  groupSize : node.groupSize = n

theorem Member.dispatch {n : ℕ} {i : NodeId} {node : Node} (member : Member n i node)
    (e : NodeEnv × NodeEvent) (enabled : machine.enabled node e) :
    Member n i (node.dispatch e) := by
  have same := sameNode_dispatch node e enabled.1
  exact {
    timed := (dispatch_step member.timed e enabled).timed
    tidy := member.tidy.dispatch e
    nodeId := (congrArg Nat.cast same.nodeId).trans member.nodeId
    groupSize := same.groupSize.trans member.groupSize }

end Node

/-! ## Clusters -/

namespace Cluster

open Node

variable {n : ℕ}

/-- Every node has just started. -/
def Booted (g : Cluster n) : Prop :=
  ∀ i, ∃ seed expectPingTimeval now env, g i = Node.init seed i n expectPingTimeval now env

theorem Booted.member {g : Cluster n} (booted : Booted g) (i : Fin n) :
    (g i).Member n (i : ℕ) := by
  obtain ⟨seed, expectPingTimeval, now, env, same⟩ := booted i
  rw [same]
  exact ⟨Node.init_timed seed i n expectPingTimeval now env,
    Node.init_tidy seed i n expectPingTimeval now env, rfl, rfl⟩

theorem member_of_reaches {guard : Cluster n → ClusterEvent n → Prop} (g : Cluster n)
    (reached : (machine Booted).Reaches guard g) (i : Fin n) : (g i).Member n (i : ℕ) := by
  revert i
  apply reached.invariant
  · exact fun g booted i => booted.member i
  · intro g e members _ enabled i
    by_cases actor : i = e.1
    · subst actor
      show (act g e e.1).Member n _
      rw [act_self]
      exact (members e.1).dispatch e.2 enabled.1
    · show (act g e i).Member n _
      rw [act_other g e i actor]
      exact members i

/-- What node `i` may hear: a vote that another node has sent. -/
def Hear (g : Cluster n) (i : Fin n) (msg : LeleMsg) : Prop :=
  msg.type.isVote = true → ∃ k, k ≠ i ∧ msg ∈ (g k).voting.said

theorem hear_of_sent {g : Cluster n} {i : Fin n} {msg : LeleMsg} {data : List UInt32}
    (sent : Sent g i (.message (.leaderElection msg data))) : Hear g i msg := by
  intro isVote
  obtain ⟨k, ⟨target, msg'⟩, member, reaches, rfl⟩ := sent
  refine ⟨k, reaches.1, ?_⟩
  exact ((mem_said isVote).mp ⟨rfl, rfl, target, data, member⟩).1

/-- The votes of the acting node make atomic steps. -/
theorem steps_act {g : Cluster n} {e : ClusterEvent n} {checks decides : Voting → Prop}
    (member : (g e.1).Member n ((e.1 : ℕ) : Int)) (enabled : (machine Booted).enabled g e)
    (checked : ∀ v ∈ (g e.1).checksPrepare e.2.2, checks v)
    (decided : ∀ v ∈ (g e.1).checksAccept e.2.2, decides v) :
    Voting.Steps n ((e.1 : ℕ) : Int) True (Hear g e.1) checks decides (g e.1).voting
      (act g e e.1).voting := by
  rw [act_self]
  refine steps_dispatch member.timed member.tidy e.2 member.groupSize member.nodeId
    (fun _ => trivial) ?_ checked decided
  intro msg data isMsg _
  have sent := enabled.2
  rw [isMsg] at sent
  exact hear_of_sent sent

/-- The same, whatever the counts find. -/
theorem steps_act_any {g : Cluster n} {e : ClusterEvent n}
    (member : (g e.1).Member n ((e.1 : ℕ) : Int)) (enabled : (machine Booted).enabled g e) :
    Voting.Steps n ((e.1 : ℕ) : Int) True (Hear g e.1) (fun _ => True) (fun _ => True)
      (g e.1).voting (act g e e.1).voting :=
  steps_act member enabled (fun _ _ => trivial) fun _ _ => trivial

end Cluster

end LibeventPaxos
