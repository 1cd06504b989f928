import LibeventPaxos.PeerIndices
import LibeventPaxos.NodeCalls

/-!
What one event makes a node send: the log of its component or its own log grows, never both, and
its own log holds pings and election messages only.
-/
namespace LibeventPaxos

open Lib

/-- A ping or an election message. -/
def SysMsg.Elective : SysMsg → Prop
  | .pingReq _ _ _ => True
  | .pingAck _ _ _ => True
  | .leaderElection _ _ => True
  | .consensus _ => False
  | .requestSubmit _ => False

/-- The message of the consensus component, if it is one. -/
def SysMsg.asConsensus : SysMsg → Option ConsensusMsg
  | .consensus msg => some msg
  | _ => none

theorem SysMsg.Elective.asConsensus {msg : SysMsg} (elective : msg.Elective) :
    msg.asConsensus = none := by
  cases msg with
  | consensus msg => exact elective.elim
  | pingReq | pingAck | leaderElection | requestSubmit => rfl

namespace Node

/-- The messages sent on the way from `before` to `after`, those of the component first. -/
def callsSince (before after : Node) : List (Int × SysMsg) :=
  (after.comp.upCalls.drop before.comp.upCalls.length).map (fun call =>
    (call.1, SysMsg.consensus call.2)) ++ after.sent.drop before.sent.length

/-! ## The log of a node -/

/-- A node's own log and the acknowledgement it keeps hold pings and election messages only. -/
structure Elective (node : Node) : Prop where
  sent : ∀ call ∈ node.sent, call.2.Elective
  kept : ∀ msg, node.electionMod.announceAckMsg = some msg → msg.Elective

section Elective

variable {node node' : Node}

theorem Elective.same (elective : Elective node) (sent : node'.sent = node.sent)
    (kept : node'.electionMod.announceAckMsg = node.electionMod.announceAckMsg) :
    Elective node' :=
  ⟨by rw [sent]; exact elective.sent, by rw [kept]; exact elective.kept⟩

theorem Elective.send (elective : Elective node) (target : Int) {msg : SysMsg}
    (sent : node'.sent = node.sent ++ [(target, msg)])
    (kept : node'.electionMod.announceAckMsg = node.electionMod.announceAckMsg)
    (isElective : msg.Elective) : Elective node' := by
  refine ⟨fun call member => ?_, by rw [kept]; exact elective.kept⟩
  rw [sent] at member
  rcases List.mem_append.mp member with old | new
  · exact elective.sent call old
  · rw [List.mem_singleton.mp new]
    exact isElective

theorem Elective.andThen {next : Node → Node} (elective : Elective node)
    (rest : Elective (next node)) : Elective (node.andThen next) := by
  simp only [Node.andThen]
  split
  next => exact rest
  next => exact elective

/-- A message to all others once a call has returned. -/
theorem Elective.sendOthers (elective : Elective node) {msg : LeleMsg} :
    Elective (node.andThen fun node => node.sendToOtherNodes (.leaderElection msg [])) :=
  elective.andThen (elective.send (-1) rfl rfl trivial)

theorem Elective.updateView (elective : Elective node) (env : NodeEnv) (newViewInfo : View) :
    Elective (node.updateView env newViewInfo) := by
  refine elective.same (sent_afterUpdateView env node newViewInfo) ?_
  simp only [Node.updateView, Node.andThen, Node.initializeLeaderPing, Node.initializeExpectPing]
  split_ifs <;> rfl

theorem Elective.checkPrepare (elective : Elective node) (env : NodeEnv) :
    Elective (node.checkPrepare env) := by
  simp only [Node.checkPrepare, Node.leaderElectionProposerPhaseTwo]
  split
  next content found =>
    split
    next unset => exact elective.same rfl rfl
    next set => exact elective.send (-1) rfl rfl trivial
  next => exact elective

theorem Elective.leaderElectionPropose (elective : Elective node) (env : NodeEnv) :
    Elective (node.leaderElectionPropose env) := by
  simp only [Node.leaderElectionPropose]
  split
  next higher =>
    refine Elective.checkPrepare ?_ env
    exact elective.send (-1) rfl rfl trivial
  next lower => exact elective.send (-1) rfl rfl trivial

theorem Elective.leaderElectionProposerDo (elective : Elective node) (env : NodeEnv)
    (msg : LeleMsg) : Elective (node.leaderElectionProposerDo env msg) := by
  simp only [Node.leaderElectionProposerDo]
  split
  next other => exact elective.same rfl rfl
  next isAck =>
    split
    next current =>
      split
      next inside =>
        refine Elective.checkPrepare ?_ env
        exact elective.same rfl rfl
      next outside => exact elective.same rfl rfl
    next old => exact elective

theorem Elective.handlePrepare (elective : Elective node) (env : NodeEnv) (msg : LeleMsg) :
    Elective (node.handlePrepare env msg) := by
  obtain ⟨timer, waits⟩ := stopPropose_timer node msg
  simp only [Node.handlePrepare]
  rw [waits]
  split
  next higher => exact elective.send msg.nodeId rfl rfl trivial
  next lower => exact elective.same rfl rfl

theorem Elective.leaderElectionHandleAnnounce (elective : Elective node) (env : NodeEnv)
    (msg : LeleMsg) : Elective (node.leaderElectionHandleAnnounce env msg) := by
  -- the acknowledgement that is kept is the one that is sent
  have reply (ack : LeleMsg) (data : List UInt32) (after : Node)
      (sent : after.sent = node.sent ++ [(msg.content, .leaderElection ack data)])
      (kept : after.electionMod.announceAckMsg = some (.leaderElection ack data)) :
      Elective after := by
    refine ⟨fun call member => ?_, fun msg found => ?_⟩
    · rw [sent] at member
      rcases List.mem_append.mp member with old | new
      · exact elective.sent call old
      · rw [List.mem_singleton.mp new]
        trivial
    · rw [kept] at found
      rw [← Option.some.inj found]
      trivial
  simp only [Node.leaderElectionHandleAnnounce, Node.leaderElectionInitializeEdgeMod,
    Node.leaderElectionCalEdge]
  split
  next own => split <;> exact elective.same rfl rfl
  next other =>
    split
    next seen =>
      split
      next huge => exact elective.same rfl rfl
      next sized =>
        split
        next fault _ => exact elective.same rfl rfl
        next => exact reply _ _ _ rfl rfl
    next nothing => exact reply _ _ _ rfl rfl

theorem Elective.leaderElectionLearnerDo (elective : Elective node) (env : NodeEnv)
    (msg : LeleMsg) : Elective (node.leaderElectionLearnerDo env msg) := by
  simp only [Node.leaderElectionLearnerDo]
  split
  next known =>
    split
    next newer =>
      split
      next => exact elective.same rfl rfl
      next decided found =>
        refine Elective.leaderElectionHandleAnnounce ?_ env _
        exact elective.send (-1) rfl rfl trivial
    next older => exact elective
  next outside => exact elective.same rfl rfl

theorem Elective.handleAccept (elective : Elective node) (env : NodeEnv) (msg : LeleMsg) :
    Elective (node.handleAccept env msg) := by
  simp only [Node.handleAccept]
  split
  next accepts =>
    refine Elective.sendOthers (Elective.leaderElectionLearnerDo ?_ env _)
    exact elective.same rfl rfl
  next refuses => exact elective

theorem Elective.mergeAnnounceAck (elective : Elective node) (env : NodeEnv) (msg : LeleMsg)
    (data : List UInt32) : Elective (node.mergeAnnounceAck env msg data) := by
  simp only [Node.mergeAnnounceAck]
  split
  next => exact elective.same rfl rfl
  next =>
    split
    next =>
      split
      next => exact elective
      next =>
        generalize same : node.withMod _ = merged
        have before : Elective merged := by
          subst same
          exact elective.same rfl rfl
        split
        next => exact before.same rfl rfl
        next =>
          split
          next =>
            exact (before.updateView env _).sendOthers
          next => exact before
    next => exact elective.same rfl rfl

theorem Elective.leaderElectionDo (elective : Elective node) (env : NodeEnv) (msg : LeleMsg)
    (data : List UInt32) : Elective (node.leaderElectionDo env msg data) := by
  simp only [Node.leaderElectionDo]
  cases msg.type with
  | prepare => exact elective.handlePrepare env msg
  | prepareAck => exact elective.leaderElectionProposerDo env msg
  | accept => exact elective.handleAccept env msg
  | acceptAck => exact elective.leaderElectionLearnerDo env msg
  | announce => exact elective.leaderElectionHandleAnnounce env msg
  | announceAck =>
    simp only [Node.leaderElectionHandleAnnounceAck]
    split
    next early =>
      have announced := elective.leaderElectionHandleAnnounce env msg
      exact announced.andThen (announced.mergeAnnounceAck env msg data)
    next => exact elective.andThen (elective.mergeAnnounceAck env msg data)
  | fin =>
    simp only [Node.leaderElectionHandleClose]
    split
    next => exact elective.updateView env _
    next => exact elective
  | higherNode => exact elective.leaderElectionProposerDo env msg
  | lagged => exact elective

theorem Elective.handleMsg (elective : Elective node) (env : NodeEnv) (msg : SysMsg) :
    Elective (node.handleMsg env msg) := by
  cases msg with
  | pingAck nodeId view timestamp =>
    simp only [Node.handleMsg, handlePingAck_ignored, ite_self]
    exact elective
  | pingReq nodeId view timestamp =>
    simp only [Node.handleMsg, Node.handlePingReq]
    split_ifs
    next => exact elective.updateView env view
    next => exact elective.send nodeId rfl rfl trivial
    all_goals exact elective.same rfl rfl
  | consensus msg =>
    simp only [Node.handleMsg]
    split <;> exact elective.same rfl rfl
  | requestSubmit data =>
    simp only [Node.handleMsg]
    split <;> exact elective.same rfl rfl
  | leaderElection msg data =>
    simp only [Node.handleMsg, Node.handleLeaderElectionMsg]
    split
    next reads =>
      split
      next other =>
        split
        next late =>
          split
          next close found => exact elective.send msg.nodeId rfl rfl trivial
          next => exact elective
        next => exact elective
      next current => exact elective.leaderElectionDo env msg data
    next => exact elective

theorem Elective.leaderElectionOnTimeout (elective : Elective node) (env : NodeEnv) :
    Elective (node.leaderElectionOnTimeout env) := by
  simp only [Node.leaderElectionOnTimeout]
  split
  next post =>
    split
    next other =>
      split
      next msg kept =>
        exact elective.send node.electionMod.newLeader rfl rfl (elective.kept msg kept)
      next => exact elective.same rfl rfl
    next own => exact elective.same rfl rfl
  next electing =>
    have proposed := elective.leaderElectionPropose env
    exact proposed.andThen (proposed.same rfl rfl)
  next => exact elective

theorem Elective.initializeLeaderElection (elective : Elective node) (env : NodeEnv) :
    Elective (node.initializeLeaderElection env) := by
  refine ⟨elective.sent, fun msg kept => ?_⟩
  have mod : (node.initializeLeaderElection env).electionMod.announceAckMsg =
      if node.modAllocated then node.electionMod.announceAckMsg else none := by
    simp only [Node.initializeLeaderElection]
    split <;> rfl
  rw [mod] at kept
  split at kept
  next => exact elective.kept msg kept
  next => cases kept

/-- No event makes a node log anything else. -/
theorem Elective.dispatch (elective : Elective node) (e : NodeEnv × NodeEvent) :
    Elective (node.dispatch e) := by
  obtain ⟨env, event⟩ := e
  cases event with
  | message msg => exact elective.handleMsg env msg
  | leaderPing =>
    simp only [Node.dispatch, Node.leaderPingPeriod, Node.initializeExpectPing]
    split
    next leads => split <;> exact elective.send (-1) rfl rfl trivial
    next follows => split_ifs <;> exact elective.same rfl rfl
  | expectPing =>
    simp only [Node.dispatch, Node.expectedLeaderPingPeriod, Node.initializeExpectPing,
      Node.initializeLeaderPing]
    have fired : Elective { node with evExpectPing := .idle } := elective.same rfl rfl
    split_ifs
    all_goals first
      | exact elective.same rfl rfl
      | exact fired.initializeLeaderElection env
  | makeProgress =>
    simp only [Node.dispatch, Node.makeProgressOn, Node.initializeLeaderMakeProgress, Node.andThen]
    split_ifs <;> exact elective.same rfl rfl
  | electionTimeout =>
    simp only [Node.dispatch]
    refine Elective.leaderElectionOnTimeout ?_ env
    exact elective.same rfl rfl

end Elective

/-! ## What an event adds -/

section Grows

variable (node : Node) (e : NodeEnv × NodeEvent)

theorem HasComp.upCalls {c : Comp} {node : Node} (has : HasComp c node) :
    node.comp.upCalls = c.upCalls := by
  obtain ⟨fault, same⟩ := has
  rw [same]

theorem upCalls_grow (running : node.comp.fault = none) :
    node.comp.upCalls <+: (node.dispatch e).comp.upCalls := by
  rcases dispatch_calls node e running with alone | ⟨event, -, handled⟩
  · rw [alone.upCalls]
  · obtain ⟨sent, calls, -⟩ := Comp.sends_handle node.comp (e.1.toEnv, event) running
    rw [handled.upCalls, calls]
    exact List.prefix_append _ _

theorem sent_grows : node.sent <+: (node.dispatch e).sent := by
  obtain ⟨fresh, sent, -⟩ := adds_dispatch node e
  rw [sent]
  exact List.prefix_append _ _

/-- What is sent in one event is all from the component or all from the node. -/
theorem sends_one_kind (running : node.comp.fault = none) :
    (node.dispatch e).comp.upCalls = node.comp.upCalls ∨ (node.dispatch e).sent = node.sent := by
  rcases dispatch_calls node e running with alone | ⟨event, calls, handled⟩
  · exact .inl alone.upCalls
  · obtain ⟨env, nodeEvent⟩ := e
    cases calls with
    | message msg active =>
      right
      simp only [dispatch, handleMsg, if_pos active]
    | submit data active =>
      right
      simp only [dispatch, handleMsg, if_pos active]
    | makeProgress leads =>
      right
      simp only [dispatch, makeProgressOn, initializeLeaderMakeProgress, andThen]
      split_ifs <;> rfl
    | updateView _ newViewInfo enters successor =>
      left
      rw [handled.upCalls]
      rcases Comp.updateView_cases env.toEnv node.comp newViewInfo running with
        ⟨ignored, -⟩ | ⟨-, ⟨-, failed⟩ | entered⟩
      · rw [Comp.handle, ignored]
      · rw [Comp.handle, failed]
        rfl
      · rw [Comp.handle, entered]
        rfl
    | acceptorUpdateRecord _ record electing =>
      left
      rw [handled.upCalls]
      rfl

end Grows

end Node

end LibeventPaxos
