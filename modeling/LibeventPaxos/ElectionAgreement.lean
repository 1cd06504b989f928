import LibeventPaxos.ElectionSteps
import LibeventPaxos.ViewFence
import LibeventPaxos.Cluster

/-!
Agreement of the election for one view: as long as no node forgets a vote, all learners that
decide on a leader decide on the same one.
-/
namespace LibeventPaxos

open Lib

namespace Node

/-! ## One step of a node -/

/-- Nothing that ends the election for the next view or gives it up. -/
def Undisturbed : NodeEvent → Prop
  | .message (.pingReq _ _ _) => False
  | .message (.leaderElection msg _) => msg.type ≠ .fin ∧ msg.type ≠ .announceAck
  | _ => True

instance : ∀ event, Decidable (Undisturbed event)
  | .message (.pingReq _ _ _) => .isFalse id
  | .message (.leaderElection msg _) => inferInstanceAs (Decidable
      (msg.type ≠ .fin ∧ msg.type ≠ .announceAck))
  | .message (.pingAck _ _ _) => .isTrue trivial
  | .message (.consensus _) => .isTrue trivial
  | .message (.requestSubmit _) => .isTrue trivial
  | .leaderPing => .isTrue trivial
  | .expectPing => .isTrue trivial
  | .makeProgress => .isTrue trivial
  | .electionTimeout => .isTrue trivial

theorem Undisturbed.stays {event : NodeEvent} (undisturbed : Undisturbed event) (node : Node) :
    ¬ node.MayEnter event := by
  intro enters
  cases event with
  | message msg =>
    cases msg with
    | pingReq => exact undisturbed
    | leaderElection msg data =>
      rcases enters.2 with fin | ack
      · exact undisturbed.1 fin
      · exact undisturbed.2 ack
    | pingAck => exact enters
    | consensus => exact enters
    | requestSubmit => exact enters
  | leaderPing => exact enters
  | expectPing => exact enters
  | makeProgress => exact enters
  | electionTimeout => exact enters

/-- A step outside of an election: at most pings are sent. -/
structure Rests (node node' : Node) : Prop where
  state : node'.state = node.state
  nodeId : node'.nodeId = node.nodeId
  groupSize : node'.groupSize = node.groupSize
  mod : ∃ slientPeriod, node'.electionMod = { node.electionMod with slientPeriod := slientPeriod }
  allocated : node'.modAllocated = node.modAllocated
  accepted : node'.accepted = node.accepted
  sent : ∃ pings, node'.sent = node.sent ++ pings ∧
    ∀ call ∈ pings, ∀ msg data, call.2 ≠ .leaderElection msg data

theorem Rests.refl (node : Node) : Rests node node :=
  ⟨rfl, rfl, rfl, ⟨_, rfl⟩, rfl, rfl, [], (List.append_nil _).symm, by simp⟩

/-- Nothing but the component and the timers changes. -/
theorem Rests.of_comp {node node' : Node} (comp : Comp.SameNode node.comp node'.comp)
    (rest : ∃ leaderPing expectPing makeProgress, node' = { node with
      comp := node'.comp
      evLeaderPing := leaderPing
      evExpectPing := expectPing
      evMakeProgress := makeProgress }) : Rests node node' := by
  obtain ⟨leaderPing, expectPing, makeProgress, same⟩ := rest
  exact {
    state := by rw [same]
    nodeId := congrArg Nat.cast comp.nodeId
    groupSize := comp.groupSize
    mod := ⟨node.electionMod.slientPeriod, by rw [same]⟩
    allocated := by rw [same]
    accepted := by rw [same]
    sent := ⟨[], by rw [same, List.append_nil], by simp⟩ }

/-- Progress moves nothing but the component and the timers. -/
theorem makeProgressOn_comp (env : NodeEnv) (node : Node) (running : node.comp.fault = none) :
    let node' := { node with evMakeProgress := .idle }.makeProgressOn env
    Comp.SameNode node.comp node'.comp ∧ ∃ leaderPing expectPing makeProgress,
      node' = { node with
        comp := node'.comp
        evLeaderPing := leaderPing
        evExpectPing := expectPing
        evMakeProgress := makeProgress } := by
  have same : Comp.SameNode node.comp (Comp.consensusMakeProgress env.toEnv node.comp) :=
    (Comp.handle_step node.comp (env.toEnv, .makeProgress) running).2
  simp only [makeProgressOn, andThen]
  split
  next leads =>
    split
    next =>
      split
      next => exact ⟨same, _, _, _, rfl⟩
      next => exact ⟨same, _, _, _, rfl⟩
    next => exact ⟨same, _, _, _, rfl⟩
  next follows =>
    split
    next =>
      -- the event is freed before it is added again
      simp only [initializeLeaderMakeProgress, if_true, fail]
      exact ⟨⟨rfl, rfl⟩, _, _, _, rfl⟩
    next => exact ⟨⟨rfl, rfl⟩, _, _, _, rfl⟩

/-- An active node that no ping disturbs rests, or starts an election. -/
theorem dispatch_active {node : Node} (timed : Timed node) (active : node.state = .active)
    (e : NodeEnv × NodeEvent) (enabled : machine.enabled node e)
    (undisturbed : Undisturbed e.2) : Rests node (node.dispatch e) ∨
      node.dispatch e = { node with evExpectPing := .idle }.initializeLeaderElection e.1 := by
  obtain ⟨running, due⟩ := enabled
  obtain ⟨env, event⟩ := e
  cases event with
  | message msg =>
    left
    cases msg with
    | pingReq => exact undisturbed.elim
    | pingAck nodeId view timestamp =>
      simp only [dispatch, handleMsg, handlePingAck_ignored, ite_self]
      exact .refl node
    | consensus msg =>
      simp only [dispatch, handleMsg, if_pos active]
      refine .of_comp ?_ ⟨_, _, _, rfl⟩
      exact (Comp.handle_step node.comp (env.toEnv, .message msg) running).2
    | requestSubmit data =>
      simp only [dispatch, handleMsg, if_pos active]
      refine .of_comp ?_ ⟨_, _, _, rfl⟩
      exact (Comp.handle_step node.comp (env.toEnv, .submit data) running).2
    | leaderElection msg data =>
      simp only [dispatch, handleMsg, active, reduceCtorEq, or_self, if_false]
      exact .refl node
  | leaderPing =>
    left
    -- a leader's timer sends pings and arms itself again
    have leads : Node.isLeader { node with evLeaderPing := .idle } = true := timed.leaderPing due
    simp only [dispatch, leaderPingPeriod, if_pos leads]
    exact {
      state := rfl
      nodeId := rfl
      groupSize := rfl
      mod := ⟨_, rfl⟩
      allocated := rfl
      accepted := rfl
      sent := ⟨_, rfl, by simp⟩ }
  | expectPing =>
    have follows : Node.isLeader { node with evExpectPing := .idle } ≠ true := by
      show node.isLeader ≠ true
      simp [(timed.expectPing due).1]
    simp only [dispatch, expectedLeaderPingPeriod, if_neg follows]
    split
    next heard =>
      left
      simp only [initializeExpectPing, if_neg timed.kept]
      exact .of_comp ⟨rfl, rfl⟩ ⟨_, _, _, rfl⟩
    -- the only way into an election: no ping came in time
    next silent => exact .inr rfl
  | makeProgress =>
    obtain ⟨same, rest⟩ := makeProgressOn_comp env node running
    exact .inl (.of_comp same rest)
  | electionTimeout =>
    left
    simp only [dispatch, leaderElectionOnTimeout, withMod, active]
    exact ⟨active.symm, rfl, rfl, ⟨_, rfl⟩, rfl, rfl, [], (List.append_nil _).symm, by simp⟩

/-- What no step takes back. -/
structure Kept (node node' : Node) : Prop where
  nodeId : node'.nodeId = node.nodeId
  groupSize : node'.groupSize = node.groupSize
  sent : node.sent ⊆ node'.sent
  accepted : node.accepted ⊆ node'.accepted
  inElection : node.state ≠ .active → node'.state ≠ .active

theorem Rests.kept {node node' : Node} (rests : Rests node node') : Kept node node' := by
  obtain ⟨pings, sent, -⟩ := rests.sent
  refine ⟨rests.nodeId, rests.groupSize, ?_, ?_, ?_⟩
  · rw [sent]
    exact List.subset_append_left _ _
  · rw [rests.accepted]
    exact fun _ => id
  · rw [rests.state]
    exact id

theorem Elects.kept {node node' : Node} (elects : Elects node node') : Kept node node' := by
  obtain ⟨db, fault, comp⟩ := elects.comp
  refine ⟨?_, ?_, elects.logs.1, elects.logs.2, ?_⟩
  · rw [Node.nodeId, comp]
    rfl
  · rw [Node.groupSize, comp]
    rfl
  · intro inElection
    rcases elects.state with same | post
    · rwa [same]
    · simp [post]

theorem Kept.vote {w : UInt32} {node node' : Node} (kept : Kept node node') (b : Int)
    (x : NodeId) (vote : Vote w node b x) : Vote w node' b x := by
  rcases vote with member | ⟨msg, ⟨type, view, target, data, member⟩, fields⟩
  · exact .inl (kept.accepted member)
  · exact .inr ⟨msg, ⟨type, view, target, data, kept.sent member⟩, fields⟩

theorem Kept.said {w : UInt32} {node node' : Node} (kept : Kept node node') (type : LeleType)
    (msg : LeleMsg) (said : Said w node type msg) : Said w node' type msg := by
  obtain ⟨isType, view, target, data, member⟩ := said
  exact ⟨isType, view, target, data, kept.sent member⟩

theorem handleLeaderElectionMsg_elects (env : NodeEnv) (node : Node) (msg : LeleMsg)
    (data : List UInt32) (goesOn : msg.type ≠ .fin ∧ msg.type ≠ .announceAck) :
    Elects node (node.handleLeaderElectionMsg env msg data) := by
  simp only [handleLeaderElectionMsg]
  split
  next =>
    split
    next =>
      split
      next close _ => exact elects_sendToOneNode node _ _
      next => exact .refl node
    next => exact .refl node
  next =>
    simp only [Node.leaderElectionDo]
    cases type : msg.type with
    | prepare => exact elects_handlePrepare env node msg
    | prepareAck => exact elects_leaderElectionProposerDo env node msg
    | accept => exact elects_handleAccept env node msg
    | acceptAck => exact elects_leaderElectionLearnerDo env node msg
    | announce => exact elects_leaderElectionHandleAnnounce env node msg
    | announceAck => exact absurd type goesOn.2
    | fin => exact absurd type goesOn.1
    | higherNode => exact elects_leaderElectionProposerDo env node msg
    | lagged => exact .refl node

theorem dispatch_kept {node : Node} (timed : Timed node) (e : NodeEnv × NodeEvent)
    (enabled : machine.enabled node e) (undisturbed : Undisturbed e.2) :
    Kept node (node.dispatch e) := by
  by_cases active : node.state = .active
  · rcases dispatch_active timed active e enabled undisturbed with rests | starts
    · exact rests.kept
    · rw [starts]
      exact ⟨rfl, rfl, fun _ => id, fun _ => id, fun other => absurd active other⟩
  · obtain ⟨running, due⟩ := enabled
    obtain ⟨env, event⟩ := e
    cases event with
    | message msg =>
      refine Elects.kept ?_
      cases msg with
      | pingReq => exact undisturbed.elim
      | pingAck sender view timestamp =>
        simp only [dispatch, handleMsg, handlePingAck_ignored, ite_self]
        exact .refl node
      | consensus msg =>
        simp only [dispatch, handleMsg, if_neg active]
        exact .refl node
      | requestSubmit data =>
        simp only [dispatch, handleMsg, if_neg active]
        exact .refl node
      | leaderElection msg data =>
        simp only [dispatch, handleMsg]
        split
        next => exact handleLeaderElectionMsg_elects env node msg data undisturbed
        next => exact .refl node
    | leaderPing => exact absurd (timed.leads (timed.leaderPing due)) active
    | expectPing => exact absurd (timed.expectPing due).2 active
    | makeProgress =>
      obtain ⟨same, rest⟩ := makeProgressOn_comp env node running
      exact (Rests.of_comp same rest).kept
    | electionTimeout =>
      have fired : Elects node
          (node.withMod { node.electionMod with slientPeriod := .idle }) :=
        elects_withMod node _ rfl
      exact (fired.trans (elects_leaderElectionOnTimeout env _)).kept

/-! ## Before the election -/

/-- A node that has taken no part in the election for view `w` yet. -/
structure Idle (w : UInt32) (node : Node) : Prop where
  silent : ∀ type msg, ¬ Said w node type msg
  unvoted : ∀ b x, (w, b, x) ∉ node.accepted
  acceptor : node.modAllocated = true → 0 ≤ node.electionMod.acceptor.acceptedPnum ∧
    node.electionMod.acceptor.acceptedPnum ≤ node.electionMod.acceptor.highestSeenPnum
  resent : node.modAllocated = true → ∀ msg, node.electionMod.announceAckMsg = some msg →
    ∃ vcMsg data, msg = .leaderElection vcMsg data ∧ vcMsg.type = .announceAck

section Electing

variable {n : ℕ} {w : UInt32} {i : Fin n} {net : Net n} {node : Node}

theorem Idle.rests {node' : Node} (idle : Idle w node) (rests : Rests node node') :
    Idle w node' := by
  obtain ⟨slientPeriod, mod⟩ := rests.mod
  obtain ⟨pings, sent, other⟩ := rests.sent
  exact {
    silent := by
      rintro type msg ⟨isType, view, target, data, member⟩
      rw [sent] at member
      rcases List.mem_append.mp member with old | ping
      · exact idle.silent type msg ⟨isType, view, target, data, old⟩
      · exact other _ ping msg data rfl
    unvoted := by rw [rests.accepted]; exact idle.unvoted
    acceptor := by rw [rests.allocated, mod]; exact idle.acceptor
    resent := by rw [rests.allocated, mod]; exact idle.resent }

theorem Idle.initializeLeaderElection (idle : Idle w node) (env : NodeEnv)
    (nodeId : node.nodeId = (i : ℕ)) (groupSize : node.groupSize = n)
    (view : node.viewId + 1 = w) :
    Electing w i net (node.initializeLeaderElection env) := by
  have inGroup : ∀ k : Fin n, InGroup n ((k : ℕ) : Int) := fun k =>
    ⟨Int.natCast_nonneg _, Int.ofNat_lt.mpr k.isLt⟩
  -- the module is allocated once and kept; a later election starts from the kept one
  generalize start : (if node.modAllocated then node.electionMod
    else LeleMod.initializeLeaderElectionMod env) = mod
  have acceptor : 0 ≤ mod.acceptor.acceptedPnum ∧
      mod.acceptor.acceptedPnum ≤ mod.acceptor.highestSeenPnum := by
    rw [← start]
    split
    next allocated => exact idle.acceptor allocated
    next => exact ⟨le_rfl, le_rfl⟩
  have resent : ∀ msg, mod.announceAckMsg = some msg →
      ∃ vcMsg data, msg = .leaderElection vcMsg data ∧ vcMsg.type = .announceAck := by
    rw [← start]
    split
    next allocated => exact idle.resent allocated
    next =>
      rintro msg ⟨⟩
  have learner : ∀ k : Fin n,
      ((node.initializeLeaderElection env).electionMod.learnerArr (k : ℕ)).pnum = -1 := by
    intro k
    simp only [Node.initializeLeaderElection, LeleMod.refreshLeaderElection, groupSize,
      if_pos (inGroup k)]
  have proposer : ∀ k : Fin n,
      ((node.initializeLeaderElection env).electionMod.proposerArr (k : ℕ)).aPnum = -1 := by
    intro k
    simp only [Node.initializeLeaderElection, LeleMod.refreshLeaderElection, groupSize,
      if_pos (inGroup k)]
  -- the fresh arrays hold no vote and no answer of anyone
  have notAnswered : ¬ (node.initializeLeaderElection env).electionMod.Answered n (i : ℕ) :=
    fun answered => answered.2 (proposer i)
  have origin : (node.initializeLeaderElection env).electionMod.origin n = (i : ℕ) - n := by
    rw [← nodeId]
    rfl
  have same : (node.initializeLeaderElection env).electionMod.acceptor =
      { mod.acceptor with content := -1 } := by
    rw [← start]
    rfl
  exact {
    nextView := view
    nextPnum := ⟨0, by
      rw [Nat.cast_zero, mul_zero, add_zero]
      exact nodeId⟩
    acceptor := by rw [same]; exact acceptor
    round := by
      rw [origin, same]
      have inside := i.isLt
      have bounds := acceptor.1.trans acceptor.2
      simp only
      omega
    accepts := fun b x member => absurd member (idle.unvoted b x)
    last := .inl ⟨by rw [same], idle.unvoted⟩
    fresh := fun _ _ _ _ => by rw [same]
    said := fun type msg said => absurd said (idle.silent type msg)
    single := fun msg _ said => absurd said (idle.silent _ msg)
    learner := fun k set => absurd (learner k) set
    ownLearner := fun ⟨msg, said⟩ => absurd said (idle.silent _ msg)
    answers := fun k _ set => absurd (proposer k) set
    ownRound := fun set => absurd (proposer i) set
    ownPromise := fun _ => by
      rw [if_neg notAnswered, same]
    resent := by
      intro msg kept
      refine resent msg ?_
      rw [← start]
      exact kept }

/-! ## During the election -/

/-- What a message of the election tells about the node that sent it. -/
def Heard (i : Fin n) (net : Net n) (msg : LeleMsg) : Prop :=
  ∃ k : Fin n, k ≠ i ∧
    match msg.type with
    | .prepare => msg.content = -1 ∧ Mine n k msg.pnum
    | .prepareAck => msg.nodeId = (k : ℕ) ∧ msg.content = -1 ∧
        0 < msg.pPnum ∧ net.promised k msg.pPnum
    | .accept => Mine n k msg.pnum ∧ 0 < msg.pnum ∧ msg.content ≠ -1 ∧
        net.proposed msg.pnum msg.content
    | .acceptAck => msg.nodeId = (k : ℕ) ∧ 0 < msg.pnum ∧ net.vote k msg.pnum msg.content
    | _ => True

theorem Heard.mono {net' : Net n} {msg : LeleMsg} (heard : Heard i net msg) (le : net.Le net') :
    Heard i net' msg := by
  obtain ⟨k, other, meaning⟩ := heard
  refine ⟨k, other, ?_⟩
  cases type : msg.type with
  | prepareAck =>
    rw [type] at meaning
    obtain ⟨sender, nothing, positive, promised⟩ := meaning
    exact ⟨sender, nothing, positive, le.promised k _ promised⟩
  | accept =>
    rw [type] at meaning
    obtain ⟨theirs, positive, real, proposed⟩ := meaning
    exact ⟨theirs, positive, real, le.proposed _ _ proposed⟩
  | acceptAck =>
    rw [type] at meaning
    obtain ⟨sender, positive, vote⟩ := meaning
    exact ⟨sender, positive, le.vote k _ _ vote⟩
  | prepare => rwa [type] at meaning
  | announce => trivial
  | announceAck => trivial
  | fin => trivial
  | lagged => trivial
  | higherNode => trivial

/-- A message of the election the node is in. -/
theorem Electing.leaderElectionDo (electing : Electing w i net node) (env : NodeEnv)
    (nodeId : node.nodeId = (i : ℕ)) (groupSize : node.groupSize = n) (msg : LeleMsg)
    (data : List UInt32) (goesOn : msg.type ≠ .fin ∧ msg.type ≠ .announceAck)
    (keeps : KeepsVotes node msg) (heard : Heard i net msg)
    (own : ∀ b x, Vote w (node.leaderElectionDo env msg data) b x → net.vote i b x) :
    Electing w i net (node.leaderElectionDo env msg data) := by
  obtain ⟨k, other, meaning⟩ := heard
  simp only [Node.leaderElectionDo] at own ⊢
  cases type : msg.type with
  | prepare =>
    rw [type] at meaning
    exact electing.handlePrepare env nodeId msg type keeps k other meaning.2 meaning.1
  | prepareAck =>
    rw [type] at meaning own
    exact electing.leaderElectionProposerDo env nodeId groupSize msg keeps
      (fun _ => ⟨k, other, meaning⟩) own
  | accept =>
    rw [type] at meaning own
    obtain ⟨theirs, positive, real, proposed⟩ := meaning
    exact electing.handleAccept env nodeId groupSize msg k other theirs positive real proposed own
  | acceptAck =>
    rw [type] at meaning
    obtain ⟨sender, positive, vote⟩ := meaning
    exact electing.leaderElectionLearnerDo env groupSize msg k sender positive vote
  | announce => exact electing.leaderElectionHandleAnnounce env msg
  | announceAck => exact absurd type goesOn.2
  | fin => exact absurd type goesOn.1
  | higherNode =>
    rw [type] at own
    exact electing.leaderElectionProposerDo env nodeId groupSize msg keeps
      (fun isAck => by rw [type] at isAck; cases isAck) own
  | lagged => exact electing

theorem Electing.handleLeaderElectionMsg (electing : Electing w i net node) (env : NodeEnv)
    (nodeId : node.nodeId = (i : ℕ)) (groupSize : node.groupSize = n)
    (view : node.viewId + 1 = w) (msg : LeleMsg) (data : List UInt32)
    (goesOn : msg.type ≠ .fin ∧ msg.type ≠ .announceAck)
    (heard : msg.nextView = w → KeepsVotes node msg ∧ Heard i net msg)
    (own : ∀ b x, Vote w (node.handleLeaderElectionMsg env msg data) b x → net.vote i b x) :
    Electing w i net (node.handleLeaderElectionMsg env msg data) := by
  simp only [Node.handleLeaderElectionMsg] at own ⊢
  split
  next different =>
    split
    next lagged =>
      split
      next close built =>
        have type : close.type = .fin := by
          simp only [leaderElectionBuildClose, Option.map_eq_some_iff] at built
          obtain ⟨value, -, rfl⟩ := built
          rfl
        refine electing.send _ close [] (by rw [type]; exact LeleType.noConfusion) fun _ => ?_
        rw [MsgOk, type]
        trivial
      next => exact electing
    next => exact electing
  next current =>
    rw [if_neg current] at own
    obtain ⟨keeps, heard⟩ := heard ((not_not.mp current).trans view)
    exact electing.leaderElectionDo env nodeId groupSize msg data goesOn keeps heard own

theorem Electing.leaderElectionOnTimeout (electing : Electing w i net node) (env : NodeEnv)
    (nodeId : node.nodeId = (i : ℕ)) (groupSize : node.groupSize = n)
    (own : ∀ b x, Vote w (node.leaderElectionOnTimeout env) b x → net.vote i b x) :
    Electing w i net (node.leaderElectionOnTimeout env) := by
  have again : ∀ node : Node, Electing w i net node →
      Electing w i net (node.withMod { node.electionMod with slientPeriod := .pending }) :=
    fun _ electing => electing.frame rfl rfl ⟨_, _, _, rfl⟩
  simp only [Node.leaderElectionOnTimeout] at own ⊢
  split
  next post =>
    split
    next other =>
      split
      next msg kept =>
        obtain ⟨ack, data, rfl, type⟩ := electing.resent msg kept
        refine again _ ?_
        refine electing.send _ ack data (by rw [type]; exact LeleType.noConfusion) fun _ => ?_
        rw [MsgOk, type]
        trivial
      next => exact again _ electing
    next leads => exact again _ electing
  next inLele =>
    rw [inLele] at own
    by_cases running : (node.leaderElectionPropose env).comp.fault = none
    · rw [andThen_of_running _ _ running]
      simp only [andThen_of_running _ _ running] at own
      exact again _ (electing.leaderElectionPropose env nodeId groupSize own)
    · rw [andThen_of_fault _ _ running]
      simp only [andThen_of_fault _ _ running] at own
      exact electing.leaderElectionPropose env nodeId groupSize own
  next active => exact electing

theorem Electing.dispatch (electing : Electing w i net node) (timed : Timed node)
    (inElection : node.state ≠ .active) (nodeId : node.nodeId = (i : ℕ))
    (groupSize : node.groupSize = n) (view : node.viewId + 1 = w) (e : NodeEnv × NodeEvent)
    (enabled : machine.enabled node e) (undisturbed : Undisturbed e.2)
    (heard : ∀ msg data, e.2 = .message (.leaderElection msg data) → msg.nextView = w →
      KeepsVotes node msg ∧ Heard i net msg)
    (own : ∀ b x, Vote w (node.dispatch e) b x → net.vote i b x) :
    Electing w i net (node.dispatch e) := by
  obtain ⟨running, due⟩ := enabled
  obtain ⟨env, event⟩ := e
  cases event with
  | message msg =>
    cases msg with
    | pingReq => exact undisturbed.elim
    | pingAck sender view timestamp =>
      simp only [Node.dispatch, handleMsg, handlePingAck_ignored, ite_self]
      exact electing
    | consensus msg =>
      simp only [Node.dispatch, handleMsg, if_neg inElection]
      exact electing
    | requestSubmit data =>
      simp only [Node.dispatch, handleMsg, if_neg inElection]
      exact electing
    | leaderElection msg data =>
      simp only [Node.dispatch, handleMsg] at own ⊢
      split
      next inside =>
        rw [if_pos inside] at own
        exact electing.handleLeaderElectionMsg env nodeId groupSize view msg data undisturbed
          (heard msg data rfl) own
      next => exact electing
  | leaderPing => exact absurd (timed.leads (timed.leaderPing due)) inElection
  | expectPing => exact absurd (timed.expectPing due).2 inElection
  | makeProgress =>
    obtain ⟨-, _, _, _, rest⟩ := makeProgressOn_comp env node running
    show Electing w i net ({ node with evMakeProgress := .idle }.makeProgressOn env)
    rw [rest]
    exact electing.frame rfl rfl ⟨_, _, _, rfl⟩
  | electionTimeout =>
    have fired : Electing w i net
        (node.withMod { node.electionMod with slientPeriod := .idle }) :=
      electing.frame rfl rfl ⟨_, _, _, rfl⟩
    exact fired.leaderElectionOnTimeout env nodeId groupSize own

end Electing

end Node

namespace Cluster

variable {n : ℕ} {w : UInt32}

open Node

/-! ## The cluster -/

/-- What the nodes of the cluster have done in the election for view `w`. -/
def net (w : UInt32) (g : Cluster n) : Net n where
  vote k b x := Vote w (g k) b x
  promised k b := ∃ msg, Said w (g k) .prepareAck msg ∧ msg.pPnum = b
  proposed b x := ∃ k msg, Said w (g k) .accept msg ∧ msg.pnum = b ∧ msg.content = x

/-- A node that may take part in the election for view `w`. -/
structure Participant (w : UInt32) (i : Fin n) (net : Net n) (node : Node) : Prop where
  timed : Timed node
  nodeId : node.nodeId = (i : ℕ)
  groupSize : node.groupSize = n
  view : node.viewId + 1 = w
  phase : (node.state = .active ∧ Idle w node) ∨
    (node.state ≠ .active ∧ Electing w i net node)

/-- The nodes before the election: each is in the view before `w`, has said and accepted nothing in
an election for `w`, and has no election going on. -/
def Ready (w : UInt32) (g : Cluster n) : Prop :=
  ∀ i, Timed (g i) ∧ (g i).nodeId = ((i : ℕ) : Int) ∧ (g i).groupSize = n ∧
    (g i).viewId + 1 = w ∧ (g i).state = .active ∧ Idle w (g i)

/-- A node in the election keeps its votes. -/
def Remembers (w : UInt32) (node : Node) : NodeEvent → Prop
  | .message (.leaderElection msg _) =>
    msg.nextView = w → node.state ≠ .active → KeepsVotes node msg
  | _ => True

instance (w : UInt32) (node : Node) : ∀ event, Decidable (Remembers w node event)
  | .message (.leaderElection msg _) => inferInstanceAs (Decidable
      (msg.nextView = w → node.state ≠ .active → KeepsVotes node msg))
  | .message (.pingReq _ _ _) => .isTrue trivial
  | .message (.pingAck _ _ _) => .isTrue trivial
  | .message (.consensus _) => .isTrue trivial
  | .message (.requestSubmit _) => .isTrue trivial
  | .leaderPing => .isTrue trivial
  | .expectPing => .isTrue trivial
  | .makeProgress => .isTrue trivial
  | .electionTimeout => .isTrue trivial

/-- The election goes on. -/
def electionOnly : Cluster n → ClusterEvent n → Prop := fun _ e => Undisturbed e.2.2

instance (g : Cluster n) (e : ClusterEvent n) : Decidable (electionOnly g e) :=
  inferInstanceAs (Decidable (Undisturbed e.2.2))

/-- The election goes on, and no node forgets a vote. -/
def votesKept (w : UInt32) (g : Cluster n) (e : ClusterEvent n) : Prop :=
  Undisturbed e.2.2 ∧ Remembers w (g e.1) e.2.2

instance (w : UInt32) (g : Cluster n) (e : ClusterEvent n) : Decidable (votesKept w g e) :=
  inferInstanceAs (Decidable (_ ∧ _))

theorem net_le {g : Cluster n} {e : ClusterEvent n} (kept : Kept (g e.1) (act g e e.1)) :
    (net w g).Le (net w (act g e)) := by
  have each : ∀ k, Kept (g k) (act g e k) := by
    intro k
    by_cases actor : k = e.1
    · rw [actor]
      exact kept
    · rw [act_other g e k actor]
      exact ⟨rfl, rfl, fun _ => id, fun _ => id, id⟩
  refine ⟨fun k => (each k).vote, ?_, ?_⟩
  · rintro k b ⟨msg, said, number⟩
    exact ⟨msg, (each k).said _ msg said, number⟩
  · rintro b x ⟨k, msg, said, fields⟩
    exact ⟨k, msg, (each k).said _ msg said, fields⟩

/-- What a node hears in the election for view `w` another node has said. -/
theorem heard_of_sent {g : Cluster n} (participants : ∀ k, Participant w k (net w g) (g k))
    (i : Fin n) (msg : LeleMsg) (data : List UInt32) (current : msg.nextView = w)
    (sent : Sent g i (.message (.leaderElection msg data))) : Heard i (net w g) msg := by
  obtain ⟨k, ⟨target, msg'⟩, member, reaches, rfl⟩ := sent
  have said : Said w (g k) msg.type msg := ⟨rfl, current, target, data, member⟩
  refine ⟨k, reaches.1, ?_⟩
  rcases (participants k).phase with ⟨-, idle⟩ | ⟨-, electing⟩
  · exact absurd said (idle.silent _ msg)
  · have ok := electing.said _ msg said
    rw [MsgOk] at ok
    cases type : msg.type with
    | prepare =>
      rw [type] at ok
      exact ok
    | prepareAck =>
      rw [type] at ok said
      exact ⟨ok.nodeId, ok.nothing, ok.positive, msg, said, rfl⟩
    | accept =>
      rw [type] at ok said
      exact ⟨ok.mine, ok.positive, ok.content, k, msg, said, rfl, rfl⟩
    | acceptAck =>
      rw [type] at ok
      exact ⟨ok.1, (electing.accepts _ _ ok.2).1, .inl ok.2⟩
    | announce => trivial
    | announceAck => trivial
    | fin => trivial
    | lagged => trivial
    | higherNode => trivial

theorem participant_step {g : Cluster n} (participants : ∀ k, Participant w k (net w g) (g k))
    (e : ClusterEvent n) (allowed : votesKept w g e) (enabled : Node.machine.enabled (g e.1) e.2)
    (sent : Sent g e.1 e.2.2) (k : Fin n) :
    Participant w k (net w (act g e)) (act g e k) := by
  obtain ⟨undisturbed, keeps⟩ := allowed
  have self := participants e.1
  have kept : Kept (g e.1) (act g e e.1) := by
    rw [act_self]
    exact dispatch_kept self.timed e.2 enabled undisturbed
  have le := net_le (w := w) kept
  by_cases actor : k = e.1
  · subst actor
    have step := dispatch_step self.timed e.2 enabled
    -- an undisturbed step enters no view
    have inView : (act g e e.1).viewId = (g e.1).viewId := by
      rw [act_self]
      rcases step.moves with ⟨same, -⟩ | ⟨enters, -⟩
      · exact congrArg View.viewId same
      · exact absurd enters (undisturbed.stays _)
    exact {
      timed := by
        rw [act_self]
        exact step.timed
      nodeId := kept.nodeId.trans self.nodeId
      groupSize := kept.groupSize.trans self.groupSize
      view := by
        rw [inView]
        exact self.view
      phase := by
        rcases self.phase with ⟨active, idle⟩ | ⟨inElection, electing⟩
        · rw [act_self]
          -- an active node either stays idle or starts the election of the view
          rcases dispatch_active self.timed active e.2 enabled undisturbed with rests | starts
          · exact .inl ⟨rests.state.trans active, idle.rests rests⟩
          · right
            rw [starts]
            refine ⟨NodeState.noConfusion, ?_⟩
            have idle' : Idle w { g e.1 with evExpectPing := .idle } :=
              idle.rests (.of_comp ⟨rfl, rfl⟩ ⟨_, _, _, rfl⟩)
            exact idle'.initializeLeaderElection e.2.1 self.nodeId self.groupSize self.view
        · refine .inr ⟨kept.inElection inElection, ?_⟩
          -- what the node says in this very step is counted as said
          have own : ∀ b x, Vote w ((g e.1).dispatch e.2) b x →
              (net w (act g e)).vote e.1 b x := by
            intro b x vote
            show Vote w (act g e e.1) b x
            rwa [act_self]
          rw [act_self]
          refine (electing.mono le).dispatch self.timed inElection self.nodeId self.groupSize
            self.view e.2 enabled undisturbed ?_ own
          intro msg data isMsg current
          rw [isMsg] at sent keeps
          refine ⟨keeps current inElection, ?_⟩
          exact (heard_of_sent participants e.1 msg data current sent).mono le }
  · rw [act_other g e k actor]
    have before := participants k
    exact { before with
      phase := before.phase.imp_right fun ⟨inElection, electing⟩ =>
        ⟨inElection, electing.mono le⟩ }

theorem participants_of_run {s g : Cluster n} (ready : Ready w s)
    (run : (machine (Ready w)).Run (votesKept w) s g) (k : Fin n) :
    Participant w k (net w g) (g k) := by
  revert k
  apply run.invariant (I := fun g => ∀ k, Participant w k (net w g) (g k))
  · intro g e participants allowed enabled
    exact participant_step participants e allowed enabled.1 enabled.2
  · intro k
    obtain ⟨timed, nodeId, groupSize, view, active, idle⟩ := ready k
    exact ⟨timed, nodeId, groupSize, view, .inl ⟨active, idle⟩⟩

/-! ## Agreement -/

/-- The numbers of the election are ballots. -/
theorem ballots_of_participants {g : Cluster n}
    (participants : ∀ k, Participant w k (net w g) (g k)) :
    Ballots (fun k (b : ℕ) x => Vote w (g k) b x) (fun b x => (net w g).proposed b x) := by
  have proposals : ∀ k msg, Said w (g k) .accept msg →
      Electing w k (net w g) (g k) ∧ Proposal w k (net w g) (g k) msg := by
    intro k msg said
    rcases (participants k).phase with ⟨-, idle⟩ | ⟨-, electing⟩
    · exact absurd said (idle.silent _ msg)
    · have ok := electing.said _ msg said
      rw [MsgOk, said.1] at ok
      exact ⟨electing, ok⟩
  constructor
  · rintro b x y ⟨k, msg, said, number, rfl⟩ ⟨k', msg', said', number', rfl⟩
    obtain ⟨electing, proposal⟩ := proposals k msg said
    obtain ⟨-, proposal'⟩ := proposals k' msg' said'
    -- a number belongs to one node, and a node proposes once under it
    have same : k = k' := by
      refine proposal.mine.unique ?_
      rw [number, ← number']
      exact proposal'.mine
    subst same
    exact electing.single msg msg' said said' (number.trans number'.symm)
  · rintro k b x (member | ⟨msg, said, number, rfl⟩)
    · rcases (participants k).phase with ⟨-, idle⟩ | ⟨-, electing⟩
      · exact absurd member (idle.unvoted _ x)
      · exact (electing.accepts _ x member).2.2.2
    · exact ⟨k, msg, said, number, rfl⟩
  · rintro b x ⟨k, msg, said, number, rfl⟩
    obtain ⟨-, proposal⟩ := proposals k msg said
    obtain ⟨backers, majority, promised⟩ := proposal.backed
    refine ⟨backers, k, majority, ?_, ?_⟩
    -- who promised has voted for no lower number
    · intro k' member other b' y vote
      obtain ⟨ack, saidAck, round⟩ := promised k' member other
      rcases (participants k').phase with ⟨-, idle⟩ | ⟨-, electing⟩
      · exact absurd saidAck (idle.silent _ ack)
      · have promise : Promise w k' (g k') ack := by
          have ok := electing.said _ ack saidAck
          rwa [MsgOk, saidAck.1] at ok
        have before := promise.before b' y vote
        omega
    · intro b' y vote below
      obtain ⟨b'', above, before, again⟩ := proposal.last b' y vote (by omega)
      refine ⟨b''.toNat, by omega, by omega, ?_⟩
      rwa [Int.toNat_of_nonneg (by omega)]

theorem vote_positive {g : Cluster n} (participants : ∀ k, Participant w k (net w g) (g k))
    (k : Fin n) (b : Int) (x : NodeId) (vote : Vote w (g k) b x) : 0 < b := by
  rcases (participants k).phase with ⟨-, idle⟩ | ⟨-, electing⟩
  · rcases vote with member | ⟨msg, said, -⟩
    · exact absurd member (idle.unvoted b x)
    · exact absurd said (idle.silent _ msg)
  · rcases vote with member | ⟨msg, said, rfl, -⟩
    · exact (electing.accepts b x member).1
    · have proposal : Proposal w k (net w g) (g k) msg := by
        have ok := electing.said _ msg said
        rwa [MsgOk, said.1] at ok
      exact proposal.positive

/-- What a learner decides on a majority has voted for. -/
theorem chosen_of_decided {g : Cluster n}
    (participants : ∀ k, Participant w k (net w g) (g k)) (b : Int) (x : NodeId)
    (decided : Decided (net w g) b x) :
    ∃ ballot : ℕ, Chosen (fun k (b : ℕ) x => Vote w (g k) b x) ballot x := by
  have ballots := ballots_of_participants participants
  obtain ⟨⟨voters, majority, votes⟩, k, content⟩ := decided
  have number : ((b.toNat : ℕ) : Int) = b :=
    Int.toNat_of_nonneg (vote_positive participants k b x content).le
  rw [← number] at content votes
  refine ⟨b.toNat, voters, majority, fun k' member => ?_⟩
  obtain ⟨y, vote⟩ := votes k' member
  have same : y = x := ballots.single b.toNat y x (ballots.proposed k' _ y vote)
    (ballots.proposed k _ x content)
  exact same ▸ vote

/-- A learner of the cluster has decided on a node for view `w`: a learner that decides announces
what it has decided. -/
def Elected (w : UInt32) (g : Cluster n) (leader : NodeId) : Prop :=
  ∃ k msg, Said w (g k) .announce msg ∧ msg.content = leader

/-- In every run in which no node forgets a vote, at most one node is elected for the view. -/
theorem election_agreement (n : ℕ) (w : UInt32) (s g : Cluster n) (ready : Ready w s)
    (run : (machine (Ready w)).Run (votesKept w) s g) (leader leader' : NodeId)
    (first : Elected w g leader) (second : Elected w g leader') : leader = leader' := by
  have participants := participants_of_run ready run
  have decided : ∀ x, Elected w g x →
      ∃ ballot : ℕ, Chosen (fun k (b : ℕ) x => Vote w (g k) b x) ballot x := by
    rintro x ⟨k, msg, said, rfl⟩
    rcases (participants k).phase with ⟨-, idle⟩ | ⟨-, electing⟩
    · exact absurd said (idle.silent _ msg)
    · have ok := electing.said _ msg said
      rw [MsgOk, said.1] at ok
      exact chosen_of_decided participants msg.pnum msg.content ok
  obtain ⟨b, chosen⟩ := decided leader first
  obtain ⟨b', chosen'⟩ := decided leader' second
  exact (ballots_of_participants participants).agreement b b' leader leader' chosen chosen'

/-! ## Runs on fixed events -/

def booted : Cluster 3 := fun i => Node.init (i = 0) i 3 ⟨8, 0⟩ ⟨0, 0⟩ Node.lateEnv

/-- The ping of node 0, the leader of view 1, with which the other two nodes join it. -/
def joinPing : NodeEnv × NodeEvent := (lateEnv, .message (.pingReq 0 ⟨1, 0, 0⟩ ⟨9, 0⟩))

def joined : Cluster 3 :=
  [(0, lateEnv, .leaderPing), (1, joinPing), (2, joinPing)].foldl act booted

theorem joined_ready : Ready 2 joined := by
  have timed : ∀ (i : Fin 3) (e : NodeEnv × NodeEvent), Node.machine.enabled (booted i) e →
      Timed ((booted i).dispatch e) := fun i e enabled =>
    (dispatch_step (init_timed ..) e enabled).timed
  have idle : ∀ node : Node, (∀ call ∈ node.sent, ∀ msg data, call.2 ≠ .leaderElection msg data) →
      node.accepted = [] → node.modAllocated = false → Idle 2 node := by
    intro node pings nothing never
    exact {
      silent := fun type msg ⟨_, _, target, data, member⟩ => pings _ member msg data rfl
      unvoted := by simp [nothing]
      acceptor := by simp [never]
      resent := by simp [never] }
  intro i
  match i with
  | 0 =>
    refine ⟨timed 0 (lateEnv, .leaderPing) (by decide), rfl, rfl, by decide, rfl, ?_⟩
    refine idle _ ?_ rfl rfl
    intro call member
    cases List.mem_singleton.mp member
    exact fun _ _ => SysMsg.noConfusion
  | 1 =>
    refine ⟨timed 1 joinPing (by decide), rfl, rfl, by decide, rfl, ?_⟩
    exact idle _ (fun call member => by cases member) rfl rfl
  | 2 =>
    refine ⟨timed 2 joinPing (by decide), rfl, rfl, by decide, rfl, ?_⟩
    exact idle _ (fun call member => by cases member) rfl rfl

/-- A message of the election for view 2, as the nodes send it. -/
def election (receiver sender : Fin 3) (type : LeleType) (pnum pPnum : Int) (content : NodeId) :
    ClusterEvent 3 :=
  let lastReq := if type = .acceptAck then 4294967295 else 0
  (receiver, lateEnv, .message
    (.leaderElection ⟨type, (sender : ℕ), 2, pnum, pPnum, content, lastReq, 0⟩ []))

/-- Nodes 1 and 2 lose their leader, and node 2 accepts node 1 with its first number. -/
def firstRound : List (ClusterEvent 3) :=
  [(1, lateEnv, .expectPing), (2, lateEnv, .expectPing), (1, lateEnv, .electionTimeout),
    election 2 1 .prepare 1 (-1) (-1), election 1 2 .prepareAck 0 1 (-1),
    election 2 1 .accept 1 (-1) 1]

/-- The acknowledgement arrives. -/
def decides : List (ClusterEvent 3) := firstRound ++ [election 1 2 .acceptAck 1 0 1]

/-- What node 1 has announced. -/
def announcement (leader : NodeId) (pnum : Int) : LeleMsg :=
  ⟨.announce, leader, 2, pnum, 0, leader, 0, 0⟩

theorem elected_of_announced (g : Cluster 3) (k : Fin 3) (leader : NodeId) (pnum : Int)
    (sent : (-1, .leaderElection (announcement leader pnum) []) ∈ (g k).sent) :
    Elected 2 g leader :=
  ⟨k, announcement leader pnum, ⟨rfl, rfl, -1, [], sent⟩, rfl⟩

theorem first_leader_agreed : Elected 2 (decides.foldl act joined) 1 ∧
    ∀ leader, Elected 2 (decides.foldl act joined) leader → leader = 1 := by
  have elected : Elected 2 (decides.foldl act joined) 1 :=
    elected_of_announced _ 1 1 1 (by decide)
  have accepted : (machine (Ready 2)).Accepts (votesKept 2) joined decides := by decide
  refine ⟨elected, fun leader other => ?_⟩
  exact election_agreement 3 2 joined _ joined_ready accepted.run leader 1 other elected

/-- Node 1 starts a second round before the acknowledgement of the first arrives. Node 2 gives up
what it has accepted when it answers the second, and is elected in a round of its own. -/
def secondLeader : List (ClusterEvent 3) :=
  firstRound ++ [(1, lateEnv, .electionTimeout), election 1 2 .acceptAck 1 0 1,
    election 2 1 .prepare 4 (-1) (-1), (2, lateEnv, .electionTimeout),
    (2, lateEnv, .electionTimeout), election 1 2 .prepare 5 (-1) (-1),
    election 2 1 .prepareAck 0 5 (-1), election 1 2 .accept 5 (-1) 2,
    election 2 1 .acceptAck 5 0 2]

/-- The two learners of one election decide on two nodes. -/
theorem two_leaders_elected :
    ¬ ∀ (n : ℕ) (w : UInt32) (s g : Cluster n), Ready w s →
      (machine (Ready w)).Run electionOnly s g → ∀ leader leader' : NodeId,
      Elected w g leader → Elected w g leader' → leader = leader' := by
  intro claim
  have accepted : (machine (Ready 2)).Accepts electionOnly joined secondLeader := by decide
  have first : Elected 2 (secondLeader.foldl act joined) 1 :=
    elected_of_announced _ 1 1 1 (by decide)
  have second : Elected 2 (secondLeader.foldl act joined) 2 :=
    elected_of_announced _ 2 2 5 (by decide)
  have same := claim 3 2 joined _ joined_ready accepted.run 1 2 first second
  exact absurd same (by decide)

end Cluster

end LibeventPaxos
