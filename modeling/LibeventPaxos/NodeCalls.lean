import LibeventPaxos.NodeVotes
import LibeventPaxos.RoleTimers

/-!
Every call of a node reaches its component through one call of the component, or through none. What
is proved of one component under arbitrary calls thereby holds of the component of a node.
-/
namespace LibeventPaxos

open Lib

namespace Node

/-! ## Which calls enter a view -/

/-- The acknowledgement completes a majority of the nodes heard. -/
def Closes (node : Node) (msg : LeleMsg) : Prop :=
  node.groupSize / 2 + 1 ≤ EdgeMod.heard node.groupSize
    (Function.update (node.heardBefore msg) msg.nodeId true)

instance (node : Node) (msg : LeleMsg) : Decidable (node.Closes msg) :=
  inferInstanceAs (Decidable (_ ≤ _))

/-- The event takes the node to `update_view` with the next view. -/
def Enters (node : Node) : NodeEvent → Prop
  | .message (.pingReq _ view _) => node.state ≠ .postLele ∧ view.viewId = node.viewId + 1
  | .message (.leaderElection msg _) =>
    node.Handles msg ∧ (msg.type = .fin ∨ msg.type = .announceAck ∧ node.Closes msg)
  | _ => False

instance (node : Node) : ∀ event, Decidable (node.Enters event)
  | .message (.pingReq _ _ _) => inferInstanceAs (Decidable (_ ∧ _))
  | .message (.leaderElection _ _) => inferInstanceAs (Decidable (_ ∧ (_ ∨ _ ∧ _)))
  | .message (.pingAck _ _ _) => .isFalse id
  | .message (.consensus _) => .isFalse id
  | .message (.requestSubmit _) => .isFalse id
  | .leaderPing => .isFalse id
  | .expectPing => .isFalse id
  | .makeProgress => .isFalse id
  | .electionTimeout => .isFalse id

/-- The calls of the component an event may lead to. -/
inductive Calls (node : Node) : NodeEvent → CompEvent → Prop
  | message (msg : ConsensusMsg) (active : node.state = .active) :
      Calls node (.message (.consensus msg)) (.message msg)
  | submit (data : List UInt8) (active : node.state = .active) :
      Calls node (.message (.requestSubmit data)) (.submit data)
  | makeProgress (leads : node.isLeader = true) : Calls node .makeProgress .makeProgress
  | updateView (event : NodeEvent) (newViewInfo : View) (enters : node.Enters event)
      (successor : node.viewId + 1 = newViewInfo.viewId) :
      Calls node event (.updateView newViewInfo)
  | acceptorUpdateRecord (event : NodeEvent) (record : AcceptorRecord)
      (electing : node.state ≠ .active) :
      Calls node event (.acceptorUpdateRecord node.electionMod.nextView record)

/-- The component of the node is `c`, unless the call has failed. -/
def HasComp (c : Comp) (node : Node) : Prop := ∃ fault, node.comp = { c with fault := fault }

/-- The component of the node is left alone or has handled one call. -/
def CallsOnce (e : NodeEnv × NodeEvent) (node node' : Node) : Prop :=
  HasComp node.comp node' ∨
    ∃ event, Calls node e.2 event ∧ HasComp (node.comp.handle (e.1.toEnv, event)) node'

/-! ## Handlers -/

section Handlers

variable {c : Comp} {node node' : Node}

theorem HasComp.same (same : node'.comp = node.comp) : HasComp node.comp node' := ⟨_, same⟩

theorem HasComp.fail (has : HasComp c node) (fault : Fault) : HasComp c (node.fail fault) := by
  obtain ⟨raised, same⟩ := has
  refine ⟨some fault, ?_⟩
  rw [Node.fail, same]
  rfl

/-- What runs next leaves the component alone. -/
theorem HasComp.next (has : HasComp c node) (next : HasComp node.comp node') : HasComp c node' := by
  obtain ⟨raised, same⟩ := has
  obtain ⟨raised', same'⟩ := next
  exact ⟨raised', by rw [same', same]⟩

theorem HasComp.andThen {rest : Node → Node} (has : HasComp c node)
    (next : HasComp node.comp (rest node)) : HasComp c (node.andThen rest) := by
  simp only [Node.andThen]
  split
  next => exact has.next next
  next => exact has

private theorem hasComp_checkPrepare (env : NodeEnv) (node : Node) :
    HasComp node.comp (node.checkPrepare env) := by
  simp only [checkPrepare, leaderElectionProposerPhaseTwo]
  split
  next => split <;> exact ⟨_, rfl⟩
  next => exact ⟨_, rfl⟩

private theorem hasComp_leaderElectionProposerDo (env : NodeEnv) (node : Node) (msg : LeleMsg) :
    HasComp node.comp (node.leaderElectionProposerDo env msg) := by
  simp only [leaderElectionProposerDo]
  split_ifs
  · exact ⟨_, rfl⟩
  · exact hasComp_checkPrepare env _
  · exact ⟨_, rfl⟩
  · exact ⟨_, rfl⟩

private theorem hasComp_leaderElectionHandleAnnounce (env : NodeEnv) (node : Node)
    (msg : LeleMsg) : HasComp node.comp (node.leaderElectionHandleAnnounce env msg) := by
  simp only [leaderElectionHandleAnnounce, leaderElectionInitializeEdgeMod, leaderElectionCalEdge]
  split
  next own => split <;> exact ⟨_, rfl⟩
  next other =>
    split
    next seen =>
      split
      next => exact ⟨_, rfl⟩
      next => split <;> exact ⟨_, rfl⟩
    next nothing => exact ⟨_, rfl⟩

private theorem hasComp_leaderElectionLearnerDo (env : NodeEnv) (node : Node) (msg : LeleMsg) :
    HasComp node.comp (node.leaderElectionLearnerDo env msg) := by
  simp only [leaderElectionLearnerDo]
  split
  next inGroup =>
    split
    next newer =>
      split
      next => exact ⟨_, rfl⟩
      next => exact hasComp_leaderElectionHandleAnnounce env _ _
    next => exact ⟨_, rfl⟩
  next => exact ⟨_, rfl⟩

/-- A round stores the acceptor, or nothing. -/
private theorem leaderElectionPropose_calls (env : NodeEnv) (node : Node) :
    HasComp node.comp (node.leaderElectionPropose env) ∨ ∃ record,
      HasComp (node.comp.acceptorUpdateRecord node.electionMod.nextView record)
        (node.leaderElectionPropose env) := by
  simp only [leaderElectionPropose]
  split
  next higher =>
    have checked := hasComp_checkPrepare env
    exact .inr ⟨_, checked _⟩
  next => exact .inl ⟨_, rfl⟩

private theorem handlePrepare_calls (env : NodeEnv) (node : Node) (msg : LeleMsg) :
    HasComp node.comp (node.handlePrepare env msg) ∨ ∃ record,
      HasComp (node.comp.acceptorUpdateRecord node.electionMod.nextView record)
        (node.handlePrepare env msg) := by
  obtain ⟨timer, waits⟩ := stopPropose_timer node msg
  simp only [handlePrepare, waits]
  split
  next higher => exact .inr ⟨{ node.electionMod.acceptor with
    highestSeenPnum := msg.pnum, content := msg.content }, _, rfl⟩
  next => exact .inl ⟨_, rfl⟩

private theorem handleAccept_calls (env : NodeEnv) (node : Node) (msg : LeleMsg) :
    HasComp node.comp (node.handleAccept env msg) ∨ ∃ record,
      HasComp (node.comp.acceptorUpdateRecord node.electionMod.nextView record)
        (node.handleAccept env msg) := by
  simp only [handleAccept]
  split
  next order =>
    have learned := hasComp_leaderElectionLearnerDo env
    exact .inr ⟨⟨msg.pnum, msg.pnum, msg.content⟩, (learned _ _).andThen ⟨_, rfl⟩⟩
  next => exact .inl ⟨_, rfl⟩

/-- `Node.updateView` moves the component as `Comp.updateView` does, or fails at a timer. -/
private theorem updateView_calls (env : NodeEnv) (node : Node) (newViewInfo : View) :
    HasComp node.comp (node.updateView env newViewInfo) ∨
      (node.viewId + 1 = newViewInfo.viewId ∧
        HasComp (Comp.updateView env.toEnv node.comp newViewInfo)
          (node.updateView env newViewInfo)) := by
  simp only [updateView, initializeLeaderPing, initializeExpectPing, andThen]
  split
  next successor =>
    refine .inr ⟨successor, ?_⟩
    split
    next => split <;> split <;> exact ⟨_, rfl⟩
    next => exact ⟨_, rfl⟩
  next => exact .inl ⟨_, rfl⟩

/-- The acknowledgements are merged, and the view is entered once a majority is heard. -/
private theorem mergeAnnounceAck_calls (env : NodeEnv) (node : Node) (msg : LeleMsg)
    (data : List UInt32) : HasComp node.comp (node.mergeAnnounceAck env msg data) ∨
      ∃ msgCount newViewInfo, node.electionMod.edge.msgCount = some msgCount ∧
        node.groupSize / 2 + 1 ≤ EdgeMod.heard node.groupSize
          (Function.update msgCount msg.nodeId true) ∧
        node.viewId + 1 = newViewInfo.viewId ∧
        HasComp (Comp.updateView env.toEnv node.comp newViewInfo)
          (node.mergeAnnounceAck env msg data) := by
  simp only [mergeAnnounceAck]
  split
  next => exact .inl ⟨_, rfl⟩
  next msgCount counted =>
    split
    next inGroup =>
      split
      next heard => exact .inl ⟨_, rfl⟩
      next fresh =>
        split
        next => exact .inl ⟨_, rfl⟩
        next =>
          split
          next majority =>
            generalize merged : node.withMod _ = before
            have same : before.comp = node.comp := by
              subst merged
              rfl
            simp only [leaderElectionLeaderClose]
            generalize (⟨before.electionMod.nextView, before.electionMod.newLeader,
              before.electionMod.edge.boundary⟩ : View) = newViewInfo
            have closes := updateView_calls env before newViewInfo
            rw [same, Node.viewId, same] at closes
            rcases closes with ignored | ⟨successor, entered⟩
            · exact .inl (ignored.andThen ⟨_, rfl⟩)
            · exact .inr ⟨msgCount, newViewInfo, counted, majority, successor,
                entered.andThen ⟨_, rfl⟩⟩
          next minority => exact .inl ⟨_, rfl⟩
    next outside => exact .inl ⟨_, rfl⟩

/-- A call that has not failed has left the component as it is. -/
theorem HasComp.running (has : HasComp c node) (before : c.fault = none)
    (after : node.comp.fault = none) : node.comp = c := by
  obtain ⟨fault, same⟩ := has
  rw [same] at after ⊢
  cases c
  subst before
  subst after
  rfl

private theorem handleAnnounceAck_calls (env : NodeEnv) (node : Node) (msg : LeleMsg)
    (data : List UInt32) (running : node.comp.fault = none) :
    HasComp node.comp (node.leaderElectionHandleAnnounceAck env msg data) ∨
      ∃ newViewInfo, node.Closes msg ∧ node.viewId + 1 = newViewInfo.viewId ∧
        HasComp (Comp.updateView env.toEnv node.comp newViewInfo)
          (node.leaderElectionHandleAnnounceAck env msg data) := by
  simp only [leaderElectionHandleAnnounceAck]
  by_cases overtakes : node.electionMod.edge.start = 0xFFFFFFFF ∧ node.nodeId = msg.content
  · rw [if_pos overtakes]
    -- the announcement is made up for; it leaves the component alone
    have announced := hasComp_leaderElectionHandleAnnounce env node msg
    have counts := handleAnnounce_counts env node msg overtakes.2.symm
    generalize node.leaderElectionHandleAnnounce env msg = before at announced counts ⊢
    by_cases running' : before.comp.fault = none
    swap
    · rw [andThen_of_fault _ _ running']
      exact .inl announced
    rw [andThen_of_running _ _ running']
    have same := announced.running running running'
    have merges := mergeAnnounceAck_calls env before msg data
    rw [same, Node.viewId, Node.groupSize, same] at merges
    rcases merges with merged | ⟨msgCount, newViewInfo, counted, majority, successor, entered⟩
    · exact .inl merged
    · refine .inr ⟨newViewInfo, ?_, successor, entered⟩
      rcases counts running' with nothing | itself
      · exact absurd (nothing.symm.trans counted) (by simp)
      · obtain rfl := Option.some.inj (itself.symm.trans counted)
        rw [Closes, heardBefore, if_pos (show node.Overtakes msg from overtakes)]
        exact majority
  · rw [if_neg overtakes, andThen_of_running _ _ running]
    rcases mergeAnnounceAck_calls env node msg data with
      merged | ⟨msgCount, newViewInfo, counted, majority, successor, entered⟩
    · exact .inl merged
    · refine .inr ⟨newViewInfo, ?_, successor, entered⟩
      rw [Closes, heardBefore, if_neg (show ¬ node.Overtakes msg from overtakes), counted]
      exact majority

private theorem handled_calls (env : NodeEnv) (node : Node) (msg : LeleMsg) (data : List UInt32)
    (running : node.comp.fault = none) (handles : node.Handles msg) :
    CallsOnce (env, .message (.leaderElection msg data)) node
      (node.leaderElectionDo env msg data) := by
  have stores : ∀ {node' : Node}, (HasComp node.comp node' ∨ ∃ record,
      HasComp (node.comp.acceptorUpdateRecord node.electionMod.nextView record) node') →
      CallsOnce (env, .message (.leaderElection msg data)) node node' := by
    rintro node' (alone | ⟨record, stored⟩)
    · exact .inl alone
    · exact .inr ⟨_, .acceptorUpdateRecord _ record handles.1, stored⟩
  simp only [leaderElectionDo]
  cases type : msg.type with
  | prepare => exact stores (handlePrepare_calls env node msg)
  | prepareAck => exact .inl (hasComp_leaderElectionProposerDo env node msg)
  | accept => exact stores (handleAccept_calls env node msg)
  | acceptAck => exact .inl (hasComp_leaderElectionLearnerDo env node msg)
  | announce => exact .inl (hasComp_leaderElectionHandleAnnounce env node msg)
  | announceAck =>
    rcases handleAnnounceAck_calls env node msg data running with
      alone | ⟨newViewInfo, closes, successor, entered⟩
    · exact .inl alone
    · exact .inr ⟨_, .updateView _ newViewInfo ⟨handles, .inr ⟨type, closes⟩⟩ successor, entered⟩
  | fin =>
    simp only [leaderElectionHandleClose]
    split
    next =>
      rcases updateView_calls env node ⟨msg.nextView, msg.content, msg.lastReq⟩ with
        alone | ⟨successor, entered⟩
      · exact .inl alone
      · exact .inr ⟨_, .updateView _ _ ⟨handles, .inl type⟩ successor, entered⟩
    next => exact .inl ⟨_, rfl⟩
  | higherNode => exact .inl (hasComp_leaderElectionProposerDo env node msg)
  | lagged => exact .inl ⟨_, rfl⟩

/-- A message for another election than the one the node is in reaches no component. -/
private theorem ignored_calls (env : NodeEnv) (msg : LeleMsg) (data : List UInt32)
    (ignores : ¬ node.Handles msg) :
    HasComp node.comp (node.dispatch (env, .message (.leaderElection msg data))) := by
  simp only [dispatch, handleMsg, handleLeaderElectionMsg]
  split
  next inElection =>
    split
    next other => split <;> first | exact ⟨_, rfl⟩ | (split <;> exact ⟨_, rfl⟩)
    next current =>
      exact absurd ⟨electing_of_reads inElection, not_not.mp current⟩ ignores
  next => exact ⟨_, rfl⟩

/-- Every call of a running node leads to one call of its component or to none. -/
theorem dispatch_calls (node : Node) (e : NodeEnv × NodeEvent) (running : node.comp.fault = none) :
    CallsOnce e node (node.dispatch e) := by
  obtain ⟨env, event⟩ := e
  cases event with
  | message msg =>
    cases msg with
    | pingAck sender view timestamp =>
      simp only [dispatch, handleMsg, handlePingAck_ignored, ite_self]
      exact .inl ⟨_, rfl⟩
    | pingReq sender view timestamp =>
      simp only [dispatch, handleMsg]
      split
      next listens =>
        simp only [handlePingReq]
        split_ifs with behind
        · rcases updateView_calls env node view with alone | ⟨successor, entered⟩
          · exact .inl alone
          · exact .inr ⟨_, .updateView _ view ⟨listens, behind.symm⟩ successor, entered⟩
        all_goals exact .inl ⟨_, rfl⟩
      next => exact .inl ⟨_, rfl⟩
    | consensus msg =>
      simp only [dispatch, handleMsg]
      split
      next active => exact .inr ⟨_, .message msg active, _, rfl⟩
      next => exact .inl ⟨_, rfl⟩
    | requestSubmit data =>
      simp only [dispatch, handleMsg]
      split
      next active => exact .inr ⟨_, .submit data active, _, rfl⟩
      next => exact .inl ⟨_, rfl⟩
    | leaderElection msg data =>
      by_cases handles : node.Handles msg
      · rw [dispatch_handled env msg data handles]
        exact handled_calls env node msg data running handles
      · exact .inl (ignored_calls env msg data handles)
  | leaderPing =>
    simp only [dispatch, leaderPingPeriod, initializeExpectPing]
    split_ifs <;> exact .inl ⟨_, rfl⟩
  | expectPing =>
    simp only [dispatch, expectedLeaderPingPeriod, initializeExpectPing, initializeLeaderPing,
      initializeLeaderElection]
    split_ifs <;> exact .inl ⟨_, rfl⟩
  | makeProgress =>
    simp only [dispatch, makeProgressOn, initializeLeaderMakeProgress]
    split
    next leads =>
      refine .inr ⟨_, .makeProgress leads, ?_⟩
      refine HasComp.andThen ⟨_, rfl⟩ ?_
      split <;> exact ⟨_, rfl⟩
    next => split_ifs <;> exact .inl ⟨_, rfl⟩
  | electionTimeout =>
    simp only [dispatch, leaderElectionOnTimeout]
    split
    next =>
      split
      next => split <;> exact .inl ⟨_, rfl⟩
      next => exact .inl ⟨_, rfl⟩
    next inElection =>
      -- the timer is cleared first; that changes nothing the consensus reads
      generalize fired : node.withMod { node.electionMod with slientPeriod := .idle } = node'
      have same : node'.comp = node.comp ∧
          node'.electionMod.nextView = node.electionMod.nextView := by
        subst fired
        exact ⟨rfl, rfl⟩
      have proposes := leaderElectionPropose_calls env node'
      rw [same.1, same.2] at proposes
      have electing : node.state ≠ .active := by
        have state : node.state = .inLele := by
          rw [fired] at inElection
          rw [← inElection, ← fired]
          rfl
        rw [state]
        exact NodeState.noConfusion
      rcases proposes with alone | ⟨record, stored⟩
      · exact .inl (alone.andThen ⟨_, rfl⟩)
      · exact .inr ⟨_, .acceptorUpdateRecord _ record electing, stored.andThen ⟨_, rfl⟩⟩
    next => exact .inl ⟨_, rfl⟩

end Handlers

end Node

end LibeventPaxos
