import LibeventPaxos.NodeFrame

/-!
The fence around a view: a node that has entered the post stage of an election takes no further
part in the view it is leaving.
-/
namespace LibeventPaxos

open Lib

namespace Comp

/-! ## Acknowledgements -/

/-- Between the two states acknowledgements are sent for the current view and later ones only. -/
def AcksCurrent (c c' : Comp) : Prop :=
  ∃ fresh, c'.upCalls = c.upCalls ++ fresh ∧ ∀ call ∈ fresh, ∀ vs nodeId,
    call.2 = .acceptAck vs nodeId → c.curView.viewId.toNat ≤ vs.viewId.toNat

theorem AcksCurrent.of_silent {c c' : Comp} (calls : c'.upCalls = c.upCalls) : AcksCurrent c c' :=
  ⟨[], by rw [calls, List.append_nil], by simp⟩

theorem AcksCurrent.of_send {c c' : Comp} (target : Int) (msg : ConsensusMsg)
    (calls : c'.upCalls = c.upCalls ++ [(target, msg)])
    (current : ∀ vs nodeId, msg = .acceptAck vs nodeId →
      c.curView.viewId.toNat ≤ vs.viewId.toNat) : AcksCurrent c c' := by
  refine ⟨_, calls, ?_⟩
  intro call member
  obtain rfl := List.mem_singleton.mp member
  exact current

/-- Execution sends requests for missing records only. -/
theorem AcksCurrent.execute {c before c' : Comp} (acks : AcksCurrent c before)
    (same : SameRecords before c') : AcksCurrent c c' := by
  obtain ⟨sent, calls, current⟩ := acks
  obtain ⟨missing, only, calls'⟩ := same.sends
  refine ⟨sent ++ missing, by rw [calls', calls, List.append_assoc], ?_⟩
  intro call member vs nodeId ack
  rcases List.mem_append.mp member with old | new
  · exact current call old vs nodeId ack
  · obtain ⟨missingVs, rfl⟩ := only call new
    cases ack

private theorem leaderHandleSubmitReq_acks (env : Env) (c : Comp) (data : List UInt8) :
    AcksCurrent c (leaderHandleSubmitReq env c data).1 := by
  rcases leaderHandleSubmitReq_cases env c data with ⟨-, failed⟩ | ⟨-, submitted, rfl, result⟩
  · rw [failed]
    exact .of_silent rfl
  · rcases result with ⟨-, sent⟩ | ⟨-, executed⟩
    · rw [sent]
      refine .of_send _ _ rfl ?_
      rintro vs nodeId ⟨⟩
    · rw [executed]
      refine AcksCurrent.execute ?_ (sameRecords_tryToExecute env _)
      exact .of_silent rfl

theorem consensusHandleMsg_acks (env : Env) (c : Comp) (msg : ConsensusMsg) :
    AcksCurrent c (consensusHandleMsg env c msg) := by
  cases msg with
  | acceptReq msgVs reqCanbeExed nodeId record =>
    obtain ⟨seen, toCommit, noted, -⟩ := noteAcceptReq_cases c msgVs reqCanbeExed
    refine AcksCurrent.execute ?_ (sameRecords_tryToExecute env _)
    rcases storeAcceptReq_cases env c msgVs reqCanbeExed nodeId record with
      ⟨ignored, -⟩ | ⟨current, -, -, ⟨-, failed⟩ | ⟨-, stored⟩⟩
    · rw [ignored]
      exact .of_silent rfl
    · rw [failed, noted]
      exact .of_silent rfl
    -- the only acknowledgement there is: the request was not of an earlier view
    · rw [stored, noted]
      refine .of_send _ _ rfl ?_
      rintro vs ackId ⟨⟩
      exact current
  | acceptAck msgVs nodeId =>
    refine AcksCurrent.execute ?_ (sameRecords_tryToExecute env _)
    rcases storeAcceptAck_cases env c msgVs nodeId with ignored | ⟨-, -, -, value, -, stored⟩
    · rw [ignored]
      exact .of_silent rfl
    · rw [stored]
      exact .of_silent rfl
  | missingReq nodeId missingVs =>
    simp only [consensusHandleMsg]
    rcases handleMissingReq_cases env c nodeId missingVs with silent | ⟨value, -, answers⟩
    · rw [silent]
      exact .of_silent rfl
    · rw [answers]
      refine .of_send nodeId _ rfl ?_
      rintro vs ackId ⟨⟩
  | missingAck nodeId missingVs record =>
    simp only [consensusHandleMsg]
    rcases handleMissingAck_cases env c missingVs record with
      ⟨ignored, -⟩ | ⟨-, -, ⟨-, failed⟩ | ⟨-, stored⟩⟩
    · rw [ignored]
      exact .of_silent rfl
    · rw [failed]
      refine AcksCurrent.execute ?_ (sameRecords_tryToExecute env c)
      exact .of_silent rfl
    · rw [stored]
      refine AcksCurrent.execute ?_ (sameRecords_tryToExecute env _)
      exact .of_silent rfl
  | forceExec nodeId highestCommittedOp =>
    simp only [consensusHandleMsg]
    rcases handleForceExec_cases env c nodeId highestCommittedOp with ⟨ignored, -⟩ | ⟨-, -, moved⟩
    · rw [ignored]
      exact .of_silent rfl
    · rw [moved]
      refine AcksCurrent.execute ?_ (sameRecords_tryToExecute env _)
      exact .of_silent rfl
  | forwardReq nodeId data =>
    simp only [consensusHandleMsg, handleForwardReq]
    split
    next secondary => exact .of_silent rfl
    next leader => exact leaderHandleSubmitReq_acks env c data

theorem consensusSubmitRequest_acks (env : Env) (c : Comp) (data : List UInt8) :
    AcksCurrent c (consensusSubmitRequest env c data) := by
  rw [consensusSubmitRequest]
  split
  next leader => exact leaderHandleSubmitReq_acks env c data
  next secondary =>
    refine .of_send c.curView.leaderId (c.buildForwardReq data) rfl ?_
    rintro vs ackId ⟨⟩

theorem consensusMakeProgress_acks (env : Env) (c : Comp) :
    AcksCurrent c (consensusMakeProgress env c) := by
  simp only [consensusMakeProgress]
  split
  next secondary => exact .of_silent rfl
  next leader =>
    have silent : AcksCurrent c c := .of_silent rfl
    have scanned := silent.execute (sameRecords_leaderTryToExecute env c)
    generalize leaderTryToExecute env c = c' at scanned
    obtain ⟨sent, calls, current⟩ := scanned
    split
    next faulty => exact ⟨sent, calls, current⟩
    next running =>
      obtain ⟨resent, fault, again, result, -⟩ := retransmit_spec env c'
      rw [result]
      have requests : ∀ call ∈ sent ++ resent, ∀ vs nodeId, call.2 = .acceptAck vs nodeId →
          c.curView.viewId.toNat ≤ vs.viewId.toNat := by
        intro call member vs nodeId ack
        rcases List.mem_append.mp member with old | new
        · exact current call old vs nodeId ack
        · obtain ⟨requestVs, value, -, -, -, rfl⟩ := again call new
          cases ack
      have resentCalls : c'.upCalls ++ resent = c.upCalls ++ (sent ++ resent) := by
        rw [calls, List.append_assoc]
      split
      next faulty => exact ⟨sent ++ resent, resentCalls, requests⟩
      next running =>
        refine ⟨sent ++ resent ++ [(-1, .forceExec c'.nodeId c'.highestCommittedVs)], ?_, ?_⟩
        · rw [← List.append_assoc c.upCalls, ← resentCalls]
          rfl
        · intro call member vs nodeId ack
          rcases List.mem_append.mp member with old | new
          · exact requests call old vs nodeId ack
          · obtain rfl := List.mem_singleton.mp new
            cases ack

/-- A request of a view before the current one is not stored. -/
theorem handleAcceptReq_old (env : Env) (c : Comp) (msgVs reqCanbeExed : ViewStamp)
    (nodeId : NodeId) (record : RequestRecord)
    (old : msgVs.viewId.toNat < c.curView.viewId.toNat) :
    (handleAcceptReq env c msgVs reqCanbeExed nodeId record).db = c.db := by
  rw [handleAcceptReq, (sameRecords_tryToExecute env _).db]
  rcases storeAcceptReq_cases env c msgVs reqCanbeExed nodeId record with
    ⟨ignored, -⟩ | ⟨current, -⟩
  · rw [ignored]
  · omega

end Comp

namespace Node

/-! ## Timers and states -/

/-- Which timers may be pending in which state: a leader pings and is never in an election, any
other node waits for pings only while it is active. -/
structure Timed (node : Node) : Prop where
  leaderPing : node.evLeaderPing = .pending → node.isLeader = true
  kept : node.evLeaderPing ≠ .freed
  expectPing : node.evExpectPing = .pending → node.isLeader = false ∧ node.state = .active
  leads : node.isLeader = true → node.state = .active
  election : node.state ≠ .active → node.electionMod.nextView = node.viewId + 1

theorem init_timed (seed : Bool) (nodeId groupSize : ℕ) (expectPingTimeval now : TimeVal)
    (env : NodeEnv) : (init seed nodeId groupSize expectPingTimeval now env).Timed := by
  cases leads : (Comp.init seed nodeId groupSize).isLeader with
  | true =>
    exact {
      leaderPing := fun _ => leads
      kept := by simp [init, leads]
      expectPing := by simp [init, leads]
      leads := fun _ => rfl
      election := fun electing => absurd rfl electing }
  | false =>
    exact {
      leaderPing := by simp [init, leads]
      kept := by simp [init, leads]
      expectPing := fun _ => ⟨leads, rfl⟩
      leads := fun _ => rfl
      election := fun electing => absurd rfl electing }

theorem Timed.elects {node node' : Node} (timed : Timed node) (elects : Elects node node')
    (electing : node.state ≠ .active) : Timed node' where
  leaderPing := by
    rw [elects.leaderPing, elects.isLeader]
    exact timed.leaderPing
  kept := by
    rw [elects.leaderPing]
    exact timed.kept
  expectPing := by
    rw [elects.expectPing]
    exact fun pending => absurd (timed.expectPing pending).2 electing
  leads := by
    rw [elects.isLeader]
    exact fun leads => absurd (timed.leads leads) electing
  election _ := by
    rw [elects.nextView, Node.viewId, elects.curView]
    exact timed.election electing

theorem Timed.fail {node : Node} (timed : Timed node) (fault : Fault) : Timed (node.fail fault) :=
  { timed with }

private theorem del_ne_pending (timer : Timer) : timer.del ≠ .pending := by
  cases timer <;> simp [Timer.del]

private theorem del_ne_freed (timer : Timer) (kept : timer ≠ .freed) : timer.del ≠ .freed := by
  cases timer with
  | freed => exact absurd rfl kept
  | _ => simp [Timer.del]

theorem Timed.entered {env : NodeEnv} {node node' : Node} {newViewInfo : View}
    (timed : Timed node) (entered : Entered env node newViewInfo node') : Timed node' := by
  have active := entered.state
  have leaderPing := entered.leaderPing
  have expectPing := entered.expectPing
  cases leads : node'.isLeader with
  | true =>
    rw [leads, if_pos rfl] at leaderPing expectPing
    exact {
      leaderPing := fun _ => leads
      kept := by simp [leaderPing]
      expectPing := fun pending => absurd (expectPing.symm.trans pending) (del_ne_pending _)
      leads := fun _ => active
      election := fun electing => absurd active electing }
  | false =>
    rw [leads, if_neg Bool.false_ne_true] at leaderPing expectPing
    exact {
      leaderPing := fun pending => absurd (leaderPing.symm.trans pending) (del_ne_pending _)
      kept := by
        rw [leaderPing]
        exact del_ne_freed _ timed.kept
      expectPing := fun _ => ⟨leads, active⟩
      leads := fun leads' => absurd (leads.symm.trans leads') Bool.false_ne_true
      election := fun electing => absurd active electing }

/-- A component that handles a message keeps its view, and with it the role of its node. -/
theorem Timed.handle {node : Node} (timed : Timed node) (env : Env) (event : CompEvent)
    (running : node.comp.fault = none) (inView : ∀ view, event ≠ .updateView view) :
    Timed { node with comp := node.comp.handle (env, event) } ∧
      (node.comp.handle (env, event)).curView = node.comp.curView := by
  obtain ⟨step, same⟩ := Comp.handle_step node.comp (env, event) running
  have view : (node.comp.handle (env, event)).curView = node.comp.curView := by
    cases step with
    | stays nothing assigned view => exact view
    | takes data some_data leader assigned view => exact view
    | enters newViewInfo isUpdate => exact absurd isUpdate (inView newViewInfo)
  refine ⟨?_, view⟩
  have isLeader : (node.comp.handle (env, event)).isLeader = node.comp.isLeader := by
    simp only [Comp.isLeader, view, same.nodeId]
  exact {
    leaderPing := fun pending => isLeader.trans (timed.leaderPing pending)
    kept := timed.kept
    expectPing := fun pending =>
      ⟨isLeader.trans (timed.expectPing pending).1, (timed.expectPing pending).2⟩
    leads := fun leads => timed.leads (isLeader.symm.trans leads)
    election := fun electing => by
      show node.electionMod.nextView = (node.comp.handle (env, event)).curView.viewId + 1
      rw [view]
      exact timed.election electing }

/-! ## One step -/

/-- The events on which a node may enter the next view. -/
def MayEnter (node : Node) : NodeEvent → Prop
  | .message (.pingReq _ view _) => view.viewId = node.viewId + 1
  | .message (.leaderElection msg _) =>
    msg.nextView = node.viewId + 1 ∧ (msg.type = .fin ∨ msg.type = .announceAck)
  | _ => False

/-- What a step does to the view and to the acknowledgements a node has sent; `entering` says
whether it may enter the next view. -/
structure Stepped (entering : Prop) (node node' : Node) : Prop where
  timed : Timed node'
  moves : (node'.comp.curView = node.comp.curView ∧
      (node.state = .postLele → node'.state = .postLele)) ∨
    (entering ∧ node'.state = .active ∧ node'.viewId = node.viewId + 1)
  acks : node.comp.AcksCurrent node'.comp
  silent : node.state ≠ .active → node'.comp.upCalls = node.comp.upCalls

theorem Stepped.refl {entering : Prop} {node : Node} (timed : Timed node) :
    Stepped entering node node :=
  ⟨timed, .inl ⟨rfl, id⟩, .of_silent rfl, fun _ => rfl⟩

theorem Stepped.elects {entering : Prop} {node node' : Node} (timed : Timed node)
    (elects : Elects node node') (electing : node.state ≠ .active) :
    Stepped entering node node' where
  timed := timed.elects elects electing
  moves := by
    refine .inl ⟨elects.curView, fun post => ?_⟩
    rcases elects.state with same | post'
    · exact same.trans post
    · exact post'
  acks := .of_silent elects.upCalls
  silent _ := elects.upCalls

/-- An election handler that closes the election. -/
theorem Stepped.enters {entering : Prop} {env : NodeEnv} {node before node' : Node}
    {newViewInfo : View} (enters : entering) (timed : Timed before)
    (view : before.comp.curView = node.comp.curView)
    (calls : before.comp.upCalls = node.comp.upCalls)
    (entered : Entered env before newViewInfo node') : Stepped entering node node' where
  timed := timed.entered entered
  moves := by
    refine .inr ⟨enters, entered.state, ?_⟩
    rw [Node.viewId, entered.curView, ← entered.successor, Node.viewId, view, Node.viewId]
  acks := by
    refine .of_silent ?_
    rw [entered.comp]
    exact calls
  silent _ := by
    rw [entered.comp]
    exact calls

theorem Stepped.updateView {entering : Prop} {node : Node} (timed : Timed node)
    (running : node.comp.fault = none) (env : NodeEnv) (newViewInfo : View)
    (enters : node.viewId + 1 = newViewInfo.viewId → entering) :
    Stepped entering node (node.updateView env newViewInfo) := by
  rcases updateView_cases env node newViewInfo running timed.kept with
    ⟨ignored, -⟩ | ⟨-, failed⟩ | entered
  · rw [ignored]
    exact .refl timed
  · rw [failed]
    exact ⟨timed.fail _, .inl ⟨rfl, id⟩, .of_silent rfl, fun _ => rfl⟩
  · exact .enters (enters entered.successor) timed rfl rfl entered

theorem Stepped.sendToOtherNodes {entering : Prop} {node node' : Node}
    (stepped : Stepped entering node node') (msg : SysMsg) :
    Stepped entering node (node'.sendToOtherNodes msg) :=
  { stepped with timed := { stepped.timed with } }

theorem Stepped.andThen {entering : Prop} {node before : Node} {next : Node → Node}
    (first : Stepped entering node before)
    (rest : before.comp.fault = none → Stepped entering node (next before)) :
    Stepped entering node (before.andThen next) := by
  by_cases running : before.comp.fault = none
  · rw [andThen_of_running before next running]
    exact rest running
  · rwa [andThen_of_fault before next running]

private theorem leaderElectionLeaderClose_step {entering : Prop} {node before : Node}
    (env : NodeEnv) (enters : entering) (running : before.comp.fault = none)
    (elects : Elects node before) (first : Stepped entering node before) :
    Stepped entering node (before.leaderElectionLeaderClose env) := by
  have timed := first.timed
  simp only [leaderElectionLeaderClose]
  refine Stepped.andThen ?_ fun _ => ?_
  all_goals
    rcases updateView_cases env before _ running timed.kept with ⟨ignored, -⟩ | ⟨-, failed⟩ | entered
  · rw [ignored]
    exact first
  · rw [failed]
    exact { first with timed := timed.fail _ }
  · exact .enters enters timed elects.curView elects.upCalls entered
  · rw [ignored]
    exact first.sendToOtherNodes _
  · rw [failed]
    exact Stepped.sendToOtherNodes { first with timed := timed.fail _ } _
  · exact (Stepped.enters enters timed elects.curView elects.upCalls entered).sendToOtherNodes _

private theorem handleAnnounceAck_step {entering : Prop} {node : Node} (timed : Timed node)
    (electing : node.state ≠ .active) (env : NodeEnv) (msg : LeleMsg) (data : List UInt32)
    (enters : entering) :
    Stepped entering node (node.leaderElectionHandleAnnounceAck env msg data) := by
  simp only [leaderElectionHandleAnnounceAck]
  have early : Elects node (if node.electionMod.edge.start = 0xFFFFFFFF ∧ node.nodeId = msg.content
      then node.leaderElectionHandleAnnounce env msg else node) := by
    split
    next overtakes => exact elects_leaderElectionHandleAnnounce env node msg
    next late => exact .refl node
  generalize (if node.electionMod.edge.start = 0xFFFFFFFF ∧ node.nodeId = msg.content
    then node.leaderElectionHandleAnnounce env msg else node) = before at early
  have first : Stepped entering node before := .elects timed early electing
  refine first.andThen fun running => ?_
  simp only [mergeAnnounceAck]
  split
  next nothing => exact .elects timed (early.trans (elects_fail _ _)) electing
  next msgCount _ =>
    split
    next inGroup =>
      split
      next counted => exact first
      next fresh =>
        generalize EdgeMod.mergeAck env _ msg data = merged
        obtain ⟨edge, fault⟩ := merged
        have merges : Elects node (before.withMod { before.electionMod with edge := edge }) :=
          early.trans (elects_withMod _ _ rfl)
        have second : Stepped entering node _ := Stepped.elects timed merges electing
        cases fault with
        | some fault => exact .elects timed (merges.trans (elects_fail _ fault)) electing
        | none =>
          simp only
          split
          next majority =>
            exact leaderElectionLeaderClose_step env enters running merges second
          next minority => exact second
    next outside => exact .elects timed (early.trans (elects_fail _ _)) electing

private theorem leaderElectionDo_step {node : Node} (timed : Timed node)
    (running : node.comp.fault = none) (electing : node.state ≠ .active) (env : NodeEnv)
    (msg : LeleMsg) (data : List UInt32) :
    Stepped (msg.type = .fin ∨ msg.type = .announceAck) node
      (node.leaderElectionDo env msg data) := by
  simp only [leaderElectionDo]
  cases type : msg.type with
  | prepare => exact .elects timed (elects_handlePrepare env node msg) electing
  | prepareAck => exact .elects timed (elects_leaderElectionProposerDo env node msg) electing
  | accept => exact .elects timed (elects_handleAccept env node msg) electing
  | acceptAck => exact .elects timed (elects_leaderElectionLearnerDo env node msg) electing
  | announce => exact .elects timed (elects_leaderElectionHandleAnnounce env node msg) electing
  | announceAck => exact handleAnnounceAck_step timed electing env msg data (.inr rfl)
  | fin =>
    simp only [leaderElectionHandleClose]
    split
    next current => exact .updateView timed running env _ fun _ => .inl trivial
    next other => exact .refl timed
  | higherNode => exact .elects timed (elects_leaderElectionProposerDo env node msg) electing
  | lagged => exact .refl timed

private theorem handlePingReq_step {node : Node} (timed : Timed node)
    (running : node.comp.fault = none) (waiting : node.state ≠ .postLele) (env : NodeEnv)
    (nodeId : NodeId) (view : View) (timestamp : TimeVal) :
    Stepped (view.viewId = node.viewId + 1) node
      (node.handlePingReq env nodeId view timestamp) := by
  simp only [handlePingReq]
  split
  next successor => exact .updateView timed running env view Eq.symm
  next =>
    split
    next lagged => exact { Stepped.refl timed with timed := { timed with } }
    next =>
      split
      next same =>
        rw [reconnected waiting]
        have back : Timed { node with state := .active } :=
          { timed with
            expectPing := fun pending => ⟨(timed.expectPing pending).1, rfl⟩
            leads := fun _ => rfl
            election := fun electing => absurd rfl electing }
        split
        next leads => exact ⟨back, .inl ⟨rfl, (absurd · waiting)⟩, .of_silent rfl, fun _ => rfl⟩
        next follows =>
          refine ⟨?_, .inl ⟨by split <;> rfl, (absurd · waiting)⟩,
            .of_silent (by split <;> rfl), fun _ => by split <;> rfl⟩
          split
          next allocated =>
            exact { back with expectPing := fun _ => ⟨Bool.not_eq_true _ ▸ follows, rfl⟩ }
          next => exact { back with }
      next other => exact .refl timed

private theorem handleMsg_step {node : Node} (timed : Timed node)
    (running : node.comp.fault = none) (env : NodeEnv) (msg : SysMsg) :
    Stepped (node.MayEnter (.message msg)) node (node.handleMsg env msg) := by
  cases msg with
  | pingAck nodeId view timestamp =>
    simp only [handleMsg, handlePingAck_ignored, ite_self]
    exact .refl timed
  | pingReq nodeId view timestamp =>
    simp only [handleMsg]
    split
    next waiting => exact handlePingReq_step timed running waiting env nodeId view timestamp
    next => exact .refl timed
  | consensus msg =>
    simp only [handleMsg]
    split
    next active =>
      obtain ⟨timed', view⟩ := timed.handle env.toEnv (.message msg) running (by simp)
      refine ⟨timed', .inl ⟨view, fun post => ?_⟩,
        Comp.consensusHandleMsg_acks env.toEnv node.comp msg, fun other => absurd active other⟩
      exact absurd (active.symm.trans post) NodeState.noConfusion
    next => exact .refl timed
  | requestSubmit data =>
    simp only [handleMsg]
    split
    next active =>
      obtain ⟨timed', view⟩ := timed.handle env.toEnv (.submit data) running (by simp)
      refine ⟨timed', .inl ⟨view, fun post => ?_⟩,
        Comp.consensusSubmitRequest_acks env.toEnv node.comp data, fun other => absurd active other⟩
      exact absurd (active.symm.trans post) NodeState.noConfusion
    next => exact .refl timed
  | leaderElection msg data =>
    simp only [handleMsg]
    split
    next electing =>
      have notActive := electing_of_reads electing
      simp only [handleLeaderElectionMsg]
      split
      next other =>
        split
        next lagged =>
          split
          next close _ => exact .elects timed (elects_sendToOneNode node _ _) notActive
          next => exact .refl timed
        next => exact .refl timed
      next current =>
        have step := leaderElectionDo_step timed running notActive env msg data
        exact { step with
          moves := step.moves.imp_right fun enters => ⟨⟨not_not.mp current, enters.1⟩, enters.2⟩ }
    next => exact .refl timed

private theorem makeProgressOn_step {node : Node} (timed : Timed node)
    (running : node.comp.fault = none) (env : NodeEnv) :
    Stepped False node (node.makeProgressOn env) := by
  simp only [makeProgressOn]
  split
  next leads =>
    have active := timed.leads leads
    obtain ⟨timed', view⟩ := timed.handle env.toEnv .makeProgress running (by simp)
    have stepped : Stepped False node
        { node with comp := Comp.consensusMakeProgress env.toEnv node.comp } :=
      ⟨timed', .inl ⟨view, id⟩, Comp.consensusMakeProgress_acks env.toEnv node.comp,
        fun other => absurd active other⟩
    refine stepped.andThen fun _ => ?_
    split
    next allocated => exact { stepped with timed := { timed' with } }
    next => exact stepped
  next follows =>
    split
    next allocated =>
      -- the event is freed and then added again
      exact { Stepped.refl timed with timed := { timed with } }
    next => exact .refl timed

private theorem expectedLeaderPingPeriod_step {node : Node} (timed : Timed node)
    (follows : node.isLeader = false) (active : node.state = .active) (env : NodeEnv) :
    Stepped False node
      ({ node with evExpectPing := .idle }.expectedLeaderPingPeriod env) := by
  have notPost : node.state = .postLele → False := fun post =>
    absurd (active.symm.trans post) NodeState.noConfusion
  have notLeader : Node.isLeader { node with evExpectPing := .idle } ≠ true := by
    show node.isLeader ≠ true
    simp [follows]
  simp only [expectedLeaderPingPeriod, if_neg notLeader]
  split
  next heard =>
    simp only [initializeExpectPing, if_neg timed.kept]
    refine { Stepped.refl timed with timed := ?_ }
    exact {
      leaderPing := fun pending => absurd pending (del_ne_pending _)
      kept := del_ne_freed _ timed.kept
      expectPing := fun _ => ⟨follows, active⟩
      leads := timed.leads
      election := timed.election }
  next silent =>
    -- a leader never gets here, so its ping timer is not pending
    refine ⟨?_, .inl ⟨rfl, fun post => (notPost post).elim⟩, .of_silent rfl, fun _ => rfl⟩
    exact {
      leaderPing := timed.leaderPing
      kept := timed.kept
      expectPing := fun pending => by cases pending
      leads := fun leads => absurd (follows.symm.trans leads) Bool.false_ne_true
      election := fun _ => rfl }

/-- Every step of a running node. -/
theorem dispatch_step {node : Node} (timed : Timed node) (e : NodeEnv × NodeEvent)
    (enabled : machine.enabled node e) :
    Stepped (node.MayEnter e.2) node (node.dispatch e) := by
  obtain ⟨running, due⟩ := enabled
  obtain ⟨env, event⟩ := e
  cases event with
  | message msg => exact handleMsg_step timed running env msg
  | leaderPing =>
    have leads : Node.isLeader { node with evLeaderPing := .idle } = true := timed.leaderPing due
    simp only [dispatch, leaderPingPeriod, if_pos leads]
    refine { Stepped.refl timed with timed := ?_ }
    exact {
      leaderPing := fun _ => timed.leaderPing due
      kept := by simp [sendToOtherNodes]
      expectPing := timed.expectPing
      leads := timed.leads
      election := timed.election }
  | expectPing =>
    obtain ⟨follows, active⟩ := timed.expectPing due
    exact expectedLeaderPingPeriod_step timed follows active env
  | makeProgress =>
    have fired : Timed { node with evMakeProgress := .idle } := { timed with }
    have step := makeProgressOn_step fired running env
    exact { timed := step.timed, moves := step.moves, acks := step.acks, silent := step.silent }
  | electionTimeout =>
    by_cases active : node.state = .active
    · -- the timer of an election that was given up
      have ignored : node.dispatch (env, .electionTimeout) =
          node.withMod { node.electionMod with slientPeriod := .idle } := by
        simp only [dispatch, leaderElectionOnTimeout, withMod, active]
      rw [ignored]
      refine ⟨?_, .inl ⟨rfl, id⟩, .of_silent rfl, fun _ => rfl⟩
      exact { timed with election := fun electing => absurd active electing }
    · have fired : Elects node
          (node.withMod { node.electionMod with slientPeriod := .idle }) :=
        elects_withMod node _ rfl
      exact .elects timed (fired.trans (elects_leaderElectionOnTimeout env _)) active

/-! ## Runs -/

theorem timed_of_reaches {guard : Node → NodeEnv × NodeEvent → Prop} (node : Node)
    (reached : machine.Reaches guard node) : Timed node := by
  apply reached.invariant
  · rintro _ ⟨seed, nodeId, groupSize, expectPingTimeval, now, env, -, rfl⟩
    exact init_timed seed nodeId groupSize expectPingTimeval now env
  · intro node e timed _ enabled
    exact (dispatch_step timed e enabled).timed

instance (node : Node) : ∀ event, Decidable (node.MayEnter event)
  | .message (.pingReq _ view _) => inferInstanceAs (Decidable (view.viewId = node.viewId + 1))
  | .message (.leaderElection msg _) => inferInstanceAs (Decidable
      (msg.nextView = node.viewId + 1 ∧ (msg.type = .fin ∨ msg.type = .announceAck)))
  | .message (.pingAck _ _ _) => .isFalse id
  | .message (.consensus _) => .isFalse id
  | .message (.requestSubmit _) => .isFalse id
  | .leaderPing => .isFalse id
  | .expectPing => .isFalse id
  | .makeProgress => .isFalse id
  | .electionTimeout => .isFalse id

/-- The view number does not wrap: a node in the last view gets no message that installs view 0. -/
def noViewWrap (node : Node) (e : NodeEnv × NodeEvent) : Prop :=
  node.viewId = 4294967295 → ¬ node.MayEnter e.2

instance (node : Node) (e : NodeEnv × NodeEvent) : Decidable (noViewWrap node e) :=
  inferInstanceAs (Decidable (node.viewId = 4294967295 → ¬ node.MayEnter e.2))

/-- The fence around the view `s` is in: a node that has come from `s` to `t` is still in the post
stage of that view or has gone beyond it, has acknowledged nothing of it on the way, and will
store no request of it and leave it in no way but to the next view. -/
structure Fenced (guard : Node → NodeEnv × NodeEvent → Prop) (s t : Node) : Prop where
  beyond : (t.state = .postLele ∧ t.comp.curView = s.comp.curView) ∨
    s.viewId.toNat < t.viewId.toNat
  unacked : ∃ fresh, t.comp.upCalls = s.comp.upCalls ++ fresh ∧ ∀ call ∈ fresh, ∀ vs nodeId,
    call.2 = .acceptAck vs nodeId → vs.viewId ≠ s.viewId
  unstored : ∀ env msgVs reqCanbeExed nodeId record, msgVs.viewId = s.viewId →
    let e := (env, .message (.consensus (.acceptReq msgVs reqCanbeExed nodeId record)))
    guard t e → machine.enabled t e → (t.dispatch e).comp.db = t.comp.db
  leaves : ∀ e, guard t e → machine.enabled t e → t.viewId = s.viewId →
    ((t.dispatch e).state = .postLele ∧ (t.dispatch e).comp.curView = t.comp.curView) ∨
    ((t.dispatch e).state = .active ∧ (t.dispatch e).viewId = s.viewId + 1)

/-- The part of the fence that a step preserves. -/
def Behind (s t : Node) : Prop :=
  ((t.state = .postLele ∧ t.comp.curView = s.comp.curView) ∨ s.viewId.toNat < t.viewId.toNat) ∧
  ∃ fresh, t.comp.upCalls = s.comp.upCalls ++ fresh ∧ ∀ call ∈ fresh, ∀ vs nodeId,
    call.2 = .acceptAck vs nodeId → vs.viewId ≠ s.viewId

theorem Behind.step {s t : Node} (behind : Behind s t) (timed : Timed t)
    (e : NodeEnv × NodeEvent) (allowed : noViewWrap t e) (enabled : machine.enabled t e) :
    Behind s (t.dispatch e) := by
  have step := dispatch_step timed e enabled
  obtain ⟨position, sent, calls, current⟩ := behind
  constructor
  · rcases step.moves with ⟨view, stays⟩ | ⟨enters, active, successor⟩
    · rcases position with ⟨post, same⟩ | later
      · exact .inl ⟨stays post, view.trans same⟩
      · refine .inr ?_
        show s.viewId.toNat < (t.dispatch e).comp.curView.viewId.toNat
        rw [view]
        exact later
    · -- the next view is a later one, since the number does not wrap
      have notLast : t.viewId.toNat ≠ 4294967295 := fun last =>
        allowed (UInt32.toNat_inj.mp last) enters
      have view_lt := t.viewId.toNat_lt
      have next : (t.dispatch e).viewId.toNat = t.viewId.toNat + 1 := by
        rw [successor, UInt32.toNat_add, UInt32.toNat_one]
        omega
      refine .inr ?_
      rcases position with ⟨-, same⟩ | later
      · have views : t.viewId = s.viewId := congrArg View.viewId same
        rw [← views]
        omega
      · omega
  · rcases position with ⟨post, -⟩ | later
    · have silent := step.silent (by rw [post]; exact NodeState.noConfusion)
      exact ⟨sent, silent.trans calls, current⟩
    · obtain ⟨fresh, calls', current'⟩ := step.acks
      refine ⟨sent ++ fresh, by rw [calls', calls, List.append_assoc], ?_⟩
      intro call member vs nodeId ack
      rcases List.mem_append.mp member with old | new
      · exact current call old vs nodeId ack
      · have bound := current' call new vs nodeId ack
        intro same
        rw [same] at bound
        exact absurd later (Nat.not_lt.mpr bound)

/-- In every run in which the view number does not wrap, a node that has entered the post stage of
a view takes no further part in that view. -/
theorem post_stage_fenced (s t : Node) (reached : machine.Reaches noViewWrap s)
    (post : s.state = .postLele) (run : machine.Run noViewWrap s t) : Fenced noViewWrap s t := by
  have both : machine.Reaches noViewWrap t ∧ Behind s t := by
    apply run.invariant (I := fun t => machine.Reaches noViewWrap t ∧ Behind s t)
    · intro t e known allowed enabled
      exact ⟨known.1.step allowed enabled,
        known.2.step (timed_of_reaches t known.1) e allowed enabled⟩
    · exact ⟨reached, .inl ⟨post, rfl⟩, [], (List.append_nil _).symm, by simp⟩
  obtain ⟨reached', position, unacked⟩ := both
  have timed := timed_of_reaches t reached'
  refine ⟨position, unacked, ?_, ?_⟩
  · intro env msgVs reqCanbeExed nodeId record view e allowed enabled
    show (handleMsg env t (.consensus _)).comp.db = _
    simp only [handleMsg]
    split
    next active =>
      rcases position with ⟨post', -⟩ | later
      · exact absurd (active.symm.trans post') NodeState.noConfusion
      · refine Comp.handleAcceptReq_old env.toEnv t.comp msgVs reqCanbeExed nodeId record ?_
        rw [view]
        exact later
    next => rfl
  · intro e allowed enabled view
    have post' : t.state = .postLele := by
      rcases position with ⟨post', -⟩ | later
      · exact post'
      · rw [view] at later
        exact absurd later (Nat.lt_irrefl _)
    rcases (dispatch_step timed e enabled).moves with ⟨same, stays⟩ | ⟨-, active, successor⟩
    · exact .inl ⟨stays post', same⟩
    · exact .inr ⟨active, by rw [successor, view]⟩

/-! ## Runs on fixed events -/

/-- Memory that holds zeros and a clock long after the last ping. -/
def lateEnv : NodeEnv :=
  { Comp.quietEnv with
    now := ⟨9, 0⟩
    heapLele := ⟨.prepare, 0, 0, 0, 0, 0, 0, 0⟩
    heapIds := fun _ => 0
    heapLearner := fun _ => ⟨0, 0⟩
    heapProposer := fun _ => ⟨0, 0, 0⟩ }

/-- A message of the election for view 1, in which node 1 is elected. -/
def firstElection (type : LeleType) : NodeEnv × NodeEvent :=
  (lateEnv, .message (.leaderElection ⟨type, 1, 1, 0, 0, 1, 0, 0⟩ []))

/-- Node 0 of three starts outside the group, hears no leader and is told of the elected one. -/
def announced : List (NodeEnv × NodeEvent) := [(lateEnv, .expectPing), firstElection .announce]

def waiting : Node :=
  announced.foldl dispatch (init false 0 3 ⟨8, 0⟩ ⟨0, 0⟩ lateEnv)

theorem waiting_reached (guard : Node → NodeEnv × NodeEvent → Prop)
    (accepted : machine.Accepts guard (init false 0 3 ⟨8, 0⟩ ⟨0, 0⟩ lateEnv) announced) :
    machine.Reaches guard waiting :=
  ⟨_, ⟨false, 0, 3, _, _, _, by decide, rfl⟩, accepted.run⟩

/-- The node enters view 1 and acknowledges the first request of it. -/
theorem joined_node_fenced :
    let run := [firstElection .fin,
      (lateEnv, .message (.consensus (.acceptReq ⟨1, 1⟩ ⟨1, 0⟩ 1 ⟨⟨0, 0⟩, 0, 2, [5]⟩)))]
    waiting.state = .postLele ∧ Fenced noViewWrap waiting (run.foldl dispatch waiting) := by
  refine ⟨by decide, post_stage_fenced waiting _ (waiting_reached noViewWrap (by decide))
    (by decide) (Machine.Accepts.run ?_)⟩
  decide

/-- A follower of node 1 after `k` more views, all of node 1. -/
structure Pinged (k : ℕ) (node : Node) : Prop where
  running : node.comp.fault = none
  kept : node.evLeaderPing ≠ .freed
  active : node.state = .active
  nodeId : node.comp.nodeId = 0
  view : node.viewId = UInt32.ofNat (1 + k)

theorem Pinged.next {k : ℕ} {node : Node} (pinged : Pinged k node) :
    Pinged (k + 1) (node.dispatch
      (lateEnv, .message (.pingReq 1 ⟨node.viewId + 1, 1, 0⟩ ⟨0, 0⟩))) := by
  simp only [dispatch, handleMsg, handlePingReq, pinged.active, ne_eq, reduceCtorEq,
    not_false_eq_true, if_true]
  rcases updateView_cases lateEnv node ⟨node.viewId + 1, 1, 0⟩ pinged.running pinged.kept with
    ⟨-, other⟩ | ⟨refused, -⟩ | entered
  · exact absurd rfl other
  · cases refused
  · generalize node.updateView lateEnv ⟨node.viewId + 1, 1, 0⟩ = node' at entered
    have follows : node'.isLeader = false := by
      simp [Node.isLeader, entered.comp, Comp.isLeader, Comp.consensusUpdateRole, pinged.nodeId]
    exact {
      running := by rw [entered.comp]; exact pinged.running
      kept := by
        rw [entered.leaderPing, follows, if_neg Bool.false_ne_true]
        exact del_ne_freed _ pinged.kept
      active := entered.state
      nodeId := by rw [entered.comp]; exact pinged.nodeId
      view := by
        rw [Node.viewId, entered.curView, pinged.view]
        apply UInt32.toNat_inj.mp
        simp only [UInt32.toNat_add, UInt32.toNat_ofNat', UInt32.toNat_one]
        omega }

theorem pinged_run (k : ℕ) :
    ∃ node, machine.Run Machine.anything waiting node ∧ Pinged k node := by
  induction k with
  | zero =>
    have due : machine.enabled waiting (firstElection .fin) := by decide
    refine ⟨waiting.dispatch (firstElection .fin), .step .refl trivial due, ?_⟩
    exact {
      running := by decide
      kept := by decide
      active := by decide
      nodeId := by decide
      view := by decide }
  | succ k ih =>
    obtain ⟨node, run, pinged⟩ := ih
    have due : machine.enabled node
        (lateEnv, .message (.pingReq 1 ⟨node.viewId + 1, 1, 0⟩ ⟨0, 0⟩)) :=
      ⟨pinged.running, trivial⟩
    exact ⟨_, run.step trivial due, pinged.next⟩

/-- After `2 ^ 32` views the number is 0 again, and the node is active in the view it had left. -/
theorem left_view_entered_again :
    ¬ ∀ s t : Node, machine.Reaches Machine.anything s → s.state = .postLele →
      machine.Run Machine.anything s t → Fenced Machine.anything s t := by
  intro claim
  obtain ⟨node, run, pinged⟩ := pinged_run 4294967295
  have reached : machine.Reaches Machine.anything waiting := by
    have first := waiting_reached noViewWrap (by decide)
    exact first.mono fun _ _ _ => trivial
  have fenced := claim waiting node reached (by decide) run
  rcases fenced.beyond with ⟨post, -⟩ | later
  · exact absurd (pinged.active.symm.trans post) NodeState.noConfusion
  · rw [pinged.view] at later
    exact absurd later (by decide)

end Node

end LibeventPaxos
