import LibeventPaxos.ViewFence

/-!
The three timers of a node through any number of role changes.
-/
namespace LibeventPaxos

open Lib

/-! ## Events that were freed -/

namespace Comp

/-- No call has touched an event that was freed. -/
def Live (c : Comp) : Prop := c.fault ≠ some .useAfterFree

theorem live_of_running {c : Comp} (running : c.fault = none) : c.Live := by
  simp [Live, running]

private theorem live_leaderExecStep (env : Env) (execFlag : Bool) (index : ℕ)
    (s s' : Comp × Option RequestRecord) (live : s.1.Live)
    (stepped : leaderExecStep env execFlag index s = .next s' ∨
      leaderExecStep env execFlag index s = .ret s') : s'.1.Live := by
  obtain ⟨c, recordData⟩ := s
  simp only [leaderExecStep] at stepped
  split at stepped
  next nothing =>
    rcases stepped with impossible | same
    · cases impossible
    · obtain rfl := LoopStep.ret.inj same
      simp [Live, fail]
  next record found =>
    split at stepped
    next quorum =>
      split at stepped
      next executes =>
        rcases stepped with same | impossible
        · obtain rfl := LoopStep.next.inj same
          exact live
        · cases impossible
      next =>
        rcases stepped with same | impossible
        · obtain rfl := LoopStep.next.inj same
          exact live
        · cases impossible
    next minority =>
      rcases stepped with impossible | same
      · cases impossible
      · obtain rfl := LoopStep.ret.inj same
        exact live

theorem live_leaderTryToExecute (env : Env) (c : Comp) (live : c.Live) :
    (leaderTryToExecute env c).Live := by
  have scan : ∀ (c : Comp) (start : DbKey), c.Live → (leaderExecFrom env c start).Live := by
    intro c start live
    have kept := forInclusive_invariant (fun s => s.1.Live) 64 start.toNat
      (vstol c.highestSeenVs).toNat (leaderExecStep env
        (viewStampComp c.highestCommittedVs c.highestToCommitVs == 0)) (c, none) live
      (fun index s s' before stepped => live_leaderExecStep env _ index s s' before stepped)
    simp only [leaderExecFrom]
    generalize forInclusive 64 start.toNat _ _ (c, none) = exit at kept
    cases exit with
    | finished s => exact kept
    | returned s => exact kept
    | wrapped s => simp [Live, fail]
  simp only [leaderTryToExecute]
  split
  next apart =>
    split
    next far => simp [Live, fail]
    next near => exact scan _ _ live
  next same => exact scan _ _ live

private theorem live_execRange (c : Comp) (start stop : DbKey) (live : c.Live) :
    (execRange c start stop).Live := by
  have kept := forInclusive_invariant (fun s : Comp × Bool => s.1.Live) 64 start.toNat
    stop.toNat execStep (c, true) live
    (fun index s s' before stepped => by
      obtain ⟨c, execFlag⟩ := s
      simp only [execStep] at stepped
      rcases stepped with same | impossible
      · split at same
        next missing =>
          obtain rfl := LoopStep.next.inj same
          exact before
        next value found =>
          split at same
          next => obtain rfl := LoopStep.next.inj same; exact before
          next => obtain rfl := LoopStep.next.inj same; exact before
      · split at impossible
        next => cases impossible
        next => split at impossible <;> cases impossible)
  simp only [execRange]
  generalize forInclusive 64 start.toNat _ _ (c, true) = exit at kept
  cases exit with
  | finished s => exact kept
  | returned s => exact kept
  | wrapped s => simp [Live, fail]

theorem live_tryToExecute (env : Env) (c : Comp) (live : c.Live) :
    (tryToExecute env c).Live := by
  have execute : ∀ c : Comp, c.Live → (executeCommitted c).Live := by
    intro c live
    simp only [executeCommitted]
    split
    next apart =>
      split
      next absent => exact live
      next boundary found =>
        have executed := live_execRange c (vstol c.highestCommittedVs + 1)
          (vstol boundary.asBoundary) live
        generalize execRange c _ _ = c' at executed
        split
        next => exact executed
        next => split <;> exact executed
    next same => exact live_execRange c _ _ live
  have scanned : (if c.myRole = .leader then leaderTryToExecute env c else c).Live := by
    split
    next => exact live_leaderTryToExecute env c live
    next => exact live
  simp only [tryToExecute]
  split
  next => exact live
  next =>
    generalize (if c.myRole = .leader then leaderTryToExecute env c else c) = c' at scanned
    split
    next => exact scanned
    next => exact execute c' scanned

private theorem live_retransmit (env : Env) (c : Comp) (live : c.Live) :
    (retransmit env c).Live := by
  have kept := forInclusive_invariant Live 64 (vstol c.retransmitStart).toNat
    (vstol c.highestSeenVs).toNat (retransmitStep env) c live
    (fun index c c' before stepped => by
      simp only [retransmitStep] at stepped
      split at stepped
      next nothing =>
        rcases stepped with impossible | same
        · cases impossible
        · obtain rfl := LoopStep.ret.inj same
          simp [Live, fail]
      next value found =>
        split at stepped
        next quorum =>
          rcases stepped with same | impossible
          · obtain rfl := LoopStep.next.inj same
            exact before
          · cases impossible
        next minority =>
          rcases stepped with same | impossible
          · obtain rfl := LoopStep.next.inj same
            exact before
          · cases impossible)
  simp only [retransmit]
  generalize forInclusive 64 _ _ _ c = exit at kept
  split
  next =>
    cases exit with
    | finished s => exact kept
    | returned s => exact kept
    | wrapped s => simp [Live, fail]
  next => exact live

private theorem live_leaderHandleSubmitReq (env : Env) (c : Comp) (data : List UInt8)
    (live : c.Live) : (leaderHandleSubmitReq env c data).1.Live := by
  simp only [leaderHandleSubmitReq]
  split
  next =>
    split
    next => exact live
    next => exact live_tryToExecute env _ live
  next => exact live

private theorem live_consensusHandleMsg (env : Env) (c : Comp) (msg : ConsensusMsg)
    (live : c.Live) : (consensusHandleMsg env c msg).Live := by
  cases msg with
  | acceptReq msgVs reqCanbeExed nodeId record =>
    refine live_tryToExecute env _ ?_
    simp only [storeAcceptReq, noteAcceptReq]
    split_ifs <;> exact live
  | acceptAck msgVs nodeId =>
    refine live_tryToExecute env _ ?_
    simp only [storeAcceptAck]
    split_ifs
    · exact live
    · exact live
    · split <;> exact live
    · split <;> exact live
  | missingReq nodeId missingVs =>
    simp only [consensusHandleMsg, handleMissingReq]
    split <;> exact live
  | missingAck nodeId missingVs record =>
    simp only [consensusHandleMsg, handleMissingAck]
    split_ifs
    · exact live
    · split
      next => exact live
      next => exact live_tryToExecute env _ live
    · split
      next => exact live
      next => exact live_tryToExecute env _ live
  | forceExec nodeId highestCommittedOp =>
    simp only [consensusHandleMsg, handleForceExec]
    split_ifs
    · exact live
    · exact live_tryToExecute env _ live
    · exact live
  | forwardReq nodeId data =>
    simp only [consensusHandleMsg, handleForwardReq]
    split
    next => exact live
    next => exact live_leaderHandleSubmitReq env c data live

/-- The component has no timers of its own. -/
theorem live_handle (c : Comp) (e : Env × CompEvent) (live : c.Live) : (c.handle e).Live := by
  obtain ⟨env, event⟩ := e
  cases event with
  | message msg => exact live_consensusHandleMsg env c msg live
  | submit data =>
    simp only [handle, consensusSubmitRequest]
    split
    next => exact live_leaderHandleSubmitReq env c data live
    next => exact live
  | makeProgress =>
    simp only [handle, consensusMakeProgress]
    split
    next => exact live
    next =>
      have scanned := live_leaderTryToExecute env c live
      generalize leaderTryToExecute env c = c' at scanned
      split
      next => exact scanned
      next =>
        have resent := live_retransmit env c' scanned
        generalize retransmit env c' = c'' at resent
        split <;> exact resent
  | updateView newViewInfo =>
    simp only [handle, updateView, storeViewBoundary]
    split_ifs <;> first | exact live | simp [Live, fail, consensusUpdateRole]
  | acceptorUpdateRecord nextView record => exact live

end Comp

namespace EdgeMod

/-- The scan of the leader's range keeps the nodes heard. -/
private theorem leaderCalEdge_spec (c : Comp) (edge : EdgeMod) :
    (leaderCalEdge c edge).2 ≠ some .useAfterFree ∧ (leaderCalEdge c edge).1.msgCount =
      edge.msgCount.map fun msgCount => Function.update msgCount (c.nodeId : Int) true := by
  generalize counted : edge.msgCount.map
    (fun msgCount => Function.update msgCount (c.nodeId : Int) true) = heard
  have kept := forInclusive_invariant
    (fun s : EdgeMod × Option Fault => s.2 ≠ some .useAfterFree ∧ s.1.msgCount = heard) 32
    edge.start.toNat edge.stop.toNat (leaderCalEdgeStep c)
    ({ edge with msgCount := heard }, none) ⟨by simp, rfl⟩
    -- a step notes a slot or fails; it never frees the array
    (fun index s s' before stepped => by
      obtain ⟨edge, fault⟩ := s
      obtain ⟨live, same⟩ := before
      simp only [leaderCalEdgeStep] at stepped
      split at stepped
      next value found =>
        rcases stepped with next | impossible
        · obtain rfl := LoopStep.next.inj next
          exact ⟨live, same⟩
        · cases impossible
      next empty =>
        split at stepped
        next room =>
          split at stepped
          next nothing =>
            rcases stepped with impossible | ret
            · cases impossible
            · obtain rfl := LoopStep.ret.inj ret
              exact ⟨by simp, same⟩
          next slots _ =>
            split at stepped
            next inside =>
              rcases stepped with next | impossible
              · obtain rfl := LoopStep.next.inj next
                exact ⟨live, same⟩
              · cases impossible
            next outside =>
              rcases stepped with impossible | ret
              · cases impossible
              · obtain rfl := LoopStep.ret.inj ret
                exact ⟨by simp, same⟩
        next full =>
          rcases stepped with impossible | ret
          · cases impossible
          · obtain rfl := LoopStep.ret.inj ret
            exact ⟨by simp, same⟩)
  simp only [leaderCalEdge, counted]
  generalize forInclusive 32 _ _ _ _ = exit at kept
  cases exit with
  | finished s => exact kept
  | returned s => exact kept
  | wrapped s => exact ⟨by simp, kept.2⟩

/-- A leader that has its range has heard itself and nobody else. -/
theorem initializeEdgeMod_spec (c : Comp) (edge : EdgeMod) :
    (initializeEdgeMod c edge).2 ≠ some .useAfterFree ∧
    ((initializeEdgeMod c edge).2 = none → (initializeEdgeMod c edge).1.msgCount = none ∨
      (initializeEdgeMod c edge).1.msgCount =
        some (Function.update (fun _ => false) (c.nodeId : Int) true)) := by
  simp only [initializeEdgeMod]
  generalize (if c.highestSeenVs.viewId = c.curView.viewId then
    edgeLength (undecidedRange c).1 (undecidedRange c).2 else 100) = length
  split
  next =>
    split
    next negative => exact ⟨by simp, fun _ => .inl rfl⟩
    next =>
      have scanned := leaderCalEdge_spec c
      exact ⟨(scanned _).1, fun _ => .inr (scanned _).2⟩
  next slots _ =>
    split
    next short => exact ⟨by simp, by simp⟩
    next =>
      have scanned := leaderCalEdge_spec c
      exact ⟨(scanned _).1, fun _ => .inr (scanned _).2⟩

private theorem live_appendIds (ids : ℕ → UInt32) (pnum : Int) (fuel j : ℕ) (edge : EdgeMod)
    (slots : List UInt32) : (appendIds ids pnum fuel j edge slots).2.2 ≠ some .useAfterFree := by
  induction fuel generalizing j edge slots with
  | zero => simp [appendIds]
  | succ fuel ih =>
    simp only [appendIds]
    split_ifs
    · exact ih _ _ _
    · simp
    · simp
    · simp

theorem live_mergeAck (env : NodeEnv) (edge : EdgeMod) (msg : LeleMsg) (data : List UInt32) :
    (edge.mergeAck env msg data).2 ≠ some .useAfterFree := by
  simp only [mergeAck]
  split
  next => simp
  next slots _ =>
    split
    next => simp
    next =>
      generalize (if edge.start < msg.startReq then (msg.startReq,
        clearUpTo msg.startReq edge.curEmptySlots edge.curEmptySlots 0 slots)
        else (edge.start, 0, slots)) = cleared
      split
      next => simp
      next i j merged _ =>
        split
        next => exact live_appendIds _ _ _ _ _ _
        next => split <;> simp

end EdgeMod

namespace Node

/-! ## Handlers that touch no timer of the node -/

private theorem live_fail {node : Node} {fault : Fault} (other : fault ≠ .useAfterFree) :
    (node.fail fault).comp.Live := by
  simpa [Comp.Live, fail, Comp.fail] using other

private theorem live_checkPrepare (env : NodeEnv) (node : Node) (live : node.comp.Live) :
    (node.checkPrepare env).comp.Live := by
  simp only [checkPrepare, leaderElectionProposerPhaseTwo]
  split
  next =>
    split
    next => exact live_fail (by simp)
    next => exact live
  next => exact live

private theorem live_leaderElectionPropose (env : NodeEnv) (node : Node) (live : node.comp.Live) :
    (node.leaderElectionPropose env).comp.Live := by
  simp only [leaderElectionPropose]
  split
  next => exact live_checkPrepare env _ live
  next => exact live

private theorem live_leaderElectionProposerDo (env : NodeEnv) (node : Node) (msg : LeleMsg)
    (live : node.comp.Live) : (node.leaderElectionProposerDo env msg).comp.Live := by
  simp only [leaderElectionProposerDo]
  split_ifs
  · exact live_fail (by simp)
  · exact live_checkPrepare env _ live
  · exact live_fail (by simp)
  · exact live

private theorem live_handlePrepare (env : NodeEnv) (node : Node) (msg : LeleMsg)
    (live : node.comp.Live) : (node.handlePrepare env msg).comp.Live := by
  simp only [handlePrepare]
  split <;> split <;> exact live

private theorem live_emptySlots (c : Comp) (edge : EdgeMod) (length : Int) :
    (emptySlots c edge length).2 ≠ some .useAfterFree := by
  have kept := forInclusive_invariant
    (fun s : List UInt32 × Option Fault => s.2 ≠ some .useAfterFree) 32 edge.start.toNat
    edge.stop.toNat (calEdgeStep c length) ([], none) (by simp)
    (fun index s s' before stepped => by
      obtain ⟨slots, fault⟩ := s
      simp only [calEdgeStep] at stepped
      split at stepped
      next value found =>
        rcases stepped with next | impossible
        · obtain rfl := LoopStep.next.inj next
          exact before
        · cases impossible
      next empty =>
        split at stepped
        next room =>
          rcases stepped with next | impossible
          · obtain rfl := LoopStep.next.inj next
            exact before
          · cases impossible
        next full =>
          rcases stepped with impossible | ret
          · cases impossible
          · obtain rfl := LoopStep.ret.inj ret
            simp)
  simp only [emptySlots]
  generalize forInclusive 32 _ _ _ _ = exit at kept
  cases exit with
  | finished s => exact kept
  | returned s => exact kept
  | wrapped s => simp

private theorem live_leaderElectionHandleAnnounce (env : NodeEnv) (node : Node) (msg : LeleMsg)
    (live : node.comp.Live) : (node.leaderElectionHandleAnnounce env msg).comp.Live := by
  simp only [leaderElectionHandleAnnounce]
  split
  next own =>
    simp only [leaderElectionInitializeEdgeMod]
    have other := (EdgeMod.initializeEdgeMod_spec node.comp node.electionMod.edge).1
    generalize EdgeMod.initializeEdgeMod node.comp node.electionMod.edge = result at other
    obtain ⟨edge, fault⟩ := result
    cases fault with
    | some fault => exact live_fail fun same => other (congrArg some same)
    | none => exact live
  next others =>
    simp only [leaderElectionCalEdge]
    split
    next seen =>
      split
      next huge => exact live_fail (by simp)
      next sized =>
        have other := live_emptySlots node.comp node.electionMod.edge
          (EdgeMod.edgeLength (EdgeMod.undecidedRange node.comp).1
            (EdgeMod.undecidedRange node.comp).2)
        generalize emptySlots node.comp node.electionMod.edge _ = result at other
        obtain ⟨slots, fault⟩ := result
        cases fault with
        | some fault => exact live_fail fun same => other (congrArg some same)
        | none => exact live
    next nothing => exact live

private theorem live_leaderElectionLearnerDo (env : NodeEnv) (node : Node) (msg : LeleMsg)
    (live : node.comp.Live) : (node.leaderElectionLearnerDo env msg).comp.Live := by
  simp only [leaderElectionLearnerDo]
  split
  next =>
    split
    next =>
      split
      next => exact live
      next => exact live_leaderElectionHandleAnnounce env _ _ live
    next => exact live
  next => exact live_fail (by simp)

private theorem live_andThen {node : Node} {next : Node → Node} (live : node.comp.Live)
    (rest : node.comp.Live → (next node).comp.Live) : (node.andThen next).comp.Live := by
  simp only [andThen]
  split
  next => exact rest live
  next => exact live

private theorem live_handleAccept (env : NodeEnv) (node : Node) (msg : LeleMsg)
    (live : node.comp.Live) : (node.handleAccept env msg).comp.Live := by
  simp only [handleAccept]
  split
  next => exact live_andThen (live_leaderElectionLearnerDo env _ _ live) id
  next => exact live

private theorem live_leaderElectionOnTimeout (env : NodeEnv) (node : Node)
    (live : node.comp.Live) : (node.leaderElectionOnTimeout env).comp.Live := by
  simp only [leaderElectionOnTimeout]
  split
  next =>
    split
    next => split <;> exact live
    next => exact live
  next => exact live_andThen (live_leaderElectionPropose env node live) id
  next => exact live

/-! ## Timers and roles -/

/-- A leader pings and makes progress, any other active node waits for a ping; no call has touched
a timer that was freed. -/
structure TimersArmed (node : Node) : Prop where
  leading : node.comp.fault = none → node.state = .active → node.isLeader = true →
    node.evLeaderPing = .pending ∧ node.evMakeProgress = .pending
  following : node.comp.fault = none → node.state = .active → node.isLeader = false →
    1 ≤ node.viewId.toNat → node.evExpectPing = .pending
  live : node.comp.fault ≠ some .useAfterFree

/-- An acknowledgement that reaches the elected node before the announcement. -/
def Overtakes (node : Node) (msg : LeleMsg) : Prop :=
  node.electionMod.edge.start = 0xFFFFFFFF ∧ node.nodeId = msg.content

instance (node : Node) (msg : LeleMsg) : Decidable (node.Overtakes msg) :=
  inferInstanceAs (Decidable (_ ∧ _))

/-- The nodes the elected node has heard when it merges an acknowledgement. -/
def heardBefore (node : Node) (msg : LeleMsg) : NodeId → Bool :=
  if node.Overtakes msg then Function.update (fun _ => false) node.nodeId true
  else node.electionMod.edge.msgCount.getD fun _ => false

/-- The acknowledgement completes the majority of the node that was elected. -/
def Completes (node : Node) (msg : LeleMsg) : Prop :=
  (node.Overtakes msg ∨ node.electionMod.newLeader = node.nodeId) ∧
    node.groupSize / 2 + 1 ≤ EdgeMod.heard node.groupSize
      (Function.update (node.heardBefore msg) msg.nodeId true)

instance (node : Node) (msg : LeleMsg) : Decidable (node.Completes msg) :=
  inferInstanceAs (Decidable (_ ∧ _))

/-- The event makes the node the leader of the next view. -/
def Promotes (node : Node) : NodeEvent → Prop
  | .message (.pingReq _ view _) =>
    node.state ≠ .postLele ∧ view.viewId = node.viewId + 1 ∧ view.leaderId = node.nodeId
  | .message (.leaderElection msg _) =>
    node.state ≠ .active ∧ msg.nextView = node.viewId + 1 ∧
      (msg.type = .fin ∧ msg.content = node.nodeId ∨ msg.type = .announceAck ∧ node.Completes msg)
  | _ => False

instance (node : Node) : ∀ event, Decidable (node.Promotes event)
  | .message (.pingReq _ _ _) => inferInstanceAs (Decidable (_ ∧ _ ∧ _))
  | .message (.leaderElection _ _) => inferInstanceAs (Decidable (_ ∧ _ ∧ (_ ∧ _ ∨ _ ∧ _)))
  | .message (.pingAck _ _ _) => .isFalse id
  | .message (.consensus _) => .isFalse id
  | .message (.requestSubmit _) => .isFalse id
  | .leaderPing => .isFalse id
  | .expectPing => .isFalse id
  | .makeProgress => .isFalse id
  | .electionTimeout => .isFalse id

/-- The progress timer fires only while the node leads, and only a node that has the timer becomes
a leader. -/
def progressTimerKept (node : Node) (e : NodeEnv × NodeEvent) : Prop :=
  (e.2 = .makeProgress → node.isLeader = true) ∧
    (node.Promotes e.2 → node.evMakeProgress ≠ .absent)

instance (node : Node) (e : NodeEnv × NodeEvent) : Decidable (progressTimerKept node e) :=
  inferInstanceAs (Decidable (_ ∧ _))

/-- The timers of a node between two calls. -/
structure Armed (node : Node) : Prop where
  makeProgress : node.evMakeProgress = .absent ∨ node.evMakeProgress = .pending
  leading : node.isLeader = true →
    node.evLeaderPing = .pending ∧ node.evMakeProgress = .pending
  following : node.isLeader = false → node.evExpectPing ≠ .absent ∧
    (node.state = .active → node.evExpectPing = .pending)

theorem init_armed (seed : Bool) (nodeId groupSize : ℕ) (expectPingTimeval now : TimeVal)
    (env : NodeEnv) : (init seed nodeId groupSize expectPingTimeval now env).Armed := by
  cases leads : (Comp.init seed nodeId groupSize).isLeader with
  | true =>
    exact {
      makeProgress := by simp [init, leads]
      leading := by simp [init, leads]
      following := fun follows => absurd (leads.symm.trans follows) Bool.false_ne_true.symm }
  | false =>
    exact {
      makeProgress := by simp [init, leads]
      leading := fun leads' => absurd (leads.symm.trans leads') Bool.false_ne_true
      following := by simp [init, leads] }

theorem Armed.elects {node node' : Node} (armed : Armed node) (timed : Timed node)
    (elects : Elects node node') (electing : node.state ≠ .active) : Armed node' where
  makeProgress := by
    rw [elects.makeProgress]
    exact armed.makeProgress
  leading := by
    rw [elects.isLeader]
    exact fun leads => absurd (timed.leads leads) electing
  following := by
    rw [elects.isLeader, elects.expectPing]
    intro follows
    refine ⟨(armed.following follows).1, fun active => ?_⟩
    rcases elects.state with same | post
    · exact absurd (same.symm.trans active) electing
    · exact absurd (post.symm.trans active) NodeState.noConfusion

theorem Armed.entered {env : NodeEnv} {node node' : Node} {newViewInfo : View}
    (armed : Armed node) (entered : Entered env node newViewInfo node')
    (allocated : node'.isLeader = true → node.evMakeProgress ≠ .absent) : Armed node' where
  makeProgress := by
    rw [entered.makeProgress]
    exact armed.makeProgress
  leading := by
    intro leads
    refine ⟨by rw [entered.leaderPing, if_pos leads], ?_⟩
    rw [entered.makeProgress]
    exact armed.makeProgress.resolve_left (allocated leads)
  following := by
    intro follows
    have pending : node'.evExpectPing = .pending := by
      rw [entered.expectPing, follows, if_neg Bool.false_ne_true]
    exact ⟨by simp [pending], fun _ => pending⟩

/-- What a call leaves behind: timers as they should be, if it returns. -/
structure Arms (node' : Node) : Prop where
  live : node'.comp.Live
  armed : node'.comp.fault = none → Armed node'

theorem Armed.arms {node : Node} (armed : Armed node) (running : node.comp.fault = none) :
    Arms node :=
  ⟨Comp.live_of_running running, fun _ => armed⟩

theorem Armed.updateView {node : Node} (armed : Armed node) (timed : Timed node)
    (running : node.comp.fault = none) (env : NodeEnv) (newViewInfo : View)
    (allocated : node.viewId + 1 = newViewInfo.viewId → newViewInfo.leaderId = node.nodeId →
      node.evMakeProgress ≠ .absent) : Arms (node.updateView env newViewInfo) := by
  rcases updateView_cases env node newViewInfo running timed.kept with
    ⟨ignored, -⟩ | ⟨-, failed⟩ | entered
  · rw [ignored]
    exact armed.arms running
  · rw [failed]
    exact ⟨live_fail (by simp), fun faultless => by cases faultless⟩
  · have live : (node.updateView env newViewInfo).comp.Live := by
      rw [entered.comp]
      exact Comp.live_of_running running
    refine ⟨live, fun _ => armed.entered entered fun leads => ?_⟩
    refine allocated entered.successor ?_
    have own := of_decide_eq_true leads
    rw [entered.comp] at own
    exact own

/-- The component keeps its view, and with it the role of its node. -/
theorem Armed.handle {node : Node} (armed : Armed node) (timed : Timed node) (env : Env)
    (event : CompEvent) (running : node.comp.fault = none)
    (inView : ∀ view, event ≠ .updateView view) :
    Arms { node with comp := node.comp.handle (env, event) } := by
  obtain ⟨-, same⟩ := Comp.handle_step node.comp (env, event) running
  obtain ⟨-, view⟩ := timed.handle env event running inView
  have isLeader : (node.comp.handle (env, event)).isLeader = node.comp.isLeader := by
    simp only [Comp.isLeader, view, same.nodeId]
  refine ⟨Comp.live_handle node.comp (env, event) (Comp.live_of_running running), fun _ => ?_⟩
  exact {
    makeProgress := armed.makeProgress
    leading := fun leads => armed.leading (isLeader.symm.trans leads)
    following := fun follows => armed.following (isLeader.symm.trans follows) }

theorem Arms.andThen {node : Node} {next : Node → Node} (first : Arms node)
    (rest : node.comp.fault = none → Arms (next node)) : Arms (node.andThen next) := by
  by_cases running : node.comp.fault = none
  · rw [andThen_of_running node next running]
    exact rest running
  · rwa [andThen_of_fault node next running]

/-- A handler of the election that touches no timer. -/
theorem Armed.arms_elects {node node' : Node} (armed : Armed node) (timed : Timed node)
    (electing : node.state ≠ .active) (elects : Elects node node') (live : node'.comp.Live) :
    Arms node' :=
  ⟨live, fun _ => armed.elects timed elects electing⟩

private theorem mergeAnnounceAck_arms {node before : Node} (armed : Armed node)
    (timed : Timed node) (electing : node.state ≠ .active) (env : NodeEnv) (msg : LeleMsg)
    (data : List UInt32) (elects : Elects node before) (running : before.comp.fault = none)
    (completes : ∀ msgCount, before.electionMod.edge.msgCount = some msgCount →
      before.electionMod.newLeader = node.nodeId → node.groupSize / 2 + 1 ≤
        EdgeMod.heard node.groupSize (Function.update msgCount msg.nodeId true) →
      node.evMakeProgress ≠ .absent) : Arms (before.mergeAnnounceAck env msg data) := by
  have stays : ∀ {node' : Node}, Elects node node' → node'.comp.Live → Arms node' :=
    fun elects live => armed.arms_elects timed electing elects live
  have live := Comp.live_of_running running
  obtain ⟨db, fault, comp⟩ := elects.comp
  have nodeId : before.nodeId = node.nodeId := by
    rw [Node.nodeId, comp]
    rfl
  have groupSize : before.groupSize = node.groupSize := by
    rw [Node.groupSize, comp]
    rfl
  simp only [mergeAnnounceAck]
  split
  next nothing => exact stays (elects.trans (elects_fail _ _)) (live_fail (by simp))
  next msgCount counted =>
    split
    next inGroup =>
      split
      next heard => exact stays elects live
      next fresh =>
        have other := EdgeMod.live_mergeAck env { before.electionMod.edge with
          msgCount := some (Function.update msgCount msg.nodeId true) } msg data
        generalize EdgeMod.mergeAck env _ msg data = merged at other
        obtain ⟨edge, fault⟩ := merged
        have merges : Elects node (before.withMod { before.electionMod with edge := edge }) :=
          elects.trans (elects_withMod _ _ rfl)
        cases fault with
        | some fault =>
          exact stays (merges.trans (elects_fail _ fault))
            (live_fail fun same => other (congrArg some same))
        | none =>
          simp only
          split
          next majority =>
            -- the view is entered under the leader the election module names
            have enough : before.groupSize / 2 + 1 ≤ EdgeMod.heard before.groupSize
                (Function.update msgCount msg.nodeId true) := majority
            rw [groupSize] at enough
            simp only [leaderElectionLeaderClose]
            have closes := (armed.elects timed merges electing).updateView
              (timed.elects merges electing) running env
              ⟨before.electionMod.nextView, before.electionMod.newLeader, edge.boundary⟩
              (fun _ own => by
                rw [merges.makeProgress]
                exact completes msgCount counted (own.trans nodeId) enough)
            exact closes.andThen fun faultless => ⟨closes.live, fun _ =>
              { closes.armed faultless with }⟩
          next minority => exact stays merges live
    next outside => exact stays (elects.trans (elects_fail _ _)) (live_fail (by simp))

/-- The elected node sets up its range and counts itself. -/
theorem handleAnnounce_counts (env : NodeEnv) (node : Node) (msg : LeleMsg)
    (own : msg.content = node.nodeId)
    (faultless : (node.leaderElectionHandleAnnounce env msg).comp.fault = none) :
    (node.leaderElectionHandleAnnounce env msg).electionMod.edge.msgCount = none ∨
      (node.leaderElectionHandleAnnounce env msg).electionMod.edge.msgCount =
        some (Function.update (fun _ => false) node.nodeId true) := by
  have setsUp : node.leaderElectionHandleAnnounce env msg =
      leaderElectionInitializeEdgeMod { node with
        state := .postLele
        electionMod := { node.electionMod with newLeader := msg.content } } := if_pos own
  rw [setsUp] at faultless ⊢
  simp only [leaderElectionInitializeEdgeMod] at faultless ⊢
  have counts := (EdgeMod.initializeEdgeMod_spec node.comp node.electionMod.edge).2
  generalize EdgeMod.initializeEdgeMod node.comp node.electionMod.edge = result at *
  obtain ⟨edge, fault⟩ := result
  cases fault with
  | some fault => cases faultless
  | none => exact counts rfl

private theorem handleAnnounceAck_arms {node : Node} (armed : Armed node) (timed : Timed node)
    (running : node.comp.fault = none) (electing : node.state ≠ .active) (env : NodeEnv)
    (msg : LeleMsg) (data : List UInt32)
    (allocated : node.Completes msg → node.evMakeProgress ≠ .absent) :
    Arms (node.leaderElectionHandleAnnounceAck env msg data) := by
  simp only [leaderElectionHandleAnnounceAck]
  by_cases overtakes : node.electionMod.edge.start = 0xFFFFFFFF ∧ node.nodeId = msg.content
  · rw [if_pos overtakes]
    have elects := elects_leaderElectionHandleAnnounce env node msg
    have live := live_leaderElectionHandleAnnounce env node msg (Comp.live_of_running running)
    have first := armed.arms_elects timed electing elects live
    refine first.andThen fun faultless => ?_
    refine mergeAnnounceAck_arms armed timed electing env msg data elects faultless ?_
    intro msgCount counted _ majority
    refine allocated ⟨.inl overtakes, ?_⟩
    rw [heardBefore, if_pos (show node.Overtakes msg from overtakes)]
    rcases handleAnnounce_counts env node msg overtakes.2.symm faultless with nothing | itself
    · exact absurd (nothing.symm.trans counted) (by simp)
    · obtain rfl := Option.some.inj (itself.symm.trans counted)
      exact majority
  · rw [if_neg overtakes]
    refine (armed.arms running).andThen fun _ => ?_
    refine mergeAnnounceAck_arms armed timed electing env msg data (.refl node) running ?_
    intro msgCount counted own majority
    refine allocated ⟨.inr own, ?_⟩
    rw [heardBefore, if_neg (show ¬ node.Overtakes msg from overtakes), counted]
    exact majority

private theorem leaderElectionDo_arms {node : Node} (armed : Armed node) (timed : Timed node)
    (running : node.comp.fault = none) (electing : node.state ≠ .active) (env : NodeEnv)
    (msg : LeleMsg) (data : List UInt32)
    (allocated : msg.type = .fin ∧ msg.content = node.nodeId ∨
      msg.type = .announceAck ∧ node.Completes msg → node.evMakeProgress ≠ .absent) :
    Arms (node.leaderElectionDo env msg data) := by
  have stays : ∀ {node' : Node}, Elects node node' → node'.comp.Live → Arms node' :=
    fun elects live => armed.arms_elects timed electing elects live
  have live := Comp.live_of_running running
  simp only [leaderElectionDo]
  cases type : msg.type with
  | prepare => exact stays (elects_handlePrepare env node msg) (live_handlePrepare env node msg live)
  | prepareAck =>
    exact stays (elects_leaderElectionProposerDo env node msg)
      (live_leaderElectionProposerDo env node msg live)
  | accept => exact stays (elects_handleAccept env node msg) (live_handleAccept env node msg live)
  | acceptAck =>
    exact stays (elects_leaderElectionLearnerDo env node msg)
      (live_leaderElectionLearnerDo env node msg live)
  | announce =>
    exact stays (elects_leaderElectionHandleAnnounce env node msg)
      (live_leaderElectionHandleAnnounce env node msg live)
  | announceAck =>
    exact handleAnnounceAck_arms armed timed running electing env msg data fun completes =>
      allocated (.inr ⟨type, completes⟩)
  | fin =>
    simp only [leaderElectionHandleClose]
    split
    next current =>
      exact armed.updateView timed running env _ fun _ own => allocated (.inl ⟨type, own⟩)
    next other => exact armed.arms running
  | higherNode =>
    exact stays (elects_leaderElectionProposerDo env node msg)
      (live_leaderElectionProposerDo env node msg live)
  | lagged => exact armed.arms running

private theorem handlePingReq_arms {node : Node} (armed : Armed node) (timed : Timed node)
    (running : node.comp.fault = none) (waiting : node.state ≠ .postLele) (env : NodeEnv)
    (nodeId : NodeId) (view : View) (timestamp : TimeVal)
    (allocated : view.viewId = node.viewId + 1 → view.leaderId = node.nodeId →
      node.evMakeProgress ≠ .absent) : Arms (node.handlePingReq env nodeId view timestamp) := by
  have live := Comp.live_of_running running
  simp only [handlePingReq]
  split
  next successor => exact armed.updateView timed running env view fun next => allocated next.symm
  next =>
    split
    next lagged => exact ⟨live, fun _ => { armed with }⟩
    next =>
      split
      next same =>
        rw [reconnected waiting]
        split
        next leads =>
          exact ⟨live, fun _ => {
            armed with following := fun follows => absurd (leads.symm.trans follows) (by simp) }⟩
        next follows =>
          have follows : node.isLeader = false := Bool.eq_false_iff.mpr follows
          -- a node that follows has allocated the timer, whatever it did since
          rw [if_pos (armed.following follows).1]
          exact ⟨live, fun _ => {
            armed with following := fun _ => ⟨by simp, fun _ => rfl⟩ }⟩
      next other => exact armed.arms running

private theorem handleMsg_arms {node : Node} (armed : Armed node) (timed : Timed node)
    (running : node.comp.fault = none) (env : NodeEnv) (msg : SysMsg)
    (allocated : node.Promotes (.message msg) → node.evMakeProgress ≠ .absent) :
    Arms (node.handleMsg env msg) := by
  cases msg with
  | pingAck nodeId view timestamp =>
    simp only [handleMsg, handlePingAck_ignored, ite_self]
    exact armed.arms running
  | pingReq nodeId view timestamp =>
    simp only [handleMsg]
    split
    next waiting =>
      exact handlePingReq_arms armed timed running waiting env nodeId view timestamp
        fun next own => allocated ⟨waiting, next, own⟩
    next => exact armed.arms running
  | consensus msg =>
    simp only [handleMsg]
    split
    next active => exact armed.handle timed env.toEnv (.message msg) running (by simp)
    next => exact armed.arms running
  | requestSubmit data =>
    simp only [handleMsg]
    split
    next active => exact armed.handle timed env.toEnv (.submit data) running (by simp)
    next => exact armed.arms running
  | leaderElection msg data =>
    simp only [handleMsg, handleLeaderElectionMsg]
    split
    next inElection =>
      have electing := electing_of_reads inElection
      split
      next other =>
        split
        next same =>
          split
          next close _ =>
            exact armed.arms_elects timed electing (elects_sendToOneNode node _ _)
              (Comp.live_of_running running)
          next => exact armed.arms running
        next => exact armed.arms running
      next current =>
        exact leaderElectionDo_arms armed timed running electing env msg data fun promotes =>
          allocated ⟨electing, not_not.mp current, promotes⟩
    next => exact armed.arms running

/-- Every step that keeps the progress timer leaves the timers as they should be. -/
theorem Armed.dispatch {node : Node} (armed : Armed node) (timed : Timed node)
    (e : NodeEnv × NodeEvent) (allowed : progressTimerKept node e)
    (enabled : machine.enabled node e) : Arms (node.dispatch e) := by
  obtain ⟨running, due⟩ := enabled
  obtain ⟨env, event⟩ := e
  have live := Comp.live_of_running running
  cases event with
  | message msg => exact handleMsg_arms armed timed running env msg allowed.2
  | leaderPing =>
    have leads : Node.isLeader { node with evLeaderPing := .idle } = true := timed.leaderPing due
    simp only [Node.dispatch, leaderPingPeriod, if_pos leads]
    refine ⟨live, fun _ => ?_⟩
    exact { armed with leading := fun _ => ⟨by simp [sendToOtherNodes],
      (armed.leading (timed.leaderPing due)).2⟩ }
  | expectPing =>
    obtain ⟨follows, active⟩ := timed.expectPing due
    have notLeader : Node.isLeader { node with evExpectPing := .idle } ≠ true := by
      show node.isLeader ≠ true
      simp [follows]
    simp only [Node.dispatch, expectedLeaderPingPeriod, if_neg notLeader]
    split
    next heard =>
      simp only [initializeExpectPing, if_neg timed.kept]
      refine ⟨live, fun _ => ?_⟩
      exact {
        makeProgress := armed.makeProgress
        leading := fun leads => absurd (leads.symm.trans follows) (by simp)
        following := fun _ => ⟨by simp, fun _ => rfl⟩ }
    next silent =>
      -- the timer stays allocated through the election
      refine ⟨live, fun _ => ?_⟩
      exact {
        makeProgress := armed.makeProgress
        leading := fun leads => absurd (leads.symm.trans follows) (by simp)
        following := fun _ =>
          ⟨by simp [initializeLeaderElection], fun active => by cases active⟩ }
  | makeProgress =>
    have leads := allowed.1 rfl
    have fired : Node.isLeader { node with evMakeProgress := .idle } = true := leads
    have progressed := armed.handle timed env.toEnv .makeProgress running (by simp)
    simp only [Node.dispatch, makeProgressOn, if_pos fired]
    by_cases faultless : (Comp.consensusMakeProgress env.toEnv node.comp).fault = none
    · rw [andThen_of_running _ _ faultless, if_pos (by simp)]
      have armed' := progressed.armed faultless
      refine ⟨progressed.live, fun _ => ?_⟩
      exact {
        makeProgress := .inr rfl
        leading := fun leads => ⟨(armed'.leading leads).1, rfl⟩
        following := armed'.following }
    · rw [andThen_of_fault _ _ faultless]
      exact ⟨progressed.live, fun running' => absurd running' faultless⟩
  | electionTimeout =>
    by_cases active : node.state = .active
    · have ignored : node.dispatch (env, .electionTimeout) =
          node.withMod { node.electionMod with slientPeriod := .idle } := by
        simp only [Node.dispatch, leaderElectionOnTimeout, withMod, active]
      rw [ignored]
      exact ⟨live, fun _ => { armed with }⟩
    · have fired : Elects node
          (node.withMod { node.electionMod with slientPeriod := .idle }) :=
        elects_withMod node _ rfl
      exact armed.arms_elects timed active (fired.trans (elects_leaderElectionOnTimeout env _))
        (live_leaderElectionOnTimeout env _ live)

/-! ## Runs -/

theorem arms_of_reaches (node : Node) (reached : machine.Reaches progressTimerKept node) :
    Arms node := by
  apply reached.invariant_using
  · rintro _ ⟨seed, nodeId, groupSize, expectPingTimeval, now, env, -, rfl⟩
    exact (init_armed seed nodeId groupSize expectPingTimeval now env).arms rfl
  · intro node e reached arms allowed enabled
    exact (arms.armed enabled.1).dispatch (timed_of_reaches node reached) e allowed enabled

/-- In every run in which the progress timer fires at leaders only and no node becomes a leader
without one, the timers of a node are those of its role. -/
theorem timers_armed (node : Node) (reached : machine.Reaches progressTimerKept node) :
    TimersArmed node := by
  have arms := arms_of_reaches node reached
  exact {
    leading := fun running _ leads => (arms.armed running).leading leads
    following := fun running active follows _ => ((arms.armed running).following follows).2 active
    live := arms.live }

/-- The seed of three nodes. -/
def seedOfThree : Node := init true 0 3 ⟨8, 0⟩ ⟨0, 0⟩ lateEnv

/-- A ping of the leader of a view. -/
def pingOf (viewId : UInt32) (leaderId : NodeId) : NodeEnv × NodeEvent :=
  (lateEnv, .message (.pingReq leaderId ⟨viewId, leaderId, 0⟩ ⟨0, 0⟩))

theorem seed_reaches (guard : Node → NodeEnv × NodeEvent → Prop)
    (run : List (NodeEnv × NodeEvent)) (accepted : machine.Accepts guard seedOfThree run) :
    machine.Reaches guard (run.foldl dispatch seedOfThree) :=
  ⟨_, ⟨true, 0, 3, _, _, _, by decide, rfl⟩, accepted.run⟩

/-- The seed loses its leadership and gains it back before its progress timer fires. -/
theorem seed_leads_again :
    let run := [(lateEnv, .makeProgress), (lateEnv, .leaderPing), pingOf 2 1, pingOf 3 0,
      (lateEnv, .makeProgress)]
    (run.foldl dispatch seedOfThree).viewId = 3 ∧
      TimersArmed (run.foldl dispatch seedOfThree) :=
  ⟨by decide, timers_armed _ (seed_reaches progressTimerKept _ (by decide))⟩

/-- A message of node 2 in the election for view 2 to node 0, which proposes itself. -/
def answerOfTwo (type : LeleType) (pnum pPnum : Int) (content : NodeId) : NodeEnv × NodeEvent :=
  (lateEnv, .message (.leaderElection ⟨type, 2, 2, pnum, pPnum, content, 0, 0⟩ []))

/-- Node 0 loses the leader of view 1 and is elected in its place. -/
def succeeds : List (NodeEnv × NodeEvent) :=
  [pingOf 1 1, (lateEnv, .expectPing), (lateEnv, .electionTimeout), (lateEnv, .electionTimeout),
    answerOfTwo .prepareAck 0 3 (-1), answerOfTwo .acceptAck 3 0 0,
    answerOfTwo .announceAck 0 0 0]

/-- An elected leader has no progress timer, and a deposed one adds its own after freeing it. -/
theorem progress_timer_lost :
    (¬ ∀ node : Node, machine.Reaches Machine.anything node → node.comp.Live) ∧
      ¬ ∀ node : Node, machine.Reaches Machine.anything node → TimersArmed node := by
  constructor
  · intro claim
    have deposed := claim _ (seed_reaches Machine.anything
      [pingOf 2 1, (lateEnv, .makeProgress)] (by decide))
    exact deposed (by decide)
  · intro claim
    have first : machine.Reaches Machine.anything
        (succeeds.foldl dispatch (init false 0 3 ⟨8, 0⟩ ⟨0, 0⟩ lateEnv)) :=
      ⟨_, ⟨false, 0, 3, _, _, _, by decide, rfl⟩, Machine.Accepts.run (by decide)⟩
    have elected := (claim _ first).leading (by decide) (by decide) (by decide)
    exact absurd elected.2 (by decide)

end Node

end LibeventPaxos
