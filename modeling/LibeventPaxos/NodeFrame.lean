import LibeventPaxos.Node
import LibeventPaxos.ConsensusFrame

/-!
What the election handlers of a node leave alone, and what `update_view` does to a node.
-/
namespace LibeventPaxos

open Lib

namespace Node

@[simp] theorem andThen_of_running (node : Node) (next : Node → Node)
    (running : node.comp.fault = none) : node.andThen next = next node := by
  simp [andThen, Node.running, running]

theorem andThen_of_fault (node : Node) (next : Node → Node) (faulty : node.comp.fault ≠ none) :
    node.andThen next = node := by
  cases fault : node.comp.fault with
  | none => exact absurd fault faulty
  | some fault' => simp [andThen, Node.running, fault]

/-! ## Parts of handlers -/

/-- A PING_ACK is ignored: `handle_ping_ack` compares the views the wrong way round, and
`update_view` does nothing with the view before the node's own. -/
theorem handlePingAck_ignored (env : NodeEnv) (node : Node) (view : View) :
    node.handlePingAck env view = node := by
  simp only [handlePingAck]
  split
  next ahead =>
    have other : node.viewId + 1 ≠ view.viewId := by
      rw [ahead, add_assoc]
      simp
    simp only [updateView, if_neg other]
  next => rfl

/-- Whether `stop_propose` makes the node wait decides about the timer of its election only. -/
theorem stopPropose_timer (node : Node) (msg : LeleMsg) :
    ∃ timer, (if msg.nodeId < node.nodeId then { node.electionMod with slientPeriod := .pending }
      else node.electionMod) = { node.electionMod with slientPeriod := timer } := by
  split
  next => exact ⟨_, rfl⟩
  next => exact ⟨node.electionMod.slientPeriod, rfl⟩

/-- A ping of the node's own view ends the election, if the node was in one. -/
theorem reconnected {node : Node} (waiting : node.state ≠ .postLele) :
    (if node.state = .inLele then { node with state := .active } else node) =
      { node with state := .active } := by
  cases state : node.state with
  | active => rw [if_neg (by simp), ← state]
  | inLele => rw [if_pos rfl]
  | postLele => exact absurd state waiting

/-- A node that reads election messages is not active. -/
theorem electing_of_reads {node : Node} (reads : node.state = .inLele ∨ node.state = .postLele) :
    node.state ≠ .active := by
  rcases reads with inLele | postLele
  · rw [inLele]
    exact NodeState.noConfusion
  · rw [postLele]
    exact NodeState.noConfusion

/-! ## Election handlers -/

/-- What an election handler may do short of entering a view: it writes acceptor records, it
changes the election module but not the view elected for, and it may enter the post stage. -/
structure Elects (node node' : Node) : Prop where
  comp : ∃ db fault, node'.comp = { node.comp with db := db, fault := fault }
  requests : ∀ vs, vs.viewId ≠ 0 → node'.comp.stored vs = node.comp.stored vs
  nextView : node'.electionMod.nextView = node.electionMod.nextView
  state : node'.state = node.state ∨ node'.state = .postLele
  leaderPing : node'.evLeaderPing = node.evLeaderPing
  expectPing : node'.evExpectPing = node.evExpectPing
  makeProgress : node'.evMakeProgress = node.evMakeProgress
  allocated : node'.modAllocated = node.modAllocated
  logs : node.sent ⊆ node'.sent ∧ node.accepted ⊆ node'.accepted

theorem Elects.refl (node : Node) : Elects node node :=
  ⟨⟨_, _, rfl⟩, fun _ _ => rfl, rfl, .inl rfl, rfl, rfl, rfl, rfl, fun _ => id, fun _ => id⟩

theorem Elects.trans {a b c : Node} (first : Elects a b) (second : Elects b c) : Elects a c where
  comp := by
    obtain ⟨db, fault, same⟩ := first.comp
    obtain ⟨db', fault', same'⟩ := second.comp
    exact ⟨db', fault', by rw [same', same]⟩
  requests vs request := (second.requests vs request).trans (first.requests vs request)
  nextView := second.nextView.trans first.nextView
  state := by
    rcases second.state with same | post
    · rw [same]
      exact first.state
    · exact .inr post
  leaderPing := second.leaderPing.trans first.leaderPing
  expectPing := second.expectPing.trans first.expectPing
  makeProgress := second.makeProgress.trans first.makeProgress
  allocated := second.allocated.trans first.allocated
  logs := ⟨List.Subset.trans first.logs.1 second.logs.1,
    List.Subset.trans first.logs.2 second.logs.2⟩

theorem Elects.curView {node node' : Node} (elects : Elects node node') :
    node'.comp.curView = node.comp.curView := by
  obtain ⟨db, fault, same⟩ := elects.comp
  rw [same]

theorem Elects.upCalls {node node' : Node} (elects : Elects node node') :
    node'.comp.upCalls = node.comp.upCalls := by
  obtain ⟨db, fault, same⟩ := elects.comp
  rw [same]

theorem Elects.isLeader {node node' : Node} (elects : Elects node node') :
    node'.isLeader = node.isLeader := by
  obtain ⟨db, fault, same⟩ := elects.comp
  rw [Node.isLeader, same]
  rfl

theorem elects_fail (node : Node) (fault : Fault) : Elects node (node.fail fault) :=
  ⟨⟨_, _, rfl⟩, fun _ _ => rfl, rfl, .inl rfl, rfl, rfl, rfl, rfl, fun _ => id, fun _ => id⟩

theorem elects_withMod (node : Node) (mod : LeleMod)
    (nextView : mod.nextView = node.electionMod.nextView) : Elects node (node.withMod mod) :=
  ⟨⟨_, _, rfl⟩, fun _ _ => rfl, nextView, .inl rfl, rfl, rfl, rfl, rfl, fun _ => id, fun _ => id⟩

theorem elects_sendToOneNode (node : Node) (target : NodeId) (msg : SysMsg) :
    Elects node (node.sendToOneNode target msg) :=
  ⟨⟨_, _, rfl⟩, fun _ _ => rfl, rfl, .inl rfl, rfl, rfl, rfl, rfl,
    List.subset_append_left _ _, fun _ => id⟩

theorem elects_sendToOtherNodes (node : Node) (msg : SysMsg) :
    Elects node (node.sendToOtherNodes msg) :=
  ⟨⟨_, _, rfl⟩, fun _ _ => rfl, rfl, .inl rfl, rfl, rfl, rfl, rfl,
    List.subset_append_left _ _, fun _ => id⟩

/-- The acceptor's record lies in view 0, where no request is. -/
theorem elects_acceptorUpdateRecord (node : Node) : Elects node node.acceptorUpdateRecord := by
  refine ⟨⟨_, _, rfl⟩, ?_, rfl, .inl rfl, rfl, rfl, rfl, rfl, fun _ => id, fun _ => id⟩
  intro vs request
  have different : vs ≠ ⟨0, node.electionMod.nextView⟩ := fun same =>
    request (congrArg ViewStamp.viewId same)
  simp only [acceptorUpdateRecord, Comp.acceptorUpdateRecord, Comp.stored,
    Comp.acceptorKey, Database.retrieveRecord_storeRecord, vstol_inj, if_neg different]

theorem Elects.andThen {node before : Node} {next : Node → Node} (first : Elects node before)
    (rest : ∀ node, Elects node (next node)) : Elects node (before.andThen next) := by
  by_cases running : before.comp.fault = none
  · rw [andThen_of_running before next running]
    exact first.trans (rest before)
  · rwa [andThen_of_fault before next running]

theorem elects_leaderElectionProposerPhaseTwo (env : NodeEnv) (node : Node) (content : NodeId) :
    Elects node (node.leaderElectionProposerPhaseTwo env content) := by
  simp only [leaderElectionProposerPhaseTwo]
  split
  next unset => exact elects_fail node _
  next set =>
    refine Elects.trans ?_ (elects_sendToOtherNodes _ _)
    exact elects_withMod node _ rfl

theorem elects_checkPrepare (env : NodeEnv) (node : Node) :
    Elects node (node.checkPrepare env) := by
  rw [checkPrepare]
  split
  next content majority => exact elects_leaderElectionProposerPhaseTwo env node content
  next minority => exact .refl node

theorem elects_leaderElectionPropose (env : NodeEnv) (node : Node) :
    Elects node (node.leaderElectionPropose env) := by
  simp only [leaderElectionPropose]
  have proposed : Elects node ((node.withMod { node.electionMod with
      nextPnum := node.electionMod.nextPnum + node.groupSize
      slientPeriod := .pending }).sendToOtherNodes (.leaderElection
        (node.electionMod.buildLeleMsg env node.nodeId .prepare (0, 0)) [])) := by
    refine Elects.trans ?_ (elects_sendToOtherNodes _ _)
    exact elects_withMod node _ rfl
  split
  next promised =>
    refine Elects.trans ?_ (elects_checkPrepare env _)
    refine Elects.trans ?_ (elects_acceptorUpdateRecord _)
    refine proposed.trans ?_
    exact elects_withMod _ _ rfl
  next older => exact proposed

theorem elects_leaderElectionProposerDo (env : NodeEnv) (node : Node) (msg : LeleMsg) :
    Elects node (node.leaderElectionProposerDo env msg) := by
  simp only [leaderElectionProposerDo]
  split
  next other => exact elects_fail node _
  next ack =>
    split
    next current =>
      split
      next inGroup =>
        refine Elects.trans ?_ (elects_checkPrepare env _)
        exact elects_withMod node _ rfl
      next outside => exact elects_fail node _
    next old => exact .refl node

theorem elects_handlePrepare (env : NodeEnv) (node : Node) (msg : LeleMsg) :
    Elects node (node.handlePrepare env msg) := by
  obtain ⟨timer, waits⟩ := stopPropose_timer node msg
  simp only [handlePrepare, waits]
  split
  next higher =>
    refine Elects.trans ?_ (elects_sendToOneNode _ _ _)
    refine Elects.trans ?_ (elects_acceptorUpdateRecord _)
    exact elects_withMod node _ rfl
  next lower => exact elects_withMod node _ rfl

theorem elects_leaderElectionCalEdge (env : NodeEnv) (node : Node) :
    Elects node (node.leaderElectionCalEdge env) := by
  simp only [leaderElectionCalEdge]
  have replies (msg : SysMsg) : Elects node ((node.withMod { node.electionMod with
      announceAckMsg := some msg
      slientPeriod := .pending }).sendToOneNode node.electionMod.newLeader msg) := by
    refine Elects.trans ?_ (elects_sendToOneNode _ _ _)
    exact elects_withMod node _ rfl
  split
  next seen =>
    split
    next huge => exact elects_fail node _
    next sized =>
      split
      next fault _ => exact elects_fail node fault
      next => exact replies _
  next nothing => exact replies _

theorem elects_leaderElectionInitializeEdgeMod (node : Node) :
    Elects node node.leaderElectionInitializeEdgeMod := by
  simp only [leaderElectionInitializeEdgeMod]
  split
  next fault _ =>
    refine Elects.trans ?_ (elects_fail _ fault)
    exact elects_withMod node _ rfl
  next => exact elects_withMod node _ rfl

theorem elects_leaderElectionHandleAnnounce (env : NodeEnv) (node : Node) (msg : LeleMsg) :
    Elects node (node.leaderElectionHandleAnnounce env msg) := by
  have post : Elects node { node with
      state := .postLele
      electionMod := { node.electionMod with newLeader := msg.content } } :=
    ⟨⟨_, _, rfl⟩, fun _ _ => rfl, rfl, .inr rfl, rfl, rfl, rfl, rfl, fun _ => id, fun _ => id⟩
  simp only [leaderElectionHandleAnnounce]
  split
  next own => exact post.trans (elects_leaderElectionInitializeEdgeMod _)
  next other => exact post.trans (elects_leaderElectionCalEdge env _)

theorem elects_leaderElectionLearnerDo (env : NodeEnv) (node : Node) (msg : LeleMsg) :
    Elects node (node.leaderElectionLearnerDo env msg) := by
  simp only [leaderElectionLearnerDo]
  split
  next inGroup =>
    split
    next newer =>
      split
      next undecided => exact elects_withMod node _ rfl
      next decided _ =>
        refine Elects.trans ?_ (elects_leaderElectionHandleAnnounce env _ _)
        refine Elects.trans ?_ (elects_sendToOtherNodes _ _)
        exact elects_withMod node _ rfl
    next older => exact .refl node
  next outside => exact elects_fail node _

theorem elects_handleAccept (env : NodeEnv) (node : Node) (msg : LeleMsg) :
    Elects node (node.handleAccept env msg) := by
  simp only [handleAccept]
  split
  next accepts =>
    refine Elects.andThen ?_ fun _ => elects_sendToOtherNodes _ _
    refine Elects.trans ?_ (elects_leaderElectionLearnerDo env _ _)
    refine Elects.trans ?_ (elects_acceptorUpdateRecord _)
    exact ⟨⟨_, _, rfl⟩, fun _ _ => rfl, rfl, .inl rfl, rfl, rfl, rfl, rfl, fun _ => id,
      List.subset_append_left _ _⟩
  next refuses => exact .refl node

theorem elects_leaderElectionOnTimeout (env : NodeEnv) (node : Node) :
    Elects node (node.leaderElectionOnTimeout env) := by
  have again (node : Node) :
      Elects node (node.withMod { node.electionMod with slientPeriod := .pending }) :=
    elects_withMod node _ rfl
  simp only [leaderElectionOnTimeout]
  split
  next post =>
    split
    next other =>
      split
      next msg _ => exact (elects_sendToOneNode node _ _).trans (again _)
      next => exact again node
    next own => exact again node
  next electing => exact (elects_leaderElectionPropose env node).andThen again
  next => exact .refl node

/-! ## Entering a view -/

/-- What a node is after it has entered a view. -/
structure Entered (env : NodeEnv) (node : Node) (newViewInfo : View) (node' : Node) : Prop where
  successor : node.viewId + 1 = newViewInfo.viewId
  comp : node'.comp = Comp.consensusUpdateRole { node.comp with
    curView := newViewInfo, db := Comp.boundaryDb env.toEnv node.comp newViewInfo }
  state : node'.state = .active
  electionMod : node'.electionMod = node.electionMod
  allocated : node'.modAllocated = node.modAllocated
  sent : node'.sent = node.sent
  makeProgress : node'.evMakeProgress = node.evMakeProgress
  leaderPing : node'.evLeaderPing = if node'.isLeader then .pending else node.evLeaderPing.del
  expectPing : node'.evExpectPing = if node'.isLeader then node.evExpectPing.del else .pending

theorem Entered.curView {env : NodeEnv} {node node' : Node} {newViewInfo : View}
    (entered : Entered env node newViewInfo node') : node'.comp.curView = newViewInfo := by
  rw [entered.comp]
  rfl

/-- `update_view` ignores a view that is not the next one, fails to write the boundary, or enters
the view. -/
theorem updateView_cases (env : NodeEnv) (node : Node) (newViewInfo : View)
    (running : node.comp.fault = none) (kept : node.evLeaderPing ≠ .freed) :
    (node.updateView env newViewInfo = node ∧ node.viewId + 1 ≠ newViewInfo.viewId) ∨
    (env.storeOk = false ∧ node.updateView env newViewInfo = node.fail .assertion) ∨
    Entered env node newViewInfo (node.updateView env newViewInfo) := by
  by_cases successor : node.viewId + 1 = newViewInfo.viewId
  · right
    simp only [updateView, if_pos successor]
    rcases Comp.updateView_cases env.toEnv node.comp newViewInfo running with
      ⟨-, other⟩ | ⟨-, ⟨refused, failed⟩ | entered⟩
    · exact absurd successor other
    · left
      rw [failed]
      exact ⟨refused, andThen_of_fault _ _ (by simp [Comp.fail])⟩
    · right
      generalize Comp.updateView env.toEnv node.comp newViewInfo = comp at entered
      have running' : comp.fault = none := by
        rw [entered]
        exact running
      rw [andThen_of_running { node with comp := comp } _ running']
      simp only [initializeLeaderPing, initializeExpectPing, if_neg kept]
      split
      next leads =>
        exact ⟨successor, entered, rfl, rfl, rfl, rfl, rfl, (if_pos leads).symm,
          (if_pos leads).symm⟩
      next follows =>
        exact ⟨successor, entered, rfl, rfl, rfl, rfl, rfl, (if_neg follows).symm,
          (if_neg follows).symm⟩
  · exact .inl ⟨by simp [updateView, successor], successor⟩

/-- Entering a view leaves the election module alone. -/
theorem electionMod_updateView (env : NodeEnv) (node : Node) (newViewInfo : View) :
    (node.updateView env newViewInfo).electionMod = node.electionMod ∧
      (node.updateView env newViewInfo).modAllocated = node.modAllocated := by
  simp only [updateView, andThen, initializeLeaderPing, initializeExpectPing]
  split
  next entered =>
    split
    next running =>
      split
      next leads => split <;> exact ⟨rfl, rfl⟩
      next follows => split <;> exact ⟨rfl, rfl⟩
    next failed => exact ⟨rfl, rfl⟩
  next refused => exact ⟨rfl, rfl⟩

end Node

end LibeventPaxos
