import LibeventPaxos.ViewFence

/-!
Two nodes whose views differ, and what their pings do about it: a `PING_REQ` moves a node that is
one view behind, a `PING_ACK` never does.
-/
namespace LibeventPaxos

open Lib

namespace Node

/-! ## The two ways a node may learn of a view -/

/-- It handles a `PING_REQ` of the other node, or what the other node answers to its own. -/
inductive PingPath where
  | request
  | answer
  deriving DecidableEq, Repr

/-- What a call of the other node has sent to a target. -/
def returned (before after : Node) (target : NodeId) : List SysMsg :=
  ((after.sent.drop before.sent.length).filter fun call => call.1 = target).map Prod.snd

/-- `env` is what node `a` draws from outside in its call, `env'` what node `b` does. -/
def afterPing (env env' : NodeEnv) (timestamp : TimeVal) (a b : Node) : PingPath → Node
  | .request => a.handleMsg env (.pingReq b.nodeId b.comp.curView timestamp)
  | .answer =>
    let asked := b.handleMsg env' (.pingReq a.nodeId a.comp.curView timestamp)
    (returned b asked a.nodeId).foldl (fun node msg => node.handleMsg env msg) a

/-- The node is where `update_view` leaves a node in the view. -/
structure InView (view : View) (node : Node) : Prop where
  curView : node.comp.curView = view
  role : node.comp.myRole = if view.leaderId = node.nodeId then .leader else .secondary
  seen : node.comp.highestSeenVs = ⟨view.viewId, 0⟩
  toCommit : node.comp.highestToCommitVs = ⟨view.viewId, 0⟩
  committed : node.comp.highestCommittedVs = ⟨view.viewId, 0⟩

/-- A node one view behind has taken over the view, any other has kept its own. -/
def CatchesUp (a b after : Node) : Prop :=
  if b.viewId = a.viewId + 1 then InView b.comp.curView after
  else after.comp.curView = a.comp.curView

/-- The database takes the boundary of the view. -/
def StoresBoundary (env : NodeEnv) (view : View) : Prop := view.viewId = 1 ∨ env.storeOk = true

section CatchUp

variable {env env' : NodeEnv} {timestamp : TimeVal} {a b : Node}

/-- Starting a timer is all that follows the change of view. -/
private theorem comp_startPing (node : Node) (leads : Bool) :
    let after := if leads then node.initializeLeaderPing else node.initializeExpectPing
    after.nodeId = node.nodeId ∧ after.comp = { node.comp with fault := after.comp.fault } := by
  intro after
  cases leads with
  | true =>
    simp only [after, if_true, initializeLeaderPing]
    split
    next freed => exact ⟨rfl, rfl⟩
    next kept => exact ⟨rfl, rfl⟩
  | false =>
    simp only [after, Bool.false_eq_true, if_false, initializeExpectPing]
    split
    next freed => exact ⟨rfl, rfl⟩
    next kept => exact ⟨rfl, rfl⟩

/-- The component after `update_view` into the next view; a freed ping timer is found only later. -/
theorem comp_updateView (view : View) (running : a.comp.fault = none)
    (successor : a.viewId + 1 = view.viewId) (stores : StoresBoundary env view) :
    (a.updateView env view).nodeId = a.nodeId ∧ ∃ fault, (a.updateView env view).comp =
      { Comp.consensusUpdateRole { a.comp with
          curView := view, db := Comp.boundaryDb env.toEnv a.comp view } with fault := fault } := by
  have entered : Comp.updateView env.toEnv a.comp view = Comp.consensusUpdateRole
      { a.comp with curView := view, db := Comp.boundaryDb env.toEnv a.comp view } := by
    have next : a.comp.curView.viewId + 1 = view.viewId := successor
    simp only [Comp.updateView, if_pos next, Comp.storeViewBoundary, Comp.boundaryDb]
    rcases stores with first | accepts
    · simp [first, running]
    · by_cases first : view.viewId = 1
      · simp [first, running]
      · simp [first, accepts, running]
  rw [updateView, if_pos successor]
  simp only [entered]
  rw [andThen_of_running _ _ (by exact running)]
  obtain ⟨nodeId, comp⟩ := comp_startPing { a with
    comp := Comp.consensusUpdateRole { a.comp with
      curView := view, db := Comp.boundaryDb env.toEnv a.comp view }
    state := .active } (isLeader { a with
      comp := Comp.consensusUpdateRole { a.comp with
        curView := view, db := Comp.boundaryDb env.toEnv a.comp view }
      state := .active })
  exact ⟨nodeId, _, comp⟩

/-- `update_view` into the next view, whatever has become of the ping timer. -/
theorem inView_updateView (view : View) (running : a.comp.fault = none)
    (successor : a.viewId + 1 = view.viewId) (stores : StoresBoundary env view) :
    InView view (a.updateView env view) := by
  have role : ∀ nodeId : Int, (if view.leaderId ≠ nodeId then ConRole.secondary else .leader) =
      if view.leaderId = nodeId then .leader else .secondary := by
    intro nodeId
    by_cases same : view.leaderId = nodeId
    · simp [same]
    · simp [same]
  obtain ⟨nodeId, fault, comp⟩ := comp_updateView view running successor stores
  constructor
  · rw [comp]
    rfl
  · rw [nodeId, comp]
    exact role _
  · rw [comp]
    rfl
  · rw [comp]
    rfl
  · rw [comp]
    rfl

/-- Without the boundary in the database the node stops in its old view. -/
theorem curView_updateView_refused (view : View) (refused : ¬ StoresBoundary env view) :
    (a.updateView env view).comp.curView = a.comp.curView := by
  have later : view.viewId ≠ 1 := fun first => refused (.inl first)
  have fails : env.storeOk = false := by
    rw [← Bool.not_eq_true]
    exact fun stores => refused (.inr stores)
  rw [updateView]
  split
  next successor =>
    have next : a.comp.curView.viewId + 1 = view.viewId := successor
    have failed : Comp.updateView env.toEnv a.comp view = a.comp.fail .assertion := by
      simp [Comp.updateView, if_pos next, Comp.storeViewBoundary, later, fails, Comp.fail]
    simp only [failed]
    rw [andThen_of_fault _ _ (by simp [Comp.fail])]
    rfl
  next other => rfl

theorem sent_updateView (view : View) : (a.updateView env view).sent = a.sent := by
  rw [updateView]
  split
  next successor =>
    simp only [andThen]
    split
    next running =>
      split
      next leads =>
        rw [initializeLeaderPing]
        split <;> rfl
      next follows =>
        rw [initializeExpectPing]
        split <;> rfl
    next faulty => rfl
  next other => rfl

/-- A ping of a view that is not the next one leaves the view as it is. -/
theorem curView_handlePingReq (nodeId : NodeId) (view : View)
    (other : a.viewId + 1 ≠ view.viewId) :
    (a.handlePingReq env nodeId view timestamp).comp.curView = a.comp.curView := by
  rw [handlePingReq, if_neg other]
  split
  next behind => rfl
  next level =>
    split
    next same =>
      simp only
      split
      next electing =>
        split
        next leads => rfl
        next follows =>
          split <;> rfl
      next settled =>
        split
        next leads => rfl
        next follows =>
          split <;> rfl
    next apart => rfl

/-- A node answers a ping only from one view ahead. -/
theorem sent_handlePingReq (nodeId : NodeId) (view : View) :
    (b.handlePingReq env' nodeId view timestamp).sent = b.sent ++
      if b.viewId = view.viewId + 1 then [(nodeId, .pingAck b.nodeId b.comp.curView env'.now)]
      else [] := by
  have apart : b.viewId + 1 = view.viewId → b.viewId ≠ view.viewId + 1 := by
    intro successor behind
    have first := congrArg UInt32.toNat successor
    have second := congrArg UInt32.toNat behind
    rw [UInt32.toNat_add, UInt32.toNat_one] at first second
    have less := b.viewId.toNat_lt
    omega
  rw [handlePingReq]
  split
  next successor =>
    rw [if_neg (apart successor), List.append_nil, sent_updateView]
  next other =>
    split
    next behind => rfl
    next level =>
      rw [List.append_nil]
      split
      next same =>
        simp only
        split
        next electing =>
          split
          next leads => rfl
          next follows =>
            split <;> rfl
        next settled =>
          split
          next leads => rfl
          next follows =>
            split <;> rfl
      next far => rfl

/-- What the other node answers never changes a node. -/
theorem afterPing_answer (active : a.state ≠ .postLele) (active' : b.state ≠ .postLele) :
    afterPing env env' timestamp a b .answer = a := by
  have asked : b.handleMsg env' (.pingReq a.nodeId a.comp.curView timestamp) =
      b.handlePingReq env' a.nodeId a.comp.curView timestamp := by
    simp only [handleMsg, if_pos active']
  have answers : returned b (b.handlePingReq env' a.nodeId a.comp.curView timestamp) a.nodeId =
      if b.viewId = a.comp.curView.viewId + 1 then
        [SysMsg.pingAck b.nodeId b.comp.curView env'.now] else [] := by
    rw [returned, sent_handlePingReq, List.drop_left]
    split
    next ahead => simp
    next other => rfl
  simp only [afterPing, asked, answers]
  split
  next ahead =>
    rw [List.foldl_cons, List.foldl_nil]
    have ignored : a.handleMsg env (.pingAck b.nodeId b.comp.curView env'.now) =
        a.handlePingAck env b.comp.curView := by
      simp only [handleMsg, if_pos active]
    rw [ignored]
    exact handlePingAck_ignored env a b.comp.curView
  next other => rfl

end CatchUp

/-- A node one view behind catches up by handling a `PING_REQ` of the other node, if its database
takes the boundary; no other message and no other difference of views moves it. -/
theorem catchesUp_iff (env env' : NodeEnv) (timestamp : TimeVal) (a b : Node)
    (running : a.comp.fault = none) (active : a.state ≠ .postLele) (active' : b.state ≠ .postLele)
    (path : PingPath) :
    CatchesUp a b (afterPing env env' timestamp a b path) ↔
      (b.viewId = a.viewId + 1 → path = .request ∧ StoresBoundary env b.comp.curView) := by
  rw [CatchesUp]
  split
  next ahead =>
    have moved : a.comp.curView ≠ b.comp.curView := by
      intro same
      have views : a.viewId = b.viewId := congrArg View.viewId same
      exact viewId_succ_ne a.viewId (ahead.symm.trans views.symm)
    cases path with
    | request =>
      have handled : afterPing env env' timestamp a b .request =
          a.updateView env b.comp.curView := by
        simp only [afterPing, handleMsg, if_pos active, handlePingReq]
        exact if_pos ahead.symm
      rw [handled]
      constructor
      · intro entered _
        refine ⟨rfl, ?_⟩
        by_contra refused
        have kept : (a.updateView env b.comp.curView).comp.curView = a.comp.curView :=
          curView_updateView_refused b.comp.curView refused
        exact moved (kept.symm.trans entered.curView)
      · intro condition
        exact inView_updateView b.comp.curView running ahead.symm (condition ahead).2
    | answer =>
      rw [afterPing_answer active active']
      constructor
      · intro entered
        exact absurd entered.curView moved
      · intro condition
        cases (condition ahead).1
  next other =>
    refine ⟨fun _ ahead => absurd ahead other, fun _ => ?_⟩
    cases path with
    | request =>
      simp only [afterPing, handleMsg, if_pos active]
      exact curView_handlePingReq b.nodeId b.comp.curView (fun same => other same.symm)
    | answer => rw [afterPing_answer active active']

/-- Node 1 of three, started outside the group: it has not entered a view. -/
def outsider : Node := init false 1 3 ⟨8, 0⟩ ⟨0, 0⟩ lateEnv

/-- Node 0 of three, started as its own leader in view 1. -/
def leaderOfFirst : Node := init true 0 3 ⟨8, 0⟩ ⟨0, 0⟩ lateEnv

theorem outsider_catches_up :
    CatchesUp outsider leaderOfFirst
      (afterPing lateEnv lateEnv ⟨9, 0⟩ outsider leaderOfFirst .request) :=
  (catchesUp_iff lateEnv lateEnv ⟨9, 0⟩ outsider leaderOfFirst (by decide) (by decide) (by decide)
    .request).mpr fun _ => ⟨rfl, .inl (by decide)⟩

/-- Node 1 of three, after it has joined view 1 and been elected for view 2. -/
def leaderOfSecond : Node :=
  (outsider.updateView lateEnv ⟨1, 0, 0⟩).updateView lateEnv ⟨2, 1, 0⟩

/-- The leader of view 1 still pings, is answered with the view of its successor and stays. -/
theorem answered_leader_stays :
    ¬ ∀ (env env' : NodeEnv) (timestamp : TimeVal) (a b : Node), a.comp.fault = none →
      a.state ≠ .postLele → b.state ≠ .postLele → ∀ path : PingPath,
        CatchesUp a b (afterPing env env' timestamp a b path) := by
  intro always
  have entered := always lateEnv lateEnv ⟨9, 0⟩ leaderOfFirst leaderOfSecond (by decide)
    (by decide) (by decide) .answer
  rw [CatchesUp, if_pos (by decide)] at entered
  exact absurd entered.curView (by decide)

end Node

end LibeventPaxos
