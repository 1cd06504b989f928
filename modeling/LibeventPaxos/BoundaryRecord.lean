import LibeventPaxos.PingCatchUp

/-!
The record `update_view` writes for a view and its two readers: `leader_election_build_close`
takes it for a `view`, `try_to_execute` for a `view_boundary`.
-/
namespace LibeventPaxos

open Lib

namespace Node

/-! ## What the readers should find -/

/-- A `LELE_FIN` that carries the view. -/
structure Carries (view : View) (msg : LeleMsg) : Prop where
  type : msg.type = .fin
  nextView : msg.nextView = view.viewId
  nodeId : msg.nodeId = view.leaderId
  content : msg.content = view.leaderId
  lastReq : msg.lastReq = view.reqId

/-- The node takes part in the election for the view, and its database takes the boundary. -/
structure Lags (env : NodeEnv) (view : View) (node : Node) : Prop where
  running : node.comp.fault = none
  electing : node.state = .inLele ∨ node.state = .postLele
  behind : node.viewId + 1 = view.viewId
  nextView : node.electionMod.nextView = view.viewId
  stores : StoresBoundary env view

/-- Both readers recover the view, and so does a node that is sent the `LELE_FIN`. -/
structure Recovers (view : View) (node : Node) : Prop where
  close : ∀ env, ∃ msg, node.leaderElectionBuildClose env view.viewId = some msg ∧ Carries view msg
  boundary : ∃ value, node.comp.stored ⟨view.viewId, 0⟩ = some value ∧
    value.asBoundary = ⟨view.viewId, view.reqId⟩
  adopted : ∀ env env' msg lagging, node.leaderElectionBuildClose env view.viewId = some msg →
    Lags env' view lagging →
    (lagging.handleMsg env' (.leaderElection msg [])).comp.curView = view

/-- The bytes at the address of the pointer happen to read as the view, in both layouts. -/
structure StackReads (bytes : ViewBytes) (view : View) : Prop where
  viewId : lowHalf bytes.word0.toNat = view.viewId
  boundaryReq : highHalf bytes.word0.toNat = view.reqId
  leaderId : bytes.word1.toBitVec.toInt = view.leaderId
  reqId : lowHalf bytes.word2.toNat = view.reqId

/-! ## What they find -/

section Written

variable {env : NodeEnv} {node : Node} {view : View}

/-- A node has moved only if its database took the boundary. -/
theorem storesBoundary_of_moved (successor : node.viewId + 1 = view.viewId)
    (moved : (node.updateView env view).comp.curView = view) : StoresBoundary env view := by
  by_contra refused
  have kept : (node.updateView env view).comp.curView = node.comp.curView :=
    curView_updateView_refused view refused
  have same : node.viewId = view.viewId := congrArg View.viewId (kept.symm.trans moved)
  exact viewId_succ_ne node.viewId (successor.trans same.symm)

/-- Under the key of the view lie the bytes at the address of `update_view`'s pointer. -/
theorem stored_updateView (running : node.comp.fault = none)
    (successor : node.viewId + 1 = view.viewId) (later : 2 ≤ view.viewId.toNat)
    (moved : (node.updateView env view).comp.curView = view) :
    (node.updateView env view).comp.stored ⟨view.viewId, 0⟩ = some (.view env.stack) := by
  obtain ⟨-, fault, comp⟩ := comp_updateView view running successor
    (storesBoundary_of_moved successor moved)
  have second : view.viewId ≠ 1 := by
    intro first
    rw [first] at later
    exact absurd later (by decide)
  -- the record that is deleted afterwards belongs to the view before
  have other : vstol ⟨view.viewId, 0⟩ ≠ vstol ⟨view.viewId - 1, view.reqId + 1⟩ := by
    intro same
    have views : view.viewId = view.viewId - 1 := congrArg ViewStamp.viewId ((vstol_inj _ _).mp same)
    rw [← successor, UInt32.add_sub_cancel] at views
    exact viewId_succ_ne node.viewId views
  rw [comp]
  change (Comp.boundaryDb env.toEnv node.comp view).retrieveRecord (vstol ⟨view.viewId, 0⟩) = _
  rw [Comp.boundaryDb, if_neg second, Database.retrieveRecord_deleteRecord, if_neg other,
    Database.retrieveRecord_storeRecord_self]

/-- A lagging node takes over what a `LELE_FIN` carries. -/
theorem curView_handle_fin {lagging : Node} {msg : LeleMsg} (lags : Lags env view lagging)
    (carries : Carries view msg) :
    (lagging.handleMsg env (.leaderElection msg [])).comp.curView = view := by
  have current : ¬ msg.nextView ≠ lagging.viewId + 1 := by
    rw [carries.nextView, lags.behind]
    exact not_not_intro rfl
  have sameElection : lagging.electionMod.nextView = msg.nextView := by
    rw [lags.nextView, carries.nextView]
  have content : (⟨msg.nextView, msg.content, msg.lastReq⟩ : View) = view := by
    rw [carries.nextView, carries.content, carries.lastReq]
  simp only [handleMsg, if_pos lags.electing, handleLeaderElectionMsg, if_neg current,
    leaderElectionDo, carries.type, leaderElectionHandleClose, if_pos sameElection, content]
  exact (inView_updateView view lags.running lags.behind lags.stores).curView

end Written

/-- The boundary is recovered only where the stack happens to hold the view: the address of the
pointer is passed to `store_record`, and the two structures order their fields differently. -/
theorem recovers_iff (env : NodeEnv) (node : Node) (view : View)
    (running : node.comp.fault = none) (successor : node.viewId + 1 = view.viewId)
    (later : 2 ≤ view.viewId.toNat) (moved : (node.updateView env view).comp.curView = view) :
    Recovers view (node.updateView env view) ↔ StackReads env.stack view := by
  have stored := stored_updateView running successor later moved
  have built : ∀ env', (node.updateView env view).leaderElectionBuildClose env' view.viewId =
      some (buildClose env' (asView (.view env.stack))) := by
    intro env'
    rw [leaderElectionBuildClose]
    change Option.map _ ((node.updateView env view).comp.stored ⟨view.viewId, 0⟩) = _
    rw [stored, Option.map_some]
  constructor
  · intro recovers
    obtain ⟨msg, sent, carries⟩ := recovers.close env
    obtain rfl := Option.some.inj ((built env).symm.trans sent)
    obtain ⟨value, found, reads⟩ := recovers.boundary
    obtain rfl := Option.some.inj (stored.symm.trans found)
    exact ⟨carries.nextView, congrArg ViewStamp.reqId reads, carries.content, carries.lastReq⟩
  · intro stack
    have carries : ∀ env', Carries view (buildClose env' (asView (.view env.stack))) := by
      intro env'
      exact ⟨rfl, stack.viewId, stack.leaderId, stack.leaderId, stack.reqId⟩
    constructor
    · intro env'
      exact ⟨_, built env', carries env'⟩
    · refine ⟨_, stored, ?_⟩
      rw [DbValue.asBoundary, stack.viewId, stack.boundaryReq]
    · intro env' env'' msg lagging sent lags
      obtain rfl := Option.some.inj ((built env').symm.trans sent)
      exact curView_handle_fin lags (carries env')

/-- The stack happens to hold the second view, led by node 1 and without a request. -/
theorem lucky_stack_recovers :
    let env : NodeEnv := { lateEnv with stack := ⟨2, 1, 0⟩ }
    Recovers ⟨2, 1, 0⟩ (leaderOfFirst.updateView env ⟨2, 1, 0⟩) :=
  (recovers_iff { lateEnv with stack := ⟨2, 1, 0⟩ } leaderOfFirst ⟨2, 1, 0⟩ (by decide) (by decide)
    (by decide) (by decide)).mpr ⟨by decide, by decide, by decide, by decide⟩

/-- Where it holds the pointer, the message for the second view claims to be of another one. -/
theorem pointer_not_recovered :
    ¬ ∀ (env : NodeEnv) (node : Node) (view : View), node.comp.fault = none →
      node.viewId + 1 = view.viewId → 2 ≤ view.viewId.toNat →
      (node.updateView env view).comp.curView = view →
        Recovers view (node.updateView env view) := by
  intro always
  have recovers := always { lateEnv with stack := ⟨140732920755440, 7, 0⟩ } leaderOfFirst ⟨2, 1, 7⟩
    (by decide) (by decide) (by decide) (by decide)
  obtain ⟨msg, sent, carries⟩ := recovers.close lateEnv
  have nextView := carries.nextView
  have lookup : Option.map LeleMsg.nextView (some msg) = some 2 := congrArg some nextView
  rw [← sent] at lookup
  exact absurd lookup (by decide)

end Node

end LibeventPaxos
