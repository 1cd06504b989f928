import LibeventPaxos.AnnounceReports
import LibeventPaxos.FailoverDurability

/-!
Reports stay true. A node that has reported its range for the next view has withdrawn from the view
it is in: it votes for no further request of it, and keeps the records it has.
-/
namespace LibeventPaxos

open Lib

namespace Comp

/-- No request voted for in the view of the node, or in a later one, lies above the highest request
seen. -/
def SeesVotes (nodeId : Int) (c : Comp) : Prop :=
  ∀ vs, c.Voted nodeId vs → vs.viewId.toNat < c.curView.viewId.toNat ∨
    (vstol vs).toNat ≤ (vstol c.highestSeenVs).toNat

section Votes

variable {c : Comp} {e : Env × CompEvent} {vs : ViewStamp}

/-- A node that acknowledges a request has seen it. -/
theorem acceptReq_seen (env : Env) (msgVs reqCanbeExed : ViewStamp) (nodeId : NodeId)
    (record : RequestRecord) (accepts : c.AcceptsReq env msgVs nodeId) :
    (vstol msgVs).toNat ≤ (vstol (c.handle (env,
      .message (.acceptReq msgVs reqCanbeExed nodeId record))).highestSeenVs).toNat := by
  obtain ⟨current, own, above, -⟩ := accepts
  obtain ⟨seen, toCommit, noted, -, ⟨-, up⟩, -⟩ := noteAcceptReq_cases c msgVs reqCanbeExed
  simp only [Comp.handle, consensusHandleMsg, handleAcceptReq]
  rw [(sameRecords_tryToExecute env _).seen]
  rcases storeAcceptReq_cases env c msgVs reqCanbeExed nodeId record with
    ⟨-, ignored⟩ | ⟨-, -, -, ⟨-, failed⟩ | ⟨-, stored⟩⟩
  · rcases ignored with older | stranger | old
    · omega
    · exact absurd (own stranger.1) stranger.2
    · omega
  · rw [failed, noted]
    exact up
  · rw [stored, noted]
    exact up

/-- A call votes for a request of the node's view or a later one, and has seen it. -/
theorem votesFor_seen (running : c.fault = none) (inView : Group.TakesInView c e)
    (votes : c.votesFor e = some vs) : c.curView.viewId.toNat ≤ vs.viewId.toNat ∧
      (vstol vs).toNat ≤ (vstol (c.handle e).highestSeenVs).toNat := by
  rw [votesFor] at votes
  cases takes : c.taken e with
  | some data =>
    rw [takes] at votes
    -- the leader numbers in the view of what it has seen, which is its own
    obtain rfl := Option.some.inj votes
    obtain ⟨sameView, -⟩ := inView.1 (by rw [takes]; exact Option.some_ne_none data)
    refine ⟨?_, ?_⟩
    · show c.curView.viewId.toNat ≤ c.highestSeenVs.viewId.toNat
      rw [sameView]
    · cases (handle_step c e running).1 with
      | stays nothing => rw [nothing] at takes; cases takes
      | takes data takes leader assigned view role seen => rw [seen]
      | enters newViewInfo event nothing => rw [nothing] at takes; cases takes
  | none =>
    rw [takes] at votes
    obtain ⟨⟨target, msg⟩, answers, acked⟩ := Option.bind_eq_some_iff.mp votes
    obtain ⟨env, event⟩ := e
    cases event with
    | message msg' =>
      cases msg' with
      | acceptReq msgVs reqCanbeExed nodeId record =>
        simp only [answer] at answers
        split at answers
        next accepts =>
          obtain ⟨rfl, rfl⟩ := Prod.mk.inj (Option.some.inj answers)
          obtain rfl := Option.some.inj acked
          exact ⟨accepts.1, acceptReq_seen env msgVs reqCanbeExed nodeId record accepts⟩
        next => cases answers
      | missingReq nodeId missingVs =>
        obtain ⟨reply, built, same⟩ := Option.map_eq_some_iff.mp answers
        obtain ⟨-, rfl⟩ := Prod.mk.inj same
        simp only [buildMissingAck] at built
        split at built
        next => cases built
        next value found =>
          split at built
          next fits =>
            obtain rfl := Option.some.inj built
            cases acked
          next => cases built
      | acceptAck | missingAck | forceExec | forwardReq => cases answers
    | submit data =>
      simp only [answer] at answers
      split at answers
      next => cases answers
      next secondary =>
        obtain ⟨-, rfl⟩ := Prod.mk.inj (Option.some.inj answers)
        cases acked
    | makeProgress | updateView | acceptorUpdateRecord => cases answers

/-- A node that enters a view before it has seen a request of it goes on seeing its votes. -/
theorem SeesVotes.handle {nodeId : Int} (sees : c.SeesVotes nodeId) (running : c.fault = none)
    (inView : Group.TakesInView c e)
    (unseen : ∀ newViewInfo, e.2 = .updateView newViewInfo →
      c.curView.viewId + 1 = newViewInfo.viewId →
        (vstol c.highestSeenVs).toNat ≤ (vstol ⟨newViewInfo.viewId, 0⟩).toNat) :
    (c.handle e).SeesVotes nodeId := by
  intro vs voted
  rcases voted_handle running voted with old | new
  swap
  · exact .inr (votesFor_seen running inView new).2
  have before := sees vs old
  cases (handle_step c e running).1 with
  | stays nothing assigned view role seen =>
    rw [view]
    exact before.imp_right fun below => below.trans seen
  | takes data some_data leader assigned view role seen =>
    obtain ⟨sameView, room⟩ := inView.1 (by rw [some_data]; exact Option.some_ne_none data)
    -- the stamp given is the highest seen from now on
    rw [view, seen]
    refine before.imp_right fun below => below.trans ?_
    have reqId : c.getNextViewStamp.reqId.toNat = c.highestSeenVs.reqId.toNat + 1 := by
      simp only [getNextViewStamp, UInt32.toNat_add, UInt32.toNat_one]
      omega
    have view : c.getNextViewStamp.viewId = c.highestSeenVs.viewId := rfl
    rw [vstol_toNat, vstol_toNat, reqId, view]
    omega
  | enters newViewInfo event nothing successor assigned view role seen =>
    have nonzero : newViewInfo.viewId.toNat ≠ 0 := fun zero =>
      inView.2 newViewInfo event (UInt32.toNat_inj.mp zero)
    have sum := congrArg UInt32.toNat successor
    have view_lt := c.curView.viewId.toNat_lt
    rw [UInt32.toNat_add, UInt32.toNat_one] at sum
    -- every vote so far is of an earlier view now, or lies below what has been seen
    rw [view, seen]
    rcases before with earlier | below
    · exact .inl (by omega)
    · exact .inr (below.trans (unseen newViewInfo event successor))

end Votes

end Comp

namespace Node

/-! ## Votes and records of one step -/

section Step

variable {node : Node} {e : NodeEnv × NodeEvent}

/-- What a call changes of a component, it changes of the node's. -/
theorem HasComp.voted {c : Comp} (has : HasComp c node) {nodeId : Int} {vs : ViewStamp} :
    node.comp.Voted nodeId vs ↔ c.Voted nodeId vs := by
  obtain ⟨fault, same⟩ := has
  rw [same]
  exact Iff.rfl

/-- A vote that a step adds is one of an active node, for a request of its view or a later one. -/
theorem voted_dispatch (running : node.comp.fault = none)
    (inView : ∀ event, Makes node e event → Group.TakesInView node.comp (e.1.toEnv, event))
    {nodeId : Int} {vs : ViewStamp} (voted : (node.dispatch e).comp.Voted nodeId vs) :
    node.comp.Voted nodeId vs ∨
      node.state = .active ∧ node.viewId.toNat ≤ vs.viewId.toNat := by
  obtain ⟨env, nodeEvent⟩ := e
  rcases dispatch_makes node (env, nodeEvent) running with alone | ⟨event, makes, -⟩
  · exact .inl (alone.voted.mp voted)
  · rcases Comp.voted_handle running (makes.2.1.voted.mp voted) with old | new
    · exact .inl old
    · refine .inr ⟨?_, (Comp.votesFor_seen running (inView event makes) new).1⟩
      -- what a node does outside the active state is no vote
      cases makes.1 with
      | message msg active => exact active
      | submit data active => exact active
      | makeProgress | updateView | acceptorUpdateRecord => cases new

theorem voted_kept (timed : Timed node) (enabled : machine.enabled node e) {nodeId : Int}
    {vs : ViewStamp} (voted : node.comp.Voted nodeId vs) :
    (node.dispatch e).comp.Voted nodeId vs := by
  rcases voted with ⟨a, member, same⟩ | ⟨call, member, same⟩
  · refine .inl ⟨a, ?_, same⟩
    rcases dispatch_makes node e enabled.1 with alone | ⟨event, makes, -⟩
    · obtain ⟨fault, kept⟩ := alone
      rw [kept]
      exact member
    · obtain ⟨fault, handled⟩ := makes.2.1
      rw [handled]
      show a ∈ (node.comp.handle (e.1.toEnv, event)).assigned
      cases (Comp.handle_step node.comp (e.1.toEnv, event) enabled.1).1 with
      | stays nothing assigned => rwa [assigned]
      | takes data takes leader assigned =>
        rw [assigned]
        exact List.mem_append_left _ member
      | enters newViewInfo event nothing successor assigned => rwa [assigned]
  · obtain ⟨fresh, calls, -⟩ := (dispatch_step timed e enabled).acks
    refine .inr ⟨call, ?_, same⟩
    rw [calls]
    exact List.mem_append_left _ member

/-- A record stays until the node has entered a later view than the record's. -/
theorem stored_kept (running : node.comp.fault = none)
    (keeps : ∀ event, Makes node e event → node.comp.KeepsLog (e.1.toEnv, event)) (vs : ViewStamp)
    (kept : node.comp.stored vs ≠ none ∨ vs.viewId.toNat < node.viewId.toNat) :
    (node.dispatch e).comp.stored vs ≠ none ∨
      vs.viewId.toNat < (node.dispatch e).viewId.toNat := by
  rcases dispatch_makes node e running with ⟨fault, same⟩ | ⟨event, makes, -⟩
  · rw [Node.viewId, same]
    exact kept
  · obtain ⟨fault, handled⟩ := makes.2.1
    rw [Node.viewId, handled]
    exact Group.stays_kept running (keeps event makes) vs kept

theorem seesVotes_dispatch (running : node.comp.fault = none)
    (inView : ∀ event, Makes node e event → Group.TakesInView node.comp (e.1.toEnv, event))
    (unseen : node.Enters e.2 →
      (vstol node.comp.highestSeenVs).toNat ≤ (vstol ⟨node.viewId + 1, 0⟩).toNat)
    {nodeId : Int} (sees : node.comp.SeesVotes nodeId) :
    (node.dispatch e).comp.SeesVotes nodeId := by
  obtain ⟨env, nodeEvent⟩ := e
  rcases dispatch_makes node (env, nodeEvent) running with ⟨fault, same⟩ | ⟨event, makes, -⟩
  · rw [same]
    exact sees
  · have handled : (node.comp.handle (env.toEnv, event)).SeesVotes nodeId := by
      refine sees.handle running (inView event makes) ?_
      rintro newViewInfo rfl successor
      cases makes.1 with
      | updateView _ _ enters => exact successor ▸ unseen enters
    obtain ⟨fault, comp⟩ := makes.2.1
    rw [comp]
    exact handled

end Step

end Node

namespace Cluster

variable {n : ℕ}

open Node

/-! ## What a report says -/

/-- The node has left the view, or waits in it for the leader of the next one. -/
def Withdrawn (view : UInt32) (node : Node) : Prop :=
  node.state = .postLele ∧ node.viewId = view ∨ view.toNat < node.viewId.toNat

/-- The report is true of the node: it has voted for nothing beyond its range and for no slot it
lists, it stores the rest of the range, and what lies before the range has a majority. -/
structure Upholds (g : Cluster n) (k : Fin n) (view : UInt32) (report : Report) : Prop where
  voted : ∀ r, Group.Votes (comps g) ⟨view, r⟩ k → r.toNat ≤ report.stop.toNat ∧ r ∉ report.ids
  stored : ∀ r, report.start.toNat < r.toNat → r.toNat ≤ report.stop.toNat → r ∉ report.ids →
    (g k).comp.stored ⟨view, r⟩ ≠ none ∨ view.toNat < (g k).viewId.toNat
  decided : ∀ r, r ≠ 0 → r.toNat ≤ report.start.toNat → Group.Quorum (comps g) ⟨view, r⟩

/-- A node that knows its votes and the commit point reports the truth. -/
theorem upholds_own {g : Cluster n} (backed : Group.Backed (comps g)) {k : Fin n}
    (sees : (g k).comp.SeesVotes ((k : ℕ) : Int)) (seen : SeesView (g k).comp) {report : Report}
    (start : report.start = (g k).comp.ownReport.start)
    (stop : report.stop = (g k).comp.ownReport.stop)
    (empty : ∀ r ∈ report.ids, (g k).comp.stored ⟨(g k).viewId, r⟩ = none)
    (found : ∀ r ∈ (g k).comp.ownReport.ids, r ≠ report.start → r ∈ report.ids) :
    Upholds g k (g k).viewId report := by
  have range := undecidedRange_of_seen seen
  have stop' : report.stop = (g k).comp.highestSeenVs.reqId := by
    rw [stop, Comp.ownReport, range]
  have start' : report.start = if (g k).comp.highestToCommitVs.viewId = (g k).viewId then
      (g k).comp.highestToCommitVs.reqId else 0 := by
    rw [start, Comp.ownReport, range]
    rfl
  constructor
  · -- a node stores what it votes for
    intro r voted
    refine ⟨?_, fun listed => ?_⟩
    · rcases sees _ voted with earlier | below
      · exact absurd earlier (Nat.lt_irrefl _)
      · have view : (g k).comp.highestSeenVs.viewId = (g k).viewId := seen
        rw [vstol_toNat, vstol_toNat, view] at below
        rw [stop']
        simp only at below
        omega
    · rcases backed.kept k _ voted with there | later
      · exact there (empty r listed)
      · exact Nat.lt_irrefl _ later
  · -- only the start of the range may be left out of the ids
    intro r above below missing
    refine .inl fun absent => missing (found r ?_ ?_)
    · rw [Comp.ownReport, Comp.mem_missingIds]
      rw [start, Comp.ownReport] at above
      rw [stop, Comp.ownReport] at below
      exact ⟨Nat.le_of_lt above, below, absent⟩
    · rintro rfl
      exact Nat.lt_irrefl _ above
  · -- the range starts at the commit point, or at 0 if that is of an earlier view
    intro r request below
    rw [start'] at below
    split at below
    next inView => exact backed.point k ⟨(g k).viewId, r⟩ inView.symm request below
    next other =>
      rw [UInt32.toNat_zero] at below
      exact absurd (UInt32.toNat_inj.mp (Nat.le_zero.mp below)) request

section Step

variable {g : Cluster n} {e : ClusterEvent n}

/-- Votes of a cluster only grow in number. -/
theorem votes_kept (timed : (g e.1).Timed) (enabled : (machine Booted).enabled g e)
    {vs : ViewStamp} {k : Fin n} (voted : Group.Votes (comps g) vs k) :
    Group.Votes (comps (act g e)) vs k := by
  by_cases actor : k = e.1
  · subst actor
    have kept : ((g e.1).dispatch e.2).comp.Voted ((e.1 : ℕ) : Int) vs :=
      voted_kept timed enabled.1 voted
    rw [← act_self g e] at kept
    exact kept
  · have same := act_other g e k actor
    rw [Group.Votes, comps] at voted ⊢
    rwa [same]

/-- Withdrawn from a view, or in an election, a node votes for no request of the view. -/
theorem votes_withdrawn (enabled : (machine Booted).enabled g e)
    (steady : Follows Group.Steady g e) {view r : UInt32} {k : Fin n}
    (idle : k = e.1 → (g k).state ≠ .active ∨ view.toNat < (g k).viewId.toNat)
    (voted : Group.Votes (comps (act g e)) ⟨view, r⟩ k) : Group.Votes (comps g) ⟨view, r⟩ k := by
  by_cases actor : k = e.1
  · subst actor
    have new : (act g e e.1).comp.Voted ((e.1 : ℕ) : Int) ⟨view, r⟩ := voted
    rw [act_self] at new
    rcases voted_dispatch enabled.1.1 (fun event makes => (steady event makes).inView) new with
      old | ⟨active, current⟩
    · exact old
    · rcases idle rfl with electing | left
      · exact absurd active electing
      · exact absurd left (Nat.not_lt.mpr current)
  · have same := act_other g e k actor
    rw [Group.Votes, comps] at voted ⊢
    rwa [same] at voted

theorem Upholds.act {view : UInt32} {k : Fin n} {report : Report}
    (upholds : Upholds g k view report) (timed : (g e.1).Timed)
    (enabled : (machine Booted).enabled g e) (steady : Follows Group.Steady g e)
    (idle : k = e.1 → (g k).state ≠ .active ∨ view.toNat < (g k).viewId.toNat) :
    Upholds (act g e) k view report where
  voted r voted := upholds.voted r (votes_withdrawn enabled steady idle voted)
  stored r above below missing := by
    have before := upholds.stored r above below missing
    by_cases actor : k = e.1
    · subst actor
      rw [act_self]
      exact stored_kept enabled.1.1 (fun event makes => (steady event makes).keeps) _ before
    · rw [act_other g e k actor]
      exact before
  decided r request below :=
    (upholds.decided r request below).mono fun _ _ => votes_kept timed enabled

theorem Withdrawn.act {view : UInt32} {k : Fin n} (withdrawn : Withdrawn view (g k))
    (timed : (g e.1).Timed) (enabled : (machine Booted).enabled g e)
    (noWrap : noViewWrap (g e.1) e.2) : Withdrawn view (Cluster.act g e k) := by
  by_cases actor : k = e.1
  swap
  · rwa [act_other g e k actor]
  subst actor
  have moves := viewId_act timed enabled noWrap e.1
  rw [act_self] at moves ⊢
  rcases (dispatch_step timed e.2 enabled.1).moves with ⟨same, stays⟩ | ⟨-, -, successor⟩
  · have view' : ((g e.1).dispatch e.2).viewId = (g e.1).viewId := congrArg View.viewId same
    rw [Withdrawn, view']
    exact withdrawn.imp_left fun post => ⟨stays post.1, post.2⟩
  · refine .inr ?_
    rcases moves with same | next
    · have kept : ((g e.1).dispatch e.2).viewId = (g e.1).viewId := congrArg View.viewId same
      exact absurd (successor.symm.trans kept).symm (viewId_succ_ne _).symm
    · rcases withdrawn with ⟨-, rfl⟩ | left
      · omega
      · omega

end Step

end Cluster

end LibeventPaxos
