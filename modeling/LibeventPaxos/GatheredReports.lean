import LibeventPaxos.VouchedReports

/-!
The reports the elected node gathers. Every acknowledgement on its way is a true report of its
sender, and as long as the leader's merges fit, its range is what all nodes heard have reported.
-/
namespace LibeventPaxos

open Lib

namespace Node

/-- What the boundary of the next view needs of a step: an announcement meets a node that reports
its own range, and an acknowledgement that is merged fits the range of the election it is for. -/
def ReportsFit (node : Node) (e : NodeEnv × NodeEvent) : Prop :=
  ∀ call ∈ node.electionMsg e.2,
    (∀ announced ∈ node.announceCall e.1 call.1, ReportsRange announced.1 announced.2) ∧
    ∀ edge ∈ node.mergeCall ⟨e.1, call.1, call.2⟩,
      (node.Overtakes call.1 ∨ node.state = .postLele) ∧
        (edge.Matched ⟨call.1.startReq, call.1.lastReq, call.2⟩ ∨
          edge.Passed ⟨call.1.startReq, call.1.lastReq, call.2⟩ ∨
            edge.Covered e.1 ⟨call.1.startReq, call.1.lastReq, call.2⟩)

/-- A node that enters a view has seen no request of it. -/
def EntersUnseen (node : Node) (event : NodeEvent) : Prop :=
  node.Enters event →
    (vstol node.comp.highestSeenVs).toNat ≤ (vstol ⟨node.viewId + 1, 0⟩).toNat

instance (edge : EdgeMod) (report : Report) : Decidable (edge.Matched report) :=
  decidable_of_iff ((∀ r ∈ report.ids, r ∈ edge.remaining report) ∧
      (∃ slot ∈ edge.remaining report, ∀ r ∈ report.ids, r.toNat < slot.toNat) ∧
      (edge.start ∈ edge.remaining report → edge.start = 0 ∨
        edge.start ∉ report.ids ∧ edge.start.toNat ≤ report.stop.toNat))
    ⟨fun ⟨listed, larger, first⟩ => ⟨listed, larger, first⟩,
      fun matched => ⟨matched.listed, matched.larger, matched.first⟩⟩

instance (edge : EdgeMod) (report : Report) : Decidable (edge.Passed report) :=
  decidable_of_iff (edge.remaining report = [] ∧
      (∀ r ∈ report.ids, r.toNat ≤ (edge.mergedStart report).toNat) ∧
      (∃ r ∈ report.ids, edge.stop.toNat < r.toNat) ∧
      ∀ r ∈ report.ids, edge.stop.toNat < r.toNat → report.ids.length ≤ r.toNat)
    ⟨fun ⟨cleared, low, beyond, large⟩ => ⟨cleared, low, beyond, large⟩,
      fun passed => ⟨passed.cleared, passed.low, passed.beyond, passed.large⟩⟩

instance (env : NodeEnv) (edge : EdgeMod) (report : Report) : Decidable (edge.Covered env report) :=
  decidable_of_iff (edge.remaining report = [] ∧ (∀ r ∈ report.ids, r.toNat ≤ edge.stop.toNat) ∧
      report.ids.length ≤ (env.heapIds report.ids.length).toNat)
    ⟨fun ⟨cleared, within, behind⟩ => ⟨cleared, within, behind⟩,
      fun covered => ⟨covered.cleared, covered.within, covered.behind⟩⟩

instance (node : Node) (e : NodeEnv × NodeEvent) : Decidable (node.ReportsFit e) :=
  inferInstanceAs (Decidable (∀ call ∈ node.electionMsg e.2,
    (∀ announced ∈ node.announceCall e.1 call.1, ReportsRange announced.1 announced.2) ∧ _))

instance (node : Node) (event : NodeEvent) : Decidable (node.EntersUnseen event) :=
  inferInstanceAs (Decidable (_ → _ ≤ _))

theorem electionMsg_handles {node : Node} {event : NodeEvent} {msg : LeleMsg} {data : List UInt32}
    (handled : node.electionMsg event = some (msg, data)) :
    event = .message (.leaderElection msg data) ∧ node.Handles msg := by
  cases event with
  | message sysMsg =>
    cases sysMsg with
    | leaderElection msg' data' =>
      simp only [electionMsg] at handled
      split at handled
      next election =>
        obtain ⟨rfl, rfl⟩ := Prod.mk.inj (Option.some.inj handled)
        exact ⟨rfl, electing_of_reads election.1, election.2⟩
      next => cases handled
    | _ => cases handled
  | _ => cases handled

end Node

namespace Cluster

variable {n : ℕ}

open Node

/-! ## Acknowledgements on their way -/

/-- The node has reported the view with this acknowledgement. -/
structure Reports (g : Cluster n) (k : Fin n) (view : UInt32) (msg : LeleMsg) (data : List UInt32) :
    Prop where
  nodeId : msg.nodeId = ((k : ℕ) : Int)
  counted : EdgeMod.Counted msg data
  upholds : Upholds g k view ⟨msg.startReq, msg.lastReq, data⟩
  withdrawn : Withdrawn view (g k)

/-- The message is an acknowledgement for the view after one the node has reported with it. -/
def AckOf (g : Cluster n) (k : Fin n) (sysMsg : SysMsg) : Prop :=
  ∃ msg data view, sysMsg = .leaderElection msg data ∧ msg.nextView = view + 1 ∧
    Reports g k view msg data

/-- The range of the leader is what it has reported itself and what the nodes it has heard have. -/
structure Gathered (g : Cluster n) (i : Fin n) (view : UInt32) (own : Report) (acks : List Ack)
    (edge : EdgeMod) : Prop where
  absorbed : Absorbed own ((i : ℕ) : Int) acks edge
  own : Upholds g i view own
  heard : ∀ ack ∈ acks, ∃ k, Reports g k view ack.msg ack.data

/-- What the node has sent and keeps is true, and so is what it has gathered as the leader of the
next view. -/
structure Reporting (g : Cluster n) (k : Fin n) (node : Node) : Prop where
  sent : ∀ call ∈ node.acksSent, AckOf g k call.2
  kept : ∀ msg, node.electionMod.announceAckMsg = some msg → AckOf g k msg
  gathered : node.comp.fault = none → node.state = .postLele →
    node.electionMod.newLeader = ((k : ℕ) : Int) →
      ∃ own acks, Gathered g k (g k).viewId own acks node.electionMod.edge

section Step

variable {g : Cluster n} {e : ClusterEvent n}

/-- Steps in which calls are steady and no view number wraps keep reports true. -/
structure Keeps (g : Cluster n) (e : ClusterEvent n) : Prop where
  timed : (g e.1).Timed
  enabled : (machine Booted).enabled g e
  steady : Follows Group.Steady g e
  noWrap : noViewWrap (g e.1) e.2

theorem Reports.act {view : UInt32} {k : Fin n} {msg : LeleMsg} {data : List UInt32}
    (reports : Reports g k view msg data) (keeps : Keeps g e) :
    Reports (Cluster.act g e) k view msg data where
  nodeId := reports.nodeId
  counted := reports.counted
  upholds := reports.upholds.act keeps.timed keeps.enabled keeps.steady fun _ => by
    rcases reports.withdrawn with ⟨post, -⟩ | left
    · rw [post]
      exact .inl NodeState.noConfusion
    · exact .inr left
  withdrawn := reports.withdrawn.act keeps.timed keeps.enabled keeps.noWrap

theorem AckOf.act {k : Fin n} {sysMsg : SysMsg} (ack : AckOf g k sysMsg) (keeps : Keeps g e) :
    AckOf (Cluster.act g e) k sysMsg := by
  obtain ⟨msg, data, view, same, next, reports⟩ := ack
  exact ⟨msg, data, view, same, next, reports.act keeps⟩

theorem Gathered.act {i : Fin n} {view : UInt32} {own : Report} {acks : List Ack} {edge : EdgeMod}
    (gathered : Gathered g i view own acks edge) (keeps : Keeps g e)
    (idle : i = e.1 → (g i).state ≠ .active) :
    Gathered (Cluster.act g e) i view own acks edge where
  absorbed := gathered.absorbed
  own := gathered.own.act keeps.timed keeps.enabled keeps.steady fun actor => .inl (idle actor)
  heard ack member := by
    obtain ⟨k, reports⟩ := gathered.heard ack member
    exact ⟨k, reports.act keeps⟩

/-- A node that is in the post stage after a step has not moved. -/
theorem viewId_of_post (keeps : Keeps g e) (post : (Cluster.act g e e.1).state = .postLele) :
    (Cluster.act g e e.1).viewId = (g e.1).viewId := by
  rw [act_self] at post ⊢
  rcases (dispatch_step keeps.timed e.2 keeps.enabled.1).moves with ⟨same, -⟩ | ⟨-, active, -⟩
  · exact congrArg View.viewId same
  · rw [active] at post
    cases post

/-! ## Steps that announce nothing -/

theorem Reporting.repeats (reporting : Reporting g e.1 (g e.1)) (keeps : Keeps g e)
    (repeats : Repeats (g e.1) (Cluster.act g e e.1)) :
    Reporting (Cluster.act g e) e.1 (Cluster.act g e e.1) where
  sent call member := by
    -- what is sent again is the acknowledgement the node keeps
    rcases repeats.acks call member with old | kept
    · exact (reporting.sent call old).act keeps
    · exact (reporting.kept call.2 kept).act keeps
  kept msg kept := (reporting.kept msg (repeats.kept msg kept)).act keeps
  gathered _ post leads := by
    obtain ⟨before, edge, newLeader⟩ := repeats.post post
    obtain ⟨own, acks, gathered⟩ :=
      reporting.gathered keeps.enabled.1.1 before (newLeader.symm.trans leads)
    have idle : (g e.1).state ≠ .active := by
      rw [before]
      exact NodeState.noConfusion
    rw [edge, viewId_of_post keeps post]
    exact ⟨own, acks, gathered.act keeps fun _ => idle⟩

end Step

/-! ## Announcements -/

/-- The acknowledgement of an announcement is true if the node has found its own holes. -/
theorem ackOf_ackFor {g' : Cluster n} {k : Fin n} {called : Node} {msg : LeleMsg}
    {data : List UInt32} (backed : Group.Backed (comps g'))
    (sees : (g' k).comp.SeesVotes ((k : ℕ) : Int)) (comp : (g' k).comp = called.comp)
    (nodeId : called.nodeId = ((k : ℕ) : Int)) (post : (g' k).state = .postLele)
    (nextView : called.electionMod.nextView = called.viewId + 1) (seen : SeesView called.comp)
    (holes : ScansOwnHoles called.comp called.electionMod.edge) (ack : AckFor called msg data) :
    AckOf g' k (.leaderElection msg data) := by
  have viewId : (g' k).viewId = called.viewId := by rw [Node.viewId, comp, Node.viewId]
  have ids : data = called.comp.missingIds called.electionMod.edge.start
      called.electionMod.edge.stop := congrArg Report.ids ack.report
  have start : msg.startReq = called.comp.ownReport.start := congrArg Report.start ack.report
  have stop : msg.lastReq = called.comp.ownReport.stop := congrArg Report.stop ack.report
  refine ⟨msg, data, (g' k).viewId, rfl, ?_, ack.nodeId.trans nodeId, ⟨ack.count, ?_, ?_⟩, ?_,
    .inl ⟨post, rfl⟩⟩
  · rw [ack.nextView, nextView, viewId]
  · show data.Pairwise fun a b => a.toNat < b.toNat
    rw [ids]
    exact called.comp.missingIds_sorted _ _
  · intro r member
    have inside := holes.inside r (ids ▸ member)
    rw [← start, ← stop] at inside
    exact inside
  · refine upholds_own backed sees ?_ ?_ ?_ ?_ ?_
    · rw [comp]
      exact seen
    · rw [comp]
      exact start
    · rw [comp]
      exact stop
    · intro r member
      rw [viewId, comp]
      exact ((Comp.mem_missingIds _ _ _ r).mp (ids ▸ member)).2.2
    · intro r member other
      rw [comp] at member
      have absent := ((Comp.mem_missingIds _ _ _ r).mp member).2.2
      obtain ⟨low, high⟩ := holes.found r member (start ▸ other)
      show r ∈ data
      rw [ids]
      exact (Comp.mem_missingIds _ _ _ r).mpr ⟨low, high, absent⟩

/-- The elected node begins to gather with its own report. -/
theorem gathered_own {g' : Cluster n} {k : Fin n} {called after : Node} {announce : LeleMsg}
    (backed : Group.Backed (comps g')) (sees : (g' k).comp.SeesVotes ((k : ℕ) : Int))
    (comp : (g' k).comp = called.comp) (nodeId : called.nodeId = ((k : ℕ) : Int))
    (range : ReportsRange called announce) (announced : Announced called announce.content after)
    (own : announce.content = called.nodeId) :
    ∃ own acks, Gathered g' k (g' k).viewId own acks after.electionMod.edge := by
  refine ⟨called.comp.ownReport, [], ?_, ?_, fun ack member => by cases member⟩
  · have absorbed := (announced.startsFrom range own).absorbed
    have nodeId' : after.nodeId = ((k : ℕ) : Int) := by
      rw [Node.nodeId, announced.comp]
      exact nodeId
    rw [nodeId'] at absorbed
    exact absorbed
  · have seen : SeesView (g' k).comp := by
      rw [comp]
      exact range.seen
    rw [← comp]
    exact upholds_own backed sees seen rfl rfl
      (fun r member => ((Comp.mem_missingIds _ _ _ r).mp member).2.2) fun r member _ => member

/-- A node that has handled an announcement reports the truth, or begins to gather with its own
report. -/
theorem reporting_announced {g' : Cluster n} {k : Fin n} {called after : Node} {announce : LeleMsg}
    (backed : Group.Backed (comps g')) (sees : (g' k).comp.SeesVotes ((k : ℕ) : Int))
    (member : (g' k).Member n (k : ℕ)) (range : ReportsRange called announce)
    (announced : Announced called announce.content after) (finishes : Finishes after (g' k))
    (nextView : called.electionMod.nextView = called.viewId + 1)
    (sent : ∀ call ∈ called.acksSent, AckOf g' k call.2)
    (kept : ∀ msg, called.electionMod.announceAckMsg = some msg → AckOf g' k msg) :
    Reporting g' k (g' k) := by
  have comp : (g' k).comp = called.comp := finishes.comp.trans announced.comp
  have nodeId : called.nodeId = ((k : ℕ) : Int) := by
    rw [Node.nodeId, ← comp]
    exact member.nodeId
  have post : (g' k).state = .postLele := finishes.state.trans announced.state
  by_cases own : announce.content = called.nodeId
  · -- the leader keeps and sends no acknowledgement
    obtain ⟨-, -, keeps, sends⟩ := announced.leads own
    refine ⟨fun call member => ?_, fun msg known => ?_, fun _ _ _ => ?_⟩
    · rw [finishes.acks, sends] at member
      exact sent call member
    · rw [finishes.electionMod, keeps] at known
      exact kept msg known
    · rw [finishes.electionMod]
      exact gathered_own backed sees comp nodeId range announced own
  · -- any other node reports its range
    have holes := range.follows own
    obtain ⟨msg, data, ack, keeps, sends⟩ := announced.follows own holes.below range.seen
    have reports : AckOf g' k (.leaderElection msg data) :=
      ackOf_ackFor backed sees comp nodeId post nextView range.seen holes ack
    refine ⟨fun call member => ?_, fun msg' known => ?_, fun _ _ leads => ?_⟩
    · rw [finishes.acks, sends] at member
      rcases List.mem_append.mp member with old | new
      · exact sent call old
      · rw [List.mem_singleton.mp new]
        exact reports
    · rw [finishes.electionMod, keeps] at known
      rw [← Option.some.inj known]
      exact reports
    · rw [finishes.electionMod, announced.newLeader] at leads
      exact absurd (leads.trans nodeId.symm) own

/-! ## Acknowledgements at the leader -/

/-- An acknowledgement that the leader of the next view handles in a step. -/
structure HandlesAck (g : Cluster n) (e : ClusterEvent n) (ack : Ack) : Prop where
  env : ack.env = e.2.1
  handled : (g e.1).electionMsg e.2.2 = some (ack.msg, ack.data)
  type : ack.msg.type = .announceAck
  heard : ∃ k, Reports g k (g e.1).viewId ack.msg ack.data
  named : (g e.1).state = .postLele → (g e.1).electionMod.newLeader = ((e.1 : ℕ) : Int)

/-- The leader before the merge: the announcement is made up for if the acknowledgement has
overtaken it. -/
structure Primed (g : Cluster n) (i : Fin n) (ack : Ack) (mid : Node) : Prop where
  comp : mid.comp = (g i).comp
  leaderPing : mid.evLeaderPing = (g i).evLeaderPing
  kept : mid.electionMod.announceAckMsg = (g i).electionMod.announceAckMsg
  acks : mid.acksSent = (g i).acksSent
  nextView : mid.electionMod.nextView = (g i).electionMod.nextView
  posts : (g i).Overtakes ack.msg ∨ (g i).state = .postLele → mid.state = .postLele ∧
    mid.electionMod.newLeader = ((i : ℕ) : Int)
  gathered : mid.state = .postLele → mid.electionMod.newLeader = ((i : ℕ) : Int) →
    ∃ own acks, Gathered g i (g i).viewId own acks mid.electionMod.edge

section Ack

variable {g : Cluster n} {e : ClusterEvent n} {ack : Ack}

theorem HandlesAck.primed (handles : HandlesAck g e ack) (keeps : Keeps g e)
    (reporting : Reporting g e.1 (g e.1)) (member : (g e.1).Member n (e.1 : ℕ))
    (backed : Group.Backed (comps g)) (sees : (g e.1).comp.SeesVotes ((e.1 : ℕ) : Int))
    (fits : (g e.1).ReportsFit e.2) (runs : ((g e.1).earlyAnnounce ack).comp.fault = none) :
    Primed g e.1 ack ((g e.1).earlyAnnounce ack) := by
  by_cases overtakes : (g e.1).Overtakes ack.msg
  · -- the acknowledgement came first, so the leader sets its range up now
    have early : (g e.1).earlyAnnounce ack =
        (g e.1).leaderElectionHandleAnnounce ack.env ack.msg := if_pos overtakes
    have range : ReportsRange (g e.1) ack.msg := by
      refine (fits _ handles.handled).1 (g e.1, ack.msg) ?_
      simp only [announceCall, handles.type]
      exact if_pos overtakes
    rw [early] at runs ⊢
    have elects := elects_leaderElectionHandleAnnounce ack.env (g e.1) ack.msg
    have announced := handleAnnounce_announced runs
    have own : ack.msg.content = (g e.1).nodeId := overtakes.2.symm
    have content : ack.msg.content = ((e.1 : ℕ) : Int) := own.trans member.nodeId
    obtain ⟨-, -, kept, acks⟩ := announced.leads own
    exact ⟨announced.comp, elects.leaderPing, kept, acks, elects.nextView, fun _ =>
      ⟨announced.state, announced.newLeader.trans content⟩, fun _ _ =>
      gathered_own backed sees rfl member.nodeId range announced own⟩
  · have early : (g e.1).earlyAnnounce ack = g e.1 := if_neg overtakes
    rw [early]
    refine ⟨rfl, rfl, rfl, rfl, rfl, ?_, fun post leads =>
      reporting.gathered keeps.enabled.1.1 post leads⟩
    rintro (again | post)
    · exact absurd again overtakes
    · exact ⟨post, handles.named post⟩

/-- A merge that fits adds the report of the acknowledgement to those gathered. -/
theorem HandlesAck.gathers (handles : HandlesAck g e ack) (fits : (g e.1).ReportsFit e.2)
    (runs : ((g e.1).earlyAnnounce ack).comp.fault = none)
    (primed : Primed g e.1 ack ((g e.1).earlyAnnounce ack))
    {msgCount : NodeId → Bool} {node' : Node}
    (counts : ((g e.1).earlyAnnounce ack).electionMod.edge.msgCount = some msgCount)
    (group : InGroup ((g e.1).earlyAnnounce ack).groupSize ack.sender)
    (unheard : msgCount ack.sender = false)
    (takes : TakesAck ack.env ((g e.1).earlyAnnounce ack) ack.msg ack.data msgCount node') :
    ((g e.1).earlyAnnounce ack).state = .postLele ∧
      ((g e.1).earlyAnnounce ack).electionMod.newLeader = ((e.1 : ℕ) : Int) ∧
      ∃ own acks, Gathered g e.1 (g e.1).viewId own (ack :: acks) node'.electionMod.edge ∧
        ∀ nodeId, Function.update msgCount ack.sender true nodeId = true ↔
          nodeId = ((e.1 : ℕ) : Int) ∨ nodeId ∈ (ack :: acks).map Ack.sender := by
  obtain ⟨env, msg, data⟩ := ack
  obtain rfl : env = e.2.1 := handles.env
  have merges : (g e.1).mergeCall ⟨e.2.1, msg, data⟩ = some
      (((g e.1).earlyAnnounce ⟨e.2.1, msg, data⟩).electionMod.edge.hearing msg.nodeId) := by
    rw [mergeCall, if_pos]
    · rfl
    · refine ⟨handles.type, runs, group, ?_, ?_⟩
      · rw [counts]
        rfl
      · rw [EdgeMod.counts, counts, Option.elim_some]
        exact unheard
  obtain ⟨inElection, matches'⟩ := (fits _ handles.handled).2 _ merges
  obtain ⟨post, leads⟩ := primed.posts inElection
  refine ⟨post, leads, ?_⟩
  obtain ⟨own, acks, gathered⟩ := primed.gathered post leads
  obtain ⟨k, reports⟩ := handles.heard
  -- counting the sender changes nothing the merge looks at
  have unheard_fits : ((g e.1).earlyAnnounce ⟨e.2.1, msg, data⟩).electionMod.edge.Matched
        ⟨msg.startReq, msg.lastReq, data⟩ ∨
      ((g e.1).earlyAnnounce ⟨e.2.1, msg, data⟩).electionMod.edge.Passed
        ⟨msg.startReq, msg.lastReq, data⟩ ∨
      ((g e.1).earlyAnnounce ⟨e.2.1, msg, data⟩).electionMod.edge.Covered e.2.1
        ⟨msg.startReq, msg.lastReq, data⟩ := by
    rcases matches' with matched | passed | covered
    · exact .inl ⟨matched.listed, matched.larger, matched.first⟩
    · exact .inr (.inl ⟨passed.cleared, passed.low, passed.beyond, passed.large⟩)
    · exact .inr (.inr ⟨covered.cleared, covered.within, covered.behind⟩)
  obtain ⟨edge', result, absorbed⟩ := gathered.absorbed.merge reports.counted unheard_fits
  refine ⟨own, acks, ⟨?_, gathered.own, ?_⟩, ?_⟩
  · have edge : node'.electionMod.edge = edge' := by
      rw [takes.edge]
      exact congrArg Prod.fst result
    rw [edge]
    exact absorbed
  · intro other member
    rcases List.mem_cons.mp member with rfl | old
    · exact ⟨k, reports⟩
    · exact gathered.heard other old
  · obtain ⟨msgCount', counts', members⟩ := gathered.absorbed.counted
    obtain rfl := Option.some.inj (counts.symm.trans counts')
    intro nodeId
    rw [Function.update_apply, List.map_cons, List.mem_cons]
    split
    next same => simp [same]
    next other =>
      rw [members nodeId]
      simp [other]

/-- A handled acknowledgement is merged after the announcement it may have to make up for. -/
theorem HandlesAck.act_eq (handles : HandlesAck g e ack) :
    act g e e.1 = ((g e.1).earlyAnnounce ack).andThen fun mid =>
      mid.mergeAnnounceAck ack.env ack.msg ack.data := by
  obtain ⟨i, env, event⟩ := e
  obtain ⟨env', msg, data⟩ := ack
  obtain rfl : env' = env := handles.env
  have type : msg.type = .announceAck := handles.type
  rw [act_self, dispatch_electionMsg handles.handled]
  simp only [leaderElectionDo, type]
  rfl

theorem HandlesAck.reporting (handles : HandlesAck g e ack) (keeps : Keeps g e)
    (reporting : Reporting g e.1 (g e.1)) (member : (g e.1).Member n (e.1 : ℕ))
    (backed : Group.Backed (comps g)) (sees : (g e.1).comp.SeesVotes ((e.1 : ℕ) : Int))
    (fits : (g e.1).ReportsFit e.2) : Reporting (act g e) e.1 (act g e e.1) := by
  have final := handles.act_eq
  have idle : e.1 = e.1 → (g e.1).state ≠ .active := fun _ =>
    (electionMsg_handles handles.handled).2.1
  by_cases runs : ((g e.1).earlyAnnounce ack).comp.fault = none
  swap
  · -- the announcement that was made up for has failed
    rw [andThen_of_fault _ _ runs] at final
    have overtakes : (g e.1).Overtakes ack.msg := by
      by_contra late
      have early : (g e.1).earlyAnnounce ack = g e.1 := if_neg late
      rw [early] at runs
      exact runs keeps.enabled.1.1
    have early : (g e.1).earlyAnnounce ack =
        (g e.1).leaderElectionHandleAnnounce ack.env ack.msg := if_pos overtakes
    rw [early] at final runs
    obtain ⟨kept, acks⟩ := handleAnnounce_failed runs keeps.enabled.1.1
    rw [← final] at kept acks runs
    refine ⟨fun call member => ?_, fun msg known => ?_, fun faultless => absurd faultless runs⟩
    · exact (reporting.sent call (acks ▸ member)).act keeps
    · exact (reporting.kept msg (kept ▸ known)).act keeps
  rw [andThen_of_running _ _ runs] at final
  have primed := handles.primed keeps reporting member backed sees fits runs
  have ping : ((g e.1).earlyAnnounce ack).evLeaderPing ≠ .freed := by
    rw [primed.leaderPing]
    exact keeps.timed.kept
  rcases mergeAnnounceAck_cases ack.env _ ack.msg ack.data runs ping with
    ⟨same, -, state⟩ | ⟨msgCount, counts, group, unheard, takes⟩
  · -- the sender was counted before, so nothing is merged
    rw [← final] at same state
    refine ⟨fun call member => ?_, fun msg known => ?_, fun _ post leads => ?_⟩
    · rw [same.acks, primed.acks] at member
      exact (reporting.sent call member).act keeps
    · rw [same.kept, primed.kept] at known
      exact (reporting.kept msg known).act keeps
    · obtain ⟨own, acks, gathered⟩ :=
        primed.gathered (state.symm.trans post) (same.newLeader.symm.trans leads)
      rw [same.edge, viewId_of_post keeps post]
      exact ⟨own, acks, gathered.act keeps idle⟩
  · -- a leader that has opened the view is not in the post stage any more
    rw [← final] at takes
    refine ⟨fun call member => ?_, fun msg known => ?_, fun _ post _ => ?_⟩
    · rw [takes.acks, primed.acks] at member
      exact (reporting.sent call member).act keeps
    · rw [takes.kept, primed.kept] at known
      exact (reporting.kept msg known).act keeps
    · obtain ⟨-, -, own, acks, gathered, -⟩ :=
        handles.gathers fits runs primed counts group unheard takes
      rw [viewId_of_post keeps post]
      exact ⟨own, ack :: acks, gathered.act keeps idle⟩

end Ack

/-! ## Every step -/

/-- What holds in every state of a run in which reports fit. -/
structure Reported (g : Cluster n) : Prop where
  sees : ∀ k, (g k).comp.SeesVotes ((k : ℕ) : Int)
  reporting : ∀ k, Reporting g k (g k)

section Step

variable {leader : UInt32 → Fin n} {stray before : View → Prop} {g : Cluster n}
  {e : ClusterEvent n}

/-- An acknowledgement that is handled is a true report and has reached the leader it is for. -/
theorem Reported.handles (reported : Reported g) (seated : Seated leader stray before g)
    (timed : (g e.1).Timed) (sent : Sent g e.1 e.2.2) {msg : LeleMsg} {data : List UInt32}
    (handled : (g e.1).electionMsg e.2.2 = some (msg, data)) (type : msg.type = .announceAck) :
    HandlesAck g e ⟨e.2.1, msg, data⟩ := by
  obtain ⟨event, electing, nextView⟩ := electionMsg_handles handled
  rw [event] at sent
  obtain ⟨source, call, member, reaches, same⟩ := sent
  have isAck : call ∈ (g source).acksSent := by
    refine List.mem_filter.mpr ⟨member, ?_⟩
    rw [same]
    exact decide_eq_true type
  refine ⟨rfl, handled, type, ?_, fun post => ?_⟩
  · obtain ⟨msg', data', view, same', next, reports⟩ := (reported.reporting source).sent call isAck
    obtain ⟨rfl, rfl⟩ := SysMsg.leaderElection.inj (same.symm.trans same')
    have view' : view = (g e.1).viewId := by
      rw [next] at nextView
      exact (UInt32.add_left_inj 1).mp nextView
    exact ⟨source, view' ▸ reports⟩
  · have acks := acks_of_reaches (seated.acks source call member) reaches
    rw [same] at acks
    have own := (acks type).1
    rw [(seated.post e.1 post).named, timed.election electing, ← nextView, ← own]

/-- A step that handles an announcement keeps true what has been reported. -/
theorem Reporting.announces (old : Reporting g e.1 (g e.1))
    (sees : (act g e e.1).comp.SeesVotes ((e.1 : ℕ) : Int)) (member : (g e.1).Member n (e.1 : ℕ))
    (member' : (act g e e.1).Member n (e.1 : ℕ)) (backed' : Group.Backed (comps (act g e)))
    (keeps : Keeps g e) (fits : (g e.1).ReportsFit e.2) {msg : LeleMsg} {data : List UInt32}
    (handled : (g e.1).electionMsg e.2.2 = some (msg, data)) (type : msg.type ≠ .announceAck)
    {called : Node} {announce : LeleMsg}
    (announces : (g e.1).announceCall e.2.1 msg = some (called, announce)) :
    Reporting (act g e) e.1 (act g e e.1) := by
  have final : act g e e.1 = (g e.1).leaderElectionDo e.2.1 msg data := by
    rw [act_self]
    exact dispatch_electionMsg handled
  obtain ⟨elects, quiet⟩ := announceCall_called announces
  have finishes := leaderElectionDo_finishes data announces type
  rw [← final] at finishes
  have running : called.comp.fault = none := by
    rw [(leaderElectionDo_announceCall data announces).1]
    exact keeps.enabled.1.1
  have sent : ∀ call ∈ called.acksSent, AckOf (act g e) e.1 call.2 := by
    intro call member
    exact (old.sent call (quiet.acks ▸ member)).act keeps
  have kept : ∀ msg, called.electionMod.announceAckMsg = some msg →
      AckOf (act g e) e.1 msg := by
    intro msg known
    exact (old.kept msg (quiet.kept ▸ known)).act keeps
  by_cases runs :
      (called.leaderElectionHandleAnnounce e.2.1 announce).comp.fault = none
  · have range := (fits _ handled).1 (called, announce) announces
    have electing := (electionMsg_handles handled).2.1
    refine reporting_announced backed' sees member' range
      (handleAnnounce_announced runs) finishes ?_ sent kept
    rw [elects.nextView, member.timed.election electing, Node.viewId, Node.viewId,
      elects.curView]
  · -- a failed announcement keeps and sends nothing, and is the node's last call
    obtain ⟨kept', acks⟩ := handleAnnounce_failed runs running
    refine ⟨fun call member => ?_, fun msg known => ?_, fun faultless => ?_⟩
    · rw [finishes.acks, acks] at member
      exact sent call member
    · rw [finishes.electionMod, kept'] at known
      exact kept msg known
    · rw [finishes.comp] at faultless
      exact absurd faultless runs

/-- Steps keep true what has been reported. -/
theorem Reported.act (reported : Reported g) (seated : Seated leader stray before g)
    (member : (g e.1).Member n (e.1 : ℕ)) (member' : (act g e e.1).Member n (e.1 : ℕ))
    (backed : Group.Backed (comps g)) (backed' : Group.Backed (comps (act g e))) (keeps : Keeps g e)
    (fits : (g e.1).ReportsFit e.2) (unseen : (g e.1).EntersUnseen e.2.2) :
    Reported (Cluster.act g e) := by
  have sees : ∀ k, (Cluster.act g e k).comp.SeesVotes ((k : ℕ) : Int) := by
    intro k
    by_cases actor : k = e.1
    · subst actor
      rw [act_self]
      exact seesVotes_dispatch keeps.enabled.1.1
        (fun event makes => (keeps.steady event makes).inView) unseen (reported.sees e.1)
    · rw [act_other g e k actor]
      exact reported.sees k
  refine ⟨sees, fun k => ?_⟩
  by_cases actor : k = e.1
  swap
  · -- what another node has reported stays true
    have old := reported.reporting k
    rw [act_other g e k actor]
    refine ⟨fun call member => (old.sent call member).act keeps,
      fun msg kept => (old.kept msg kept).act keeps, fun runs post leads => ?_⟩
    obtain ⟨own, acks, gathered⟩ := old.gathered runs post leads
    rw [act_other g e k actor]
    exact ⟨own, acks, gathered.act keeps fun same => absurd same actor⟩
  subst actor
  have old := reported.reporting e.1
  cases handled : (g e.1).electionMsg e.2.2 with
  | none =>
    refine old.repeats keeps ?_
    rw [act_self]
    exact dispatch_repeats (g e.1) e.2 handled
  | some call =>
    obtain ⟨msg, data⟩ := call
    by_cases type : msg.type = .announceAck
    · have handles := reported.handles seated keeps.timed keeps.enabled.2 handled type
      exact handles.reporting keeps old member backed (reported.sees e.1) fits
    · have final : Cluster.act g e e.1 = (g e.1).leaderElectionDo e.2.1 msg data := by
        rw [act_self]
        exact dispatch_electionMsg handled
      cases announces : (g e.1).announceCall e.2.1 msg with
      | none =>
        refine old.repeats keeps ?_
        rw [final]
        refine (leaderElectionDo_unannounced announces ?_).repeats
        rw [mergeCall, if_neg]
        exact fun merges => type merges.1
      | some call =>
        obtain ⟨called, announce⟩ := call
        exact old.announces (sees e.1) member member' backed' keeps fits handled type announces

end Step

end Cluster

end LibeventPaxos
