import LibeventPaxos.NodeCalls
import LibeventPaxos.ViewAgreement
import LibeventPaxos.ViewInstallation
import LibeventPaxos.Lib.Simulation

/-!
A cluster refines a group of components. Each step of a node is one call of its component or none,
and the messages between components are those the nodes have sent, so what holds of a group under
any order of calls holds of the components of a cluster with its timers and its elections.
-/
namespace LibeventPaxos

open Lib

namespace Node

/-! ## The call a step makes -/

/-- The event takes the node to this call of its component. -/
def Makes (node : Node) (e : NodeEnv × NodeEvent) (event : CompEvent) : Prop :=
  Calls node e.2 event ∧ HasComp (node.comp.handle (e.1.toEnv, event)) (node.dispatch e) ∧
    ∀ newViewInfo, event = .updateView newViewInfo → (node.dispatch e).comp.curView = newViewInfo

section Makes

variable {node : Node}

/-- The timer callback runs `consensus_make_progress` and touches timers only. -/
private theorem makeProgress_comp (env : NodeEnv) (leads : node.isLeader = true) :
    (node.dispatch (env, .makeProgress)).comp =
      Comp.consensusMakeProgress env.toEnv node.comp := by
  have leads' : ({ node with evMakeProgress := .idle } : Node).isLeader = true := leads
  simp only [dispatch, makeProgressOn, leads', if_true, andThen]
  split
  next => split <;> rfl
  next => rfl

/-- A step either leaves the component alone or makes one call of it, which has failed if the
component has. -/
theorem dispatch_makes (node : Node) (e : NodeEnv × NodeEvent) (running : node.comp.fault = none) :
    HasComp node.comp (node.dispatch e) ∨ ∃ event, Makes node e event ∧
      ((node.dispatch e).comp.fault = none →
        (node.comp.handle (e.1.toEnv, event)).fault = none) := by
  rcases dispatch_calls node e running with alone | ⟨event, calls, handled⟩
  · exact .inl alone
  · obtain ⟨env, nodeEvent⟩ := e
    cases calls with
    | message msg active =>
      have same : (node.dispatch (env, .message (.consensus msg))).comp =
          node.comp.handle (env.toEnv, .message msg) := by
        simp only [dispatch, handleMsg, if_pos active, Comp.handle]
      exact .inr ⟨_, ⟨.message msg active, handled, fun _ other => by cases other⟩,
        fun after => same ▸ after⟩
    | submit data active =>
      have same : (node.dispatch (env, .message (.requestSubmit data))).comp =
          node.comp.handle (env.toEnv, .submit data) := by
        simp only [dispatch, handleMsg, if_pos active, Comp.handle]
      exact .inr ⟨_, ⟨.submit data active, handled, fun _ other => by cases other⟩,
        fun after => same ▸ after⟩
    | makeProgress leads =>
      have same : (node.dispatch (env, .makeProgress)).comp =
          node.comp.handle (env.toEnv, .makeProgress) := makeProgress_comp env leads
      exact .inr ⟨_, ⟨.makeProgress leads, handled, fun _ other => by cases other⟩,
        fun after => same ▸ after⟩
    | updateView _ newViewInfo enters successor =>
      rcases Comp.updateView_cases env.toEnv node.comp newViewInfo running with
        ⟨-, other⟩ | ⟨-, ⟨-, failed⟩ | entered⟩
      · exact absurd successor other
      · -- a view that could not be written is not entered
        obtain ⟨fault, same⟩ := handled
        refine .inl ⟨fault, ?_⟩
        rw [same, Comp.handle, failed]
        rfl
      · refine .inr ⟨_, ⟨.updateView _ newViewInfo enters successor, handled, ?_⟩, fun _ => ?_⟩
        · rintro _ ⟨⟩
          obtain ⟨fault, same⟩ := handled
          rw [same, Comp.handle, entered]
          rfl
        · rw [Comp.handle, entered]
          exact running
    | acceptorUpdateRecord _ record electing =>
      exact .inr ⟨_, ⟨.acceptorUpdateRecord _ record electing, handled,
        fun _ other => by cases other⟩, fun _ => running⟩

end Makes

end Node

namespace Cluster

variable {n : ℕ}

/-! ## Refinement -/

/-- The component of every node that runs, and of a node that does not run but for its fault. -/
def Shows (g : Cluster n) (h : Group n) : Prop :=
  ∀ i, Node.HasComp (h i) (g i) ∧ ((g i).comp.fault = none → (g i).comp = h i)

/-- Every call a step makes of a component is allowed. -/
def Follows (allowed : Comp → Env × CompEvent → Prop) (g : Cluster n) (e : ClusterEvent n) : Prop :=
  ∀ event, Node.Makes (g e.1) e.2 event → allowed (g e.1).comp (e.2.1.toEnv, event)

theorem Shows.upCalls {g : Cluster n} {h : Group n} (shows : Shows g h) (i : Fin n) :
    (g i).comp.upCalls = (h i).upCalls := by
  obtain ⟨fault, same⟩ := (shows i).1
  rw [same]

/-- The network of the cluster carries the messages of the group. -/
private theorem Shows.sent {g : Cluster n} {h : Group n} (shows : Shows g h) (i : Fin n)
    {nodeEvent : NodeEvent} {event : CompEvent} (calls : Node.Calls (g i) nodeEvent event)
    (sent : Sent g i nodeEvent) : Group.Sent h i event := by
  cases calls with
  | message msg active =>
    obtain ⟨source, call, member, reaches, received⟩ := sent
    rw [shows.upCalls source] at member
    exact ⟨source, call, member, reaches, received⟩
  | submit | makeProgress | updateView | acceptorUpdateRecord => trivial

private theorem Shows.intact {g : Cluster n} {h : Group n} (shows : Shows g h) (i : Fin n)
    {nodeEvent : NodeEvent} {event : CompEvent} (calls : Node.Calls (g i) nodeEvent event)
    (intact : Intact g i nodeEvent) : Group.Intact h i event := by
  cases calls with
  | message msg active =>
    cases msg with
    | missingAck nodeId missingVs record =>
      obtain ⟨source, call, member, reaches, same⟩ := intact
      rw [shows.upCalls source] at member
      exact ⟨source, call, member, reaches, same⟩
    | acceptReq | acceptAck | missingReq | forceExec | forwardReq => trivial
  | submit | makeProgress | updateView | acceptorUpdateRecord => trivial

/-- One step of a cluster is one step of the group it shows, or none. -/
theorem Shows.step {allowed : Group n → GroupEvent n → Prop} {seed : Option (Fin n)}
    {g : Cluster n} {h : Group n} (shows : Shows g h) (e : ClusterEvent n)
    (follows : ∀ event, Node.Makes (g e.1) e.2 event → (g e.1).comp = h e.1 →
      allowed h (e.1, e.2.1.toEnv, event)) (running : (g e.1).comp.fault = none)
    (sent : Sent g e.1 e.2.2) :
    ∃ h', (Group.machine n seed).Run allowed h h' ∧ Shows (act g e) h' := by
  have same := (shows e.1).2 running
  rcases Node.dispatch_makes (g e.1) e.2 running with alone | ⟨event, makes, faultless⟩
  · refine ⟨h, .refl, fun i => ?_⟩
    by_cases acts : i = e.1
    · subst acts
      rw [act_self, ← same]
      exact ⟨alone, alone.running running⟩
    · rw [act_other g e i acts]
      exact shows i
  · refine ⟨Group.act h (e.1, e.2.1.toEnv, event), .step .refl ?_ ⟨?_, ?_⟩, fun i => ?_⟩
    · exact follows event makes same
    · rw [← same]
      exact running
    · exact shows.sent e.1 makes.1 sent
    · by_cases acts : i = e.1
      · subst acts
        have handled := makes.2.1
        rw [act_self, Group.act_self h (e.1, e.2.1.toEnv, event), ← same]
        exact ⟨handled, fun after => handled.running (faultless after) after⟩
      · rw [act_other g e i acts, Group.act_other h (e.1, e.2.1.toEnv, event) i acts]
        exact shows i

/-- The components of a cluster are a group, whatever the steps allow their calls. -/
theorem cluster_simulates_group (initial : Cluster n → Prop) (seed : Option (Fin n))
    (allowed : Comp → Env × CompEvent → Prop) :
    (machine initial).Simulates (Follows allowed) (Group.machine n seed)
      (fun h e => allowed (h e.1) e.2) Shows := by
  intro g h e _ shows follows enabled
  exact shows.step e (fun event makes same => same ▸ follows event makes) enabled.1.1 enabled.2

/-! ## Elected leaders -/

/-- Every node's component. -/
def comps (g : Cluster n) : Group n := fun i => (g i).comp

/-- The seed of a cluster whose first view, if there is one, is led by `leader 1`. -/
def seedOf (leader : UInt32 → Fin n) (g : Cluster n) : Option (Fin n) :=
  if (g (leader 1)).viewId ≠ 0 then some (leader 1) else none

/-- A cluster that has booted shows a group that has started. -/
theorem Booted.shows {leader : UInt32 → Fin n} {g : Cluster n} (booted : Booted g)
    (seeds : ∀ i, (g i).viewId ≠ 0 → leader 1 = i) :
    Shows g (Group.start n (seedOf leader g)) := by
  have same : ∀ i, (g i).comp = Group.start n (seedOf leader g) i := by
    intro i
    obtain ⟨seed, expectPingTimeval, now, env, start⟩ := booted i
    have led : seed = decide (seedOf leader g = some i) := by
      cases seed with
      | true =>
        have active : (g i).viewId ≠ 0 := by
          rw [start]
          show (1 : UInt32) ≠ 0
          decide
        rw [seedOf, seeds i active, if_pos active, decide_eq_true rfl]
      | false =>
        -- a node that boots outside every view is not the seed
        have waiting : (g i).viewId = 0 := by
          rw [start]
          rfl
        symm
        rw [decide_eq_false_iff_not, seedOf]
        split
        next active =>
          intro isSeed
          rw [Option.some.inj isSeed] at active
          exact active waiting
        next none => exact Option.some_ne_none i ∘ Eq.symm
    rw [start, Group.start, ← led]
    rfl
  exact fun i => ⟨⟨(g i).comp.fault, by rw [← same i]⟩, fun _ => same i⟩

/-- The call of the component the event leads to, if any, is steady. -/
def steadyCalls (g : Cluster n) (e : ClusterEvent n) : Prop :=
  match e.2.2 with
  | .message (.consensus msg) =>
    (g e.1).state = .active → Group.Steady (g e.1).comp (e.2.1.toEnv, .message msg)
  | .message (.requestSubmit data) =>
    (g e.1).state = .active → Group.Steady (g e.1).comp (e.2.1.toEnv, .submit data)
  | .makeProgress =>
    (g e.1).isLeader = true → Group.Steady (g e.1).comp (e.2.1.toEnv, .makeProgress)
  | event => (g e.1).Enters event →
      Group.Steady (g e.1).comp (e.2.1.toEnv, .updateView ((g e.1).dispatch e.2).comp.curView)

instance (g : Cluster n) : ∀ e, Decidable (steadyCalls g e)
  | (_, _, .message (.consensus _)) => inferInstanceAs (Decidable (_ → Group.Steady _ _))
  | (_, _, .message (.requestSubmit _)) => inferInstanceAs (Decidable (_ → Group.Steady _ _))
  | (_, _, .message (.pingReq _ _ _)) => inferInstanceAs (Decidable (_ → Group.Steady _ _))
  | (_, _, .message (.pingAck _ _ _)) => inferInstanceAs (Decidable (_ → Group.Steady _ _))
  | (_, _, .message (.leaderElection _ _)) => inferInstanceAs (Decidable (_ → Group.Steady _ _))
  | (_, _, .leaderPing) => inferInstanceAs (Decidable (_ → Group.Steady _ _))
  | (_, _, .expectPing) => inferInstanceAs (Decidable (_ → Group.Steady _ _))
  | (_, _, .makeProgress) => inferInstanceAs (Decidable (_ → Group.Steady _ _))
  | (_, _, .electionTimeout) => inferInstanceAs (Decidable (_ → Group.Steady _ _))

/-- The acceptor's record is stored in view 0, where no request lies. -/
private theorem steady_acceptor (c : Comp) (env : Env) (nextView : UInt32)
    (record : AcceptorRecord) : Group.Steady c (env, .acceptorUpdateRecord nextView record) where
  inView := ⟨fun takes => absurd rfl takes, fun _ other => by cases other⟩
  below := fun reqId member => by cases member
  kept := trivial
  keeps := ⟨id, fun takes => absurd rfl takes, id⟩

theorem follows_of_steadyCalls {g : Cluster n} {e : ClusterEvent n} (steady : steadyCalls g e) :
    Follows Group.Steady g e := by
  obtain ⟨i, env, nodeEvent⟩ := e
  intro event makes
  obtain ⟨calls, -, entered⟩ := makes
  cases calls with
  | message msg active => exact steady active
  | submit data active => exact steady active
  | makeProgress leads => exact steady leads
  | updateView _ newViewInfo enters successor =>
    rw [← entered newViewInfo rfl]
    cases nodeEvent with
    | message msg =>
      cases msg with
      | consensus msg => exact enters.elim
      | requestSubmit data => exact enters.elim
      | pingReq nodeId view timestamp => exact steady enters
      | pingAck nodeId view timestamp => exact steady enters
      | leaderElection msg data => exact steady enters
    | makeProgress => exact enters.elim
    | leaderPing => exact steady enters
    | expectPing => exact steady enters
    | electionTimeout => exact steady enters
  | acceptorUpdateRecord _ record electing => exact steady_acceptor _ _ _ record

/-- Steps that install elected leaders, make steady calls of the components, read every record as it
was sent and announce the leader of each view only. -/
def electedSteady (leader : UInt32 → Fin n) (stray : View → Prop) (g : Cluster n)
    (e : ClusterEvent n) : Prop :=
  (installsElected stray g e ∧ steadyCalls g e ∧ intact g e) ∧
    ∀ i, Node.Honest (seat leader) (act g e i)

/-- A view that is entered is led by its elected leader. -/
private theorem Seated.follows {leader : UInt32 → Fin n} {stray before : View → Prop}
    {g : Cluster n} {e : ClusterEvent n} (seated : Seated leader stray before (act g e))
    (steady : Follows Group.Steady g e) : Follows (Group.Orderly (seat leader)) g e := by
  intro event makes
  have calm := steady event makes
  refine ⟨?_, calm⟩
  cases event with
  | updateView newViewInfo =>
    have entered := makes.2.2 newViewInfo rfl
    rw [← act_self g e] at entered
    exact (seated.led newViewInfo (.inr (.current e.1 entered)) calm.kept).1
  | message | submit | makeProgress | acceptorUpdateRecord => trivial

/-- The cluster with its elections refines the group with one leader for each view. -/
theorem elected_simulates_group (leader : UInt32 → Fin n) (stray : View → Prop)
    (seed : Option (Fin n)) :
    (machine Booted).Simulates (electedSteady leader stray) (Group.machine n seed)
      (Group.orderly (seat leader))
      (fun g h => Shows g h ∧ Seated leader stray (fun _ => False) g ∧
        ∀ i, Node.Honest (seat leader) (g i)) := by
  rintro g h e reached ⟨shows, seated, honest⟩ ⟨⟨installs, steady, intact⟩, honest'⟩ enabled
  have seated' := seated.step (member_of_reaches g reached) honest honest' installs enabled
  have follows := seated'.follows (follows_of_steadyCalls steady)
  have step : ∃ h', (Group.machine n seed).Run (Group.orderly (seat leader)) h h' ∧
      Shows (act g e) h' :=
    shows.step e
      (fun event makes same => ⟨same ▸ follows event makes, shows.intact e.1 makes.1 intact⟩)
      enabled.1.1 enabled.2
  obtain ⟨h', run, shows'⟩ := step
  exact ⟨h', run, shows', seated', honest'⟩

/-- Steps that announce the leader of each view only, if that is all that has been announced in the
end. -/
theorem honest_run {leader : UInt32 → Fin n}
    {guard : Cluster n → ClusterEvent n → Prop} {g g' : Cluster n}
    (run : (machine Booted).Run guard g g') (honest : ∀ i, Node.Honest (seat leader) (g' i)) :
    (machine Booted).Run
      (fun g e => guard g e ∧ ∀ i, Node.Honest (seat leader) (act g e i)) g g' := by
  induction run with
  | refl => exact .refl
  | step before allowed enabled ih =>
    exact .step (ih fun i => honest_of_act honest i) ⟨allowed, honest⟩ enabled

/-- What nodes deliver under elected leaders. -/
structure ElectedDeliveries (leader : UInt32 → Fin n) (g : Cluster n) : Prop where
  agree : Group.ViewsAgree (seat leader) (comps g)
  backed : n ≤ 31 → Group.CommittedByQuorum (comps g)

theorem seedOf_leads {leader : UInt32 → Fin n} (g : Cluster n) (i : Fin n)
    (isSeed : seedOf leader g = some i) : seat leader 1 = ((i : ℕ) : Int) := by
  rw [seedOf] at isSeed
  split at isSeed
  next active => rw [seat, Option.some.inj isSeed]
  next waiting => cases isSeed

/-- The group that the cluster shows at the end of such a run. -/
theorem orderlyGroup_of_run {leader : UInt32 → Fin n} {stray : View → Prop} {g₀ g : Cluster n}
    (booted : Booted g₀) (seeds : ∀ i, (g₀ i).viewId ≠ 0 → leader 1 = i)
    (run : (machine Booted).Run
      (fun g e => installsElected stray g e ∧ steadyCalls g e ∧ intact g e) g₀ g)
    (announced : ∀ i, Node.Honest (seat leader) (g i)) :
    ∃ (h : Group n) (faults : Fin n → Option Fault),
      (Group.machine n (seedOf leader g₀)).Reaches (Group.orderly (seat leader)) h ∧
      comps g = fun i => { h i with fault := faults i } := by
  have start : Shows g₀ (Group.start n (seedOf leader g₀)) := booted.shows seeds
  have honest₀ := honest_of_run run announced
  have elected : (machine Booted).Run (electedSteady leader stray) g₀ g :=
    honest_run run announced
  obtain ⟨h, matched, shows, -⟩ := (elected_simulates_group leader stray (seedOf leader g₀)).run
    ⟨g₀, booted, .refl⟩ ⟨start, booted.seated seeds, honest₀⟩ elected
  choose faults same using fun i => (shows i).1
  exact ⟨h, faults, ⟨_, rfl, matched⟩, funext same⟩

theorem electedDeliveries_of_run {leader : UInt32 → Fin n} {stray : View → Prop} {g₀ g : Cluster n}
    (booted : Booted g₀) (seeds : ∀ i, (g₀ i).viewId ≠ 0 → leader 1 = i)
    (run : (machine Booted).Run
      (fun g e => installsElected stray g e ∧ steadyCalls g e ∧ intact g e) g₀ g)
    (announced : ∀ i, Node.Honest (seat leader) (g i)) : ElectedDeliveries leader g := by
  obtain ⟨h, faults, reached, equal⟩ := orderlyGroup_of_run booted seeds run announced
  have consistent : ∀ i, seedOf leader g₀ = some i → seat leader 1 = ((i : ℕ) : Int) :=
    seedOf_leads g₀
  have known := Group.known_of_reaches _ _ consistent h reached
  have delivered := Group.delivered_of_reaches _ _ consistent h reached
  -- the cluster shows the group but for the faults, which neither property looks at
  constructor
  · have agree := known.viewsAgree delivered
      (Group.assigned_numbered _ _ h (reached.mono fun _ _ => Group.inView_of_orderly))
    rw [equal]
    exact ⟨agree.fromLeader, agree.comparable⟩
  · intro small
    have backed :=
      (Group.backed_of_reaches small _ _ consistent h reached).committed known delivered
    rw [equal]
    exact ⟨backed.delivered, backed.committed, backed.kept⟩

/-- In every run of a cluster whose announcements name one leader for each view, nodes agree on what
they deliver in a view, and have a majority for it. -/
theorem elected_deliveries_agree (n : ℕ) (leader : UInt32 → Fin n) (stray : View → Prop)
    (g₀ g : Cluster n) (booted : Booted g₀) (seeds : ∀ i, (g₀ i).viewId ≠ 0 → leader 1 = i)
    (run : (machine Booted).Run
      (fun g e => installsElected stray g e ∧ steadyCalls g e ∧ intact g e) g₀ g)
    (announced : ∀ i, Node.Honest (seat leader) (g i)) : ElectedDeliveries leader g :=
  electedDeliveries_of_run booted seeds run announced

/-- Node 1 leads view 2 and delivers its first request with the acknowledgement of node 0. -/
def secondLeaderDelivers : List (ClusterEvent 3) :=
  secondView ++ [(1, Node.lateEnv, .message (.requestSubmit [6])),
    (0, Node.lateEnv, .message (.consensus (.acceptReq ⟨2, 1⟩ ⟨2, 0⟩ 1 ⟨⟨9, 0⟩, 0, 2, [6]⟩))),
    (1, Node.lateEnv, .message (.consensus (.acceptAck ⟨2, 1⟩ 0)))]

/-- The group shows the view change and the delivery. -/
theorem second_leader_shown :
    ∃ h : Group 3, (Group.machine 3 (some 2)).Run (fun h e => Group.Steady (h e.1) e.2)
        (Group.start 3 (some 2)) h ∧
      Shows (secondLeaderDelivers.foldl act ledByLast) h ∧
      (h 1).deliveriesIn 2 = [(⟨2, 1⟩, some [6])] := by
  have simulates := cluster_simulates_group (Booted : Cluster 3 → Prop) (some 2)
    fun c e => Group.Steady c e
  have start : Shows ledByLast (Group.start 3 (seedOf electedLeader ledByLast)) :=
    ledByLast_booted.shows (by decide +kernel)
  have seed : seedOf electedLeader ledByLast = some 2 := by decide +kernel
  rw [seed] at start
  have steady : (machine Booted).Run steadyCalls ledByLast
      (secondLeaderDelivers.foldl act ledByLast) := Machine.Accepts.run (by decide +kernel)
  obtain ⟨h, matched, shows⟩ := simulates.run ⟨ledByLast, ledByLast_booted, .refl⟩ start
    (steady.mono fun _ _ => follows_of_steadyCalls)
  refine ⟨h, matched, shows, ?_⟩
  have running : ((secondLeaderDelivers.foldl act ledByLast) 1).comp.fault = none := by
    decide +kernel
  rw [← (shows 1).2 running]
  decide +kernel

theorem second_leader_delivers :
    let g := secondLeaderDelivers.foldl act ledByLast
    (comps g 1).deliveriesIn 2 = [(⟨2, 1⟩, some [6])] ∧ ElectedDeliveries electedLeader g := by
  refine ⟨by decide +kernel, elected_deliveries_agree 3 electedLeader (fun _ => False) ledByLast _
    ledByLast_booted (by decide +kernel) (Machine.Accepts.run ?_) (by decide +kernel)⟩
  decide +kernel

end Cluster

end LibeventPaxos
