import LibeventPaxos.GatheredReports

/-!
The boundary of a view. The leader of the next view closes the view before it at the first slot that
every node heard has reported as empty. Where every report is true and every merge fits, nothing
beyond the boundary is ever delivered in the old view, and everything up to it is stored by a node
that was heard.
-/
namespace LibeventPaxos

open Lib

namespace Cluster

variable {n : ℕ}

open Node

/-! ## Runs in which reports fit -/

/-- Steps that install elected leaders, make steady calls, read every record as it was sent, enter
a view before a request of it is seen, and handle announcements and acknowledgements as the boundary
needs. -/
def settlesBoundary (stray : View → Prop) (g : Cluster n) (e : ClusterEvent n) : Prop :=
  (installsElected stray g e ∧ steadyCalls g e ∧ intact g e) ∧
    (g e.1).EntersUnseen e.2.2 ∧ (g e.1).ReportsFit e.2

instance (stray : View → Prop) [DecidablePred stray] (g : Cluster n) (e : ClusterEvent n) :
    Decidable (settlesBoundary stray g e) :=
  inferInstanceAs (Decidable ((_ ∧ _ ∧ _) ∧ _ ∧ _))

/-- No node is in a view whose leader has not entered it. -/
def LeadersFirst (leader : UInt32 → Fin n) (g : Cluster n) : Prop :=
  ∀ k v, v ≠ 0 → v.toNat ≤ (g k).viewId.toNat → v.toNat ≤ (g (leader v)).viewId.toNat

section Run

variable {leader : UInt32 → Fin n} {stray before : View → Prop} {g₀ g : Cluster n}
  {e : ClusterEvent n}

theorem keeps_of_settles (reached : (machine Booted).Reaches (settlesBoundary stray) g)
    (allowed : settlesBoundary stray g e) (enabled : (machine Booted).enabled g e) : Keeps g e where
  timed := (member_of_reaches g reached e.1).timed
  enabled := enabled
  steady := follows_of_steadyCalls allowed.1.2.1
  noWrap := allowed.1.1.2.2.2

theorem LeadersFirst.act (first : LeadersFirst leader g)
    (seated' : Seated leader stray before (act g e)) (keeps : Keeps g e) :
    LeadersFirst leader (Cluster.act g e) := by
  have moves := viewId_act keeps.timed keeps.enabled keeps.noWrap
  have grows (i : Fin n) : (g i).viewId.toNat ≤ (Cluster.act g e i).viewId.toNat := by
    rcases moves i with same | next
    · rw [Node.viewId, Node.viewId, same]
    · omega
  intro k v set reached
  by_cases earlier : v.toNat ≤ (g k).viewId.toNat
  · exact (first k v set earlier).trans (grows _)
  · -- the node enters the view now, and its leader has entered it before or does so now
    rcases moves k with same | next
    · rw [Node.viewId, same] at reached
      exact absurd reached earlier
    · obtain rfl : v = (Cluster.act g e k).viewId := UInt32.toNat_inj.mp (by omega)
      exact (seated'.led (Cluster.act g e k).comp.curView (.inr (.current k rfl)) set).2

theorem Booted.reported (booted : Booted g₀) : Reported g₀ := by
  have fresh : ∀ k, ∃ seed expectPingTimeval now env,
      g₀ k = Node.init seed k n expectPingTimeval now env := booted
  constructor
  · intro k vs voted
    obtain ⟨seed, expectPingTimeval, now, env, start⟩ := fresh k
    rw [start] at voted
    rcases voted with ⟨a, member, -⟩ | ⟨call, member, -⟩
    · cases member
    · cases member
  · intro k
    obtain ⟨seed, expectPingTimeval, now, env, start⟩ := fresh k
    rw [start]
    refine ⟨fun call member => ?_, fun msg kept => ?_, fun _ post => ?_⟩
    · cases List.mem_of_mem_filter member
    · cases kept
    · cases post

theorem Booted.leadersFirst (booted : Booted g₀) (seeds : ∀ i, (g₀ i).viewId ≠ 0 → leader 1 = i) :
    LeadersFirst leader g₀ := by
  intro k v set reached
  have zero : v.toNat ≠ 0 := fun same => set (UInt32.toNat_inj.mp same)
  have active : (g₀ k).viewId ≠ 0 := by
    intro waiting
    rw [waiting, UInt32.toNat_zero] at reached
    omega
  have first : (g₀ k).viewId = 1 := by
    obtain ⟨seed, expectPingTimeval, now, env, start⟩ := booted k
    rw [start] at active ⊢
    cases seed with
    | true => rfl
    | false => exact absurd rfl active
  obtain rfl : v = 1 := by
    rw [first, UInt32.toNat_one] at reached
    exact UInt32.toNat_inj.mp (by rw [UInt32.toNat_one]; omega)
  rw [seeds k active]
  exact reached

/-- The votes behind what is committed and delivered, as the cluster shows them. -/
theorem backed_of_run (small : n ≤ 31) (booted : Booted g₀)
    (seeds : ∀ i, (g₀ i).viewId ≠ 0 → leader 1 = i)
    (run : (machine Booted).Run (settlesBoundary stray) g₀ g)
    (announced : ∀ i, Honest (seat leader) (g i)) : Group.Backed (comps g) := by
  obtain ⟨h, faults, reached, equal⟩ := orderlyGroup_of_run booted seeds
    (run.mono fun _ _ allowed => allowed.1) announced
  have backed := Group.backed_of_reaches small _ _ (seedOf_leads g₀) h reached
  rw [equal]
  refine ⟨backed.size, fun i leads => ?_, backed.point, backed.calls, backed.delivered, backed.kept⟩
  have log := backed.log i leads
  exact { log with }

/-- A node has delivered all of a view up to what it has delivered of it. -/
theorem delivered_below (booted : Booted g₀) (seeds : ∀ i, (g₀ i).viewId ≠ 0 → leader 1 = i)
    (run : (machine Booted).Run (settlesBoundary stray) g₀ g)
    (announced : ∀ i, Honest (seat leader) (g i)) {j : Fin n} {d : Delivery}
    (member : d ∈ (g j).comp.delivered) {r : UInt32} (positive : 0 < r.toNat)
    (below : r.toNat ≤ d.vs.reqId.toNat) :
    ∃ d' ∈ (g j).comp.delivered, d'.vs = ⟨d.vs.viewId, r⟩ := by
  obtain ⟨h, faults, reached, equal⟩ := orderlyGroup_of_run booted seeds
    (run.mono fun _ _ allowed => allowed.1) announced
  have known := Group.known_of_reaches _ _ (seedOf_leads g₀) h reached
  have shown := congrArg Comp.delivered (congrFun equal j)
  have same : (g j).comp.delivered = (h j).delivered := shown
  rw [same] at member ⊢
  obtain ⟨epoch, count, numbered⟩ := (known.order j).delivered
  have there : Comp.position d.vs ∈ (h j).deliveredAt :=
    List.mem_map_of_mem (List.mem_map_of_mem member)
  have lower := numbered.lower there positive below
  obtain ⟨vs, stamp, position⟩ := List.mem_map.mp lower
  obtain ⟨d', member', rfl⟩ := List.mem_map.mp stamp
  have sameStamp : Comp.position d'.vs = Comp.position ⟨d.vs.viewId, r⟩ := position
  exact ⟨d', member', Comp.position_injective sameStamp⟩

theorem reported_of_run (small : n ≤ 31) (booted : Booted g₀)
    (seeds : ∀ i, (g₀ i).viewId ≠ 0 → leader 1 = i)
    (run : (machine Booted).Run (settlesBoundary stray) g₀ g)
    (announced : ∀ i, Honest (seat leader) (g i)) :
    Reported g ∧ LeadersFirst leader g ∧ Seated leader stray (fun _ => False) g := by
  induction run with
  | refl => exact ⟨booted.reported, booted.leadersFirst seeds, booted.seated seeds⟩
  | @step t e earlier allowed enabled ih =>
    have honest := honest_of_act announced
    obtain ⟨reported, first, seated⟩ := ih honest
    have reached : (machine Booted).Reaches (settlesBoundary stray) t := ⟨g₀, booted, earlier⟩
    have member := member_of_reaches t reached
    have keeps := keeps_of_settles reached allowed enabled
    have seated' := seated.step member honest announced allowed.1.1 enabled
    refine ⟨?_, first.act seated' keeps, seated'⟩
    exact reported.act seated (member e.1)
      (member_of_reaches (act t e) (reached.step allowed enabled) e.1)
      (backed_of_run small booted seeds earlier honest)
      (backed_of_run small booted seeds (.step earlier allowed enabled) announced) keeps
      allowed.2.2 allowed.2.1

/-- A report stays true to the end of every run. -/
theorem Upholds.run {g' : Cluster n} {k : Fin n} {view : UInt32} {report : Report}
    (upholds : Upholds g k view report) (withdrawn : Withdrawn view (g k))
    (reached : (machine Booted).Reaches (settlesBoundary stray) g)
    (run : (machine Booted).Run (settlesBoundary stray) g g') : Upholds g' k view report := by
  have all : (machine Booted).Reaches (settlesBoundary stray) g' ∧
      Upholds g' k view report ∧ Withdrawn view (g' k) := by
    apply run.invariant (I := fun g' => (machine Booted).Reaches (settlesBoundary stray) g' ∧
      Upholds g' k view report ∧ Withdrawn view (g' k))
    · rintro s e ⟨reached, upholds, withdrawn⟩ allowed enabled
      have keeps := keeps_of_settles reached allowed enabled
      refine ⟨reached.step allowed enabled, ?_, ?_⟩
      · refine upholds.act keeps.timed keeps.enabled keeps.steady fun _ => ?_
        rcases withdrawn with ⟨post, -⟩ | left
        · rw [post]
          exact .inl NodeState.noConfusion
        · exact .inr left
      · exact withdrawn.act keeps.timed keeps.enabled keeps.noWrap
    · exact ⟨reached, upholds, withdrawn⟩
  exact all.2.1

end Run

/-! ## The step that closes a view -/

/-- The nodes a node has heard in its last election. -/
def acked (g : Cluster n) (i : Fin n) : Finset (Fin n) :=
  Finset.univ.filter fun k : Fin n => (g i).electionMod.edge.counts (k : ℕ) = true

/-- `leader_election_leader_close` installs the next view. -/
structure ClosesView (g : Cluster n) (e : ClusterEvent n) : Prop where
  ack : ∃ msg data, e.2.2 = .message (.leaderElection msg data) ∧ msg.type = .announceAck
  moves : (act g e e.1).viewId ≠ (g e.1).viewId

/-- What the leader has gathered when it closes the view, and what it makes of it. -/
structure Closed (leader : UInt32 → Fin n) (g : Cluster n) (e : ClusterEvent n) (own : Report)
    (acks : List Ack) : Prop where
  gathered : Gathered g e.1 (g e.1).viewId own acks (act g e e.1).electionMod.edge
  electing : (g e.1).state ≠ .active
  some_ack : acks ≠ []
  leads : leader (act g e e.1).viewId = e.1
  next : (act g e e.1).viewId.toNat = (g e.1).viewId.toNat + 1
  boundary : (act g e e.1).comp.curView.reqId = (act g e e.1).electionMod.edge.boundary
  db : (act g e e.1).comp.db =
    Comp.boundaryDb e.2.1.toEnv (g e.1).comp (act g e e.1).comp.curView
  majority : Majority (acked (act g e) e.1)

section Close

variable {leader : UInt32 → Fin n} {stray before : View → Prop} {g : Cluster n}
  {e : ClusterEvent n} {own : Report} {acks : List Ack}

/-- Only a message of the election the node is in moves the node. -/
theorem ClosesView.handled (closes : ClosesView g e) (keeps : Keeps g e) :
    ∃ msg data, (g e.1).electionMsg e.2.2 = some (msg, data) ∧ msg.type = .announceAck := by
  obtain ⟨⟨msg, data, event, type⟩, moves⟩ := closes
  refine ⟨msg, data, ?_, type⟩
  rw [event]
  refine if_pos ?_
  by_contra ignores
  obtain ⟨i, env, event'⟩ := e
  obtain rfl : event' = .message (.leaderElection msg data) := event
  have step := dispatch_step keeps.timed _ keeps.enabled.1
  rw [act_self] at moves
  rcases step.moves with ⟨same, -⟩ | ⟨enters, -⟩
  · exact moves (congrArg View.viewId same)
  · refine moves ?_
    simp only [dispatch, handleMsg]
    rw [if_neg fun electing => ignores ⟨electing, enters.1⟩]

/-- A call that fails before the merge does not move the node. -/
theorem HandlesAck.runs {ack : Ack} (handles : HandlesAck g e ack)
    (moves : (act g e e.1).viewId ≠ (g e.1).viewId) :
    ((g e.1).earlyAnnounce ack).comp.fault = none := by
  have final := handles.act_eq
  by_contra fails
  rw [andThen_of_fault _ _ fails] at final
  refine moves ?_
  rw [final, earlyAnnounce]
  split
  next early =>
    exact congrArg View.viewId
      (elects_leaderElectionHandleAnnounce ack.env (g e.1) ack.msg).curView
  next late => rfl

theorem closed_of_step (reported : Reported g) (seated : Seated leader stray before g)
    (seated' : Seated leader stray before (act g e)) (member : (g e.1).Member n (e.1 : ℕ))
    (backed : Group.Backed (comps g)) (keeps : Keeps g e) (fits : (g e.1).ReportsFit e.2)
    (closes : ClosesView g e) : ∃ own acks, Closed leader g e own acks := by
  obtain ⟨msg, data, handled, type⟩ := closes.handled keeps
  have moves := closes.moves
  have next : (act g e e.1).viewId.toNat = (g e.1).viewId.toNat + 1 := by
    rcases viewId_act keeps.timed keeps.enabled keeps.noWrap e.1 with same | next
    · exact absurd (congrArg View.viewId same) moves
    · exact next
  have handles := reported.handles seated keeps.timed keeps.enabled.2 handled type
  have runs := handles.runs moves
  have final := handles.act_eq
  rw [andThen_of_running _ _ runs] at final
  have primed := handles.primed keeps (reported.reporting e.1) member backed (reported.sees e.1)
    fits runs
  have ping : ((g e.1).earlyAnnounce ⟨e.2.1, msg, data⟩).evLeaderPing ≠ .freed := by
    rw [primed.leaderPing]
    exact keeps.timed.kept
  have unmoved (has : HasComp ((g e.1).earlyAnnounce ⟨e.2.1, msg, data⟩).comp (act g e e.1)) :
      False := by
    obtain ⟨fault, same⟩ := has
    refine moves ?_
    rw [Node.viewId, same, primed.comp, Node.viewId]
  -- the node moves, so the merge was made and has completed a majority
  rcases mergeAnnounceAck_cases e.2.1 _ msg data runs ping with
    ⟨-, has, -⟩ | ⟨msgCount, counts, group, unheard, takes⟩
  · rw [← final] at has
    exact (unmoved has).elim
  rw [← final] at takes
  obtain ⟨-, leads, own, acks, gathered, heard⟩ :=
    handles.gathers fits runs primed counts group unheard takes
  rcases takes.comp with ⟨has, -⟩ | ⟨-, -, majority, comp⟩
  · exact (unmoved has).elim
  have view : (act g e e.1).comp.curView = (act g e e.1).openedView := by
    rw [comp]
    rfl
  have electing := (electionMsg_handles handled).2.1
  refine ⟨own, _, gathered, electing, List.cons_ne_nil _ _, ?_, next, ?_, ?_, ?_⟩
  · -- the leader names itself in the view it opens
    have set : (act g e e.1).viewId ≠ 0 := by
      intro zero
      rw [zero, UInt32.toNat_zero] at next
      omega
    have named := (seated'.led (act g e e.1).comp.curView (.inr (.current e.1 rfl)) set).1
    have opened : (act g e e.1).comp.curView.leaderId = ((e.1 : ℕ) : Int) := by
      rw [view, openedView, takes.newLeader, leads]
    rw [opened, seat] at named
    exact Fin.ext (Int.ofNat.inj named).symm
  · rw [view]
    rfl
  · rw [view, comp, primed.comp]
    rfl
  · -- the nodes counted are those of the marks the merge has left
    have size : ((g e.1).earlyAnnounce ⟨e.2.1, msg, data⟩).groupSize = n := by
      rw [Node.groupSize, primed.comp]
      exact member.groupSize
    obtain ⟨msgCount', counts', members⟩ := gathered.absorbed.counted
    have same : acked (act g e) e.1 = Finset.univ.filter fun k : Fin n =>
        Function.update msgCount msg.nodeId true (k : ℕ) = true := by
      ext k
      simp only [acked, Finset.mem_filter, Finset.mem_univ, true_and]
      rw [EdgeMod.counts, counts', Option.elim_some, members, ← heard]
      exact Iff.rfl
    rw [size, EdgeMod.heard, length_filter_range] at majority
    rw [Majority, Fintype.card_fin, same]
    exact majority

/-- Every report that was gathered is one of a node that was heard. -/
theorem Closed.speaker (closed : Closed leader g e own acks) {report : Report}
    (member : report ∈ reports own acks) : ∃ k ∈ acked (act g e) e.1,
      Upholds g k (g e.1).viewId report ∧ (k = e.1 ∨ Withdrawn (g e.1).viewId (g k)) := by
  obtain ⟨msgCount, counts, members⟩ := closed.gathered.absorbed.counted
  have heard : ∀ k : Fin n, (((k : ℕ) : Int) = ((e.1 : ℕ) : Int) ∨
      ((k : ℕ) : Int) ∈ acks.map Ack.sender) → k ∈ acked (act g e) e.1 := by
    intro k known
    refine Finset.mem_filter.mpr ⟨Finset.mem_univ _, ?_⟩
    rw [EdgeMod.counts, counts, Option.elim_some]
    exact (members k).mpr known
  rcases List.mem_append.mp member with others | self
  · obtain ⟨ack, there, rfl⟩ := List.mem_map.mp others
    obtain ⟨k, told⟩ := closed.gathered.heard ack there
    refine ⟨k, heard k (.inr ?_), told.upholds, .inr told.withdrawn⟩
    rw [← told.nodeId]
    exact List.mem_map_of_mem there
  · obtain rfl := List.mem_singleton.mp self
    exact ⟨e.1, heard e.1 (.inl rfl), closed.gathered.own, .inl rfl⟩

/-- Every node that was heard has reported. -/
theorem Closed.report (closed : Closed leader g e own acks) {k : Fin n}
    (member : k ∈ acked (act g e) e.1) : ∃ report ∈ reports own acks,
      Upholds g k (g e.1).viewId report ∧ (k = e.1 ∨ Withdrawn (g e.1).viewId (g k)) := by
  obtain ⟨msgCount, counts, members⟩ := closed.gathered.absorbed.counted
  have counted := (Finset.mem_filter.mp member).2
  rw [EdgeMod.counts, counts, Option.elim_some] at counted
  rcases (members k).mp counted with self | others
  · obtain rfl : k = e.1 := Fin.ext (Int.ofNat.inj self)
    exact ⟨own, List.mem_append_right _ (List.mem_singleton_self own), closed.gathered.own,
      .inl rfl⟩
  · obtain ⟨ack, there, sender⟩ := List.mem_map.mp others
    obtain ⟨k', told⟩ := closed.gathered.heard ack there
    obtain rfl : k' = k := Fin.ext (Int.ofNat.inj (told.nodeId.symm.trans sender))
    exact ⟨ack.report, List.mem_append_left _ (List.mem_map_of_mem there), told.upholds,
      .inr told.withdrawn⟩

/-- What a node stores of the closed view up to the boundary is still there when it is closed. -/
theorem Closed.keeps_stored (closed : Closed leader g e own acks) {r : UInt32} (request : r ≠ 0)
    (below : r.toNat ≤ (act g e e.1).comp.curView.reqId.toNat) {k : Fin n}
    (stored : (g k).comp.stored ⟨(g e.1).viewId, r⟩ ≠ none) :
    (act g e k).comp.stored ⟨(g e.1).viewId, r⟩ ≠ none := by
  by_cases actor : k = e.1
  · -- what is deleted on entering the view lies beyond the boundary
    subst actor
    have other : vstol ⟨(g e.1).viewId, r⟩ ≠ vstol
        ⟨(act g e e.1).comp.curView.viewId - 1, (act g e e.1).comp.curView.reqId + 1⟩ := by
      intro same
      have beyond : r = (act g e e.1).comp.curView.reqId + 1 :=
        congrArg ViewStamp.reqId ((vstol_inj _ _).mp same)
      have sum := congrArg UInt32.toNat beyond
      have positive : r.toNat ≠ 0 := fun zero => request (UInt32.toNat_inj.mp zero)
      have bound := (act g e e.1).comp.curView.reqId.toNat_lt
      rw [UInt32.toNat_add, UInt32.toNat_one] at sum
      omega
    rw [Comp.stored, closed.db, Comp.boundaryDb]
    split
    next => exact stored
    next =>
      rw [Database.retrieveRecord_deleteRecord, if_neg other, Database.retrieveRecord_storeRecord]
      split
      next => exact Option.some_ne_none _
      next => exact stored
  · rw [act_other g e k actor]
    exact stored

/-- A node that was heard has not left the view before its leader. -/
theorem Closed.stays (closed : Closed leader g e own acks) (first : LeadersFirst leader g)
    {k : Fin n} (role : k = e.1 ∨ Withdrawn (g e.1).viewId (g k)) :
    ¬ (g e.1).viewId.toNat < (g k).viewId.toNat := by
  intro left
  have next := closed.next
  rcases role with rfl | withdrawn
  · exact Nat.lt_irrefl _ left
  · have set : (act g e e.1).viewId ≠ 0 := by
      intro zero
      rw [zero, UInt32.toNat_zero] at next
      omega
    have leads := first k (act g e e.1).viewId set (by omega)
    rw [closed.leads] at leads
    omega

/-- Up to the boundary every request of the closed view is stored by a node that was heard. -/
theorem Closed.stored (closed : Closed leader g e own acks) (backed : Group.Backed (comps g))
    (first : LeadersFirst leader g) {r : UInt32} (request : r ≠ 0)
    (below : r.toNat ≤ (act g e e.1).comp.curView.reqId.toNat) :
    ∃ k ∈ acked (act g e) e.1, (act g e k).comp.stored ⟨(g e.1).viewId, r⟩ ≠ none := by
  have merges := closed.gathered.absorbed.merges (.inl closed.some_ack)
  have allocated := closed.gathered.absorbed.merging.allocated
  suffices there : ∃ k ∈ acked (act g e) e.1, (g k).comp.stored ⟨(g e.1).viewId, r⟩ ≠ none by
    obtain ⟨k, heard, stored⟩ := there
    exact ⟨k, heard, closed.keeps_stored request below stored⟩
  rw [closed.boundary] at below
  by_cases above : (act g e e.1).electionMod.edge.start.toNat < r.toNat
  · -- not every node has reported the request as empty
    have closed_slot := merges.below_boundary allocated r above below
    simp only [OpenIn, not_forall, not_or] at closed_slot
    obtain ⟨report, member, missing, inside⟩ := closed_slot
    obtain ⟨k, heard, upholds, role⟩ := closed.speaker member
    have start := merges.start.2 report.start (List.mem_map_of_mem member)
    refine ⟨k, heard, ?_⟩
    exact (upholds.stored r (by omega) (by omega) missing).resolve_right (closed.stays first role)
  · -- a node has taken the request for committed, so a voter for it was heard
    obtain ⟨report, member, start⟩ := List.mem_map.mp merges.start.1
    obtain ⟨_, _, upholds, _⟩ := closed.speaker member
    have quorum : Majority (Group.voters (comps g) ⟨(g e.1).viewId, r⟩) := by
      rw [Majority, Fintype.card_fin]
      exact upholds.decided r request (by rw [start]; omega)
    obtain ⟨k, heard, voter⟩ := closed.majority.meet quorum
    obtain ⟨_, _, _, role⟩ := closed.report heard
    refine ⟨k, heard, ?_⟩
    exact (backed.kept k _ (Finset.mem_filter.mp voter).2).resolve_right (closed.stays first role)

/-- Beyond the boundary nothing of the closed view is delivered, in no later state. -/
theorem Closed.delivered {g₀ g' : Cluster n} (closed : Closed leader g e own acks) (small : n ≤ 31)
    (booted : Booted g₀) (seeds : ∀ i, (g₀ i).viewId ≠ 0 → leader 1 = i)
    (earlier : (machine Booted).Run (settlesBoundary stray) g₀ g)
    (allowed : settlesBoundary stray g e) (enabled : (machine Booted).enabled g e)
    (later : (machine Booted).Run (settlesBoundary stray) (act g e) g')
    (announced : ∀ i, Honest (seat leader) (g' i)) {j : Fin n} {d : Delivery}
    (member : d ∈ (g' j).comp.delivered) (inView : d.vs.viewId = (g e.1).viewId) :
    d.vs.reqId.toNat ≤ (act g e e.1).comp.curView.reqId.toNat := by
  have reached : (machine Booted).Reaches (settlesBoundary stray) g := ⟨g₀, booted, earlier⟩
  have keeps := keeps_of_settles reached allowed enabled
  have reached' := reached.step allowed enabled
  have run : (machine Booted).Run (settlesBoundary stray) g₀ g' :=
    (Machine.Run.step earlier allowed enabled).trans later
  have backed' := backed_of_run small booted seeds run announced
  have merges := closed.gathered.absorbed.merges (.inl closed.some_ack)
  have allocated := closed.gathered.absorbed.merging.allocated
  -- what the nodes heard have reported is still true
  have told : ∀ k ∈ acked (act g e) e.1, ∃ report ∈ reports own acks,
      Upholds g' k (g e.1).viewId report := by
    intro k heard
    obtain ⟨report, there, upholds, role⟩ := closed.report heard
    refine ⟨report, there, ?_⟩
    have after : Upholds (act g e) k (g e.1).viewId report :=
      upholds.act keeps.timed keeps.enabled keeps.steady fun actor => .inl (actor ▸ closed.electing)
    have withdrawn : Withdrawn (g e.1).viewId (act g e k) := by
      rcases role with rfl | withdrawn
      · refine .inr ?_
        rw [closed.next]
        exact Nat.lt_succ_self _
      · exact withdrawn.act keeps.timed keeps.enabled keeps.noWrap
    exact after.run withdrawn reached' later
  -- every request up to the delivery has been delivered too, so a voter for it was heard
  have decided : ∀ r, 0 < r.toNat → r.toNat ≤ d.vs.reqId.toNat →
      ∃ report ∈ reports own acks, r.toNat ≤ report.stop.toNat ∧ r ∉ report.ids := by
    intro r positive below
    obtain ⟨d', member', stamp⟩ := delivered_below booted seeds run announced member positive below
    rw [inView] at stamp
    have quorum : Majority (Group.voters (comps g') ⟨(g e.1).viewId, r⟩) := by
      rw [Majority, Fintype.card_fin]
      exact stamp ▸ backed'.delivered j d' member'
    obtain ⟨k, heard, voter⟩ := closed.majority.meet quorum
    obtain ⟨report, there, upholds⟩ := told k heard
    exact ⟨report, there, upholds.voted r (Finset.mem_filter.mp voter).2⟩
  rw [closed.boundary]
  by_cases positive : 0 < d.vs.reqId.toNat
  swap
  · omega
  refine merges.le_boundary allocated d.vs.reqId ?_ ?_
  · obtain ⟨report, there, inside, -⟩ := decided d.vs.reqId positive le_rfl
    exact inside.trans (merges.stop.2 report.stop (List.mem_map_of_mem there))
  · intro r positive' below empty
    obtain ⟨report, there, inside, missing⟩ := decided r positive' below
    rcases empty report there with listed | beyond
    · exact missing listed
    · omega

end Close

/-- The boundary with which node `i` has left the view for the next one, in `g`, covers all that is
delivered in the view up to `g'`, and all of it is stored by the majority the node has heard. -/
structure BoundaryBacked (view : UInt32) (i : Fin n) (g g' : Cluster n) : Prop where
  majority : Majority (acked g i)
  above : ∀ j, ∀ d ∈ (g' j).comp.delivered, d.vs.viewId = view →
    d.vs.reqId.toNat ≤ (g i).comp.curView.reqId.toNat
  stored : ∀ r, r ≠ 0 → r.toNat ≤ (g i).comp.curView.reqId.toNat →
    ∃ k ∈ acked g i, (g k).comp.stored ⟨view, r⟩ ≠ none

/-- In every run in which announcements find nodes that report their own range and merges fit, the
boundary of every view that is opened is not below what is delivered of the view before at any time,
and all of it is stored by a node of the majority that was heard. -/
theorem boundary_backed (small : n ≤ 31) (leader : UInt32 → Fin n) (stray : View → Prop)
    (g₀ g g' : Cluster n) (booted : Booted g₀) (seeds : ∀ i, (g₀ i).viewId ≠ 0 → leader 1 = i)
    (earlier : (machine Booted).Run (settlesBoundary stray) g₀ g) (e : ClusterEvent n)
    (allowed : settlesBoundary stray g e) (enabled : (machine Booted).enabled g e)
    (closes : ClosesView g e)
    (later : (machine Booted).Run (settlesBoundary stray) (act g e) g')
    (announced : ∀ i, Honest (seat leader) (g' i)) :
    BoundaryBacked (g e.1).viewId e.1 (act g e) g' := by
  have reached : (machine Booted).Reaches (settlesBoundary stray) g := ⟨g₀, booted, earlier⟩
  have honest' : ∀ i, Honest (seat leader) (act g e i) := honest_of_run later announced
  have honest := honest_of_act honest'
  have keeps := keeps_of_settles reached allowed enabled
  obtain ⟨reported, first, seated⟩ := reported_of_run small booted seeds earlier honest
  obtain ⟨-, -, seated'⟩ :=
    reported_of_run small booted seeds (.step earlier allowed enabled) honest'
  have backed := backed_of_run small booted seeds earlier honest
  obtain ⟨own, acks, closed⟩ := closed_of_step reported seated seated'
    (member_of_reaches g reached e.1) backed keeps allowed.2.2 closes
  exact {
    majority := closed.majority
    above := fun j d member inView =>
      closed.delivered small booted seeds earlier allowed enabled later announced member inView
    stored := fun r request below => closed.stored backed first request below }

/-- In view 2 node 0 has stored the first request of node 1 and node 2 the second when node 2 is
elected for view 3; node 1 has delivered the first. -/
def spreadLog : List (ClusterEvent 3) :=
  secondView ++ joinsByPing 2 2 1 ++
  [(1, lateEnv, .message (.requestSubmit [5])), (1, lateEnv, .message (.requestSubmit [6])),
    (0, lateEnv, .message (.consensus (.acceptReq ⟨2, 1⟩ ⟨2, 0⟩ 1 ⟨⟨9, 0⟩, 0, 2, [5]⟩))),
    (2, lateEnv, .message (.consensus (.acceptReq ⟨2, 2⟩ ⟨2, 0⟩ 1 ⟨⟨9, 0⟩, 0, 2, [6]⟩))),
    (1, lateEnv, .message (.consensus (.acceptAck ⟨2, 1⟩ 0)))] ++
  (electedWith 3 2 0 1 2 1).dropLast.dropLast

/-- The elected node receives the acknowledgement of node 0, which has seen requests up to the
given one and lists no slot. -/
def ackOfFirst (view : UInt32) (elected : Fin 3) (lastReq : UInt32) : ClusterEvent 3 :=
  (elected, lateEnv,
    .message (.leaderElection ⟨.announceAck, 0, view, 0, 0, (elected : ℕ), lastReq, 0⟩ []))

/-- Node 1 hears of the second request only after node 2 has opened view 3. -/
theorem spread_log_backed :
    let g := spreadLog.foldl act ledByLast
    let opened := act g (ackOfFirst 3 2 1)
    let g' := act opened (1, lateEnv, .message (.consensus (.acceptAck ⟨2, 2⟩ 2)))
    (opened 2).comp.curView = ⟨3, 2, 2⟩ ∧ (opened 1).comp.delivered = [⟨⟨2, 1⟩, some [5]⟩] ∧
      (g' 1).comp.delivered = [⟨⟨2, 1⟩, some [5]⟩, ⟨⟨2, 2⟩, some [6]⟩] ∧
      BoundaryBacked 2 2 opened g' := by
  have earlier : (machine Booted).Run (settlesBoundary fun _ => False) ledByLast
      (spreadLog.foldl act ledByLast) := Machine.Accepts.run (by decide +kernel)
  have later : (machine Booted).Run (settlesBoundary fun _ => False)
      (act (spreadLog.foldl act ledByLast) (ackOfFirst 3 2 1))
      ([(1, lateEnv, .message (.consensus (.acceptAck ⟨2, 2⟩ 2)))].foldl act
        (act (spreadLog.foldl act ledByLast) (ackOfFirst 3 2 1))) :=
    Machine.Accepts.run (by decide +kernel)
  have view : (spreadLog.foldl act ledByLast (ackOfFirst 3 2 1).1).viewId = 2 := by decide +kernel
  have backed := boundary_backed (by decide) electedLeader (fun _ => False) ledByLast _ _
    ledByLast_booted (by decide +kernel) earlier (ackOfFirst 3 2 1) (by decide +kernel)
    (by decide +kernel) ⟨⟨_, _, rfl, rfl⟩, by decide +kernel⟩ later (by decide +kernel)
  rw [view] at backed
  exact ⟨by decide +kernel, by decide +kernel, by decide +kernel, backed⟩

/-- Nodes 0 and 1 have missed the first request of view 1 and stored the second. -/
def missedFirst : List (ClusterEvent 3) :=
  joinsByPing 1 0 2 ++ joinsByPing 1 1 2 ++
  [(2, lateEnv, .message (.requestSubmit [5])), (2, lateEnv, .message (.requestSubmit [6])),
    (0, lateEnv, .message (.consensus (.acceptReq ⟨1, 2⟩ ⟨1, 0⟩ 2 ⟨⟨9, 0⟩, 0, 4, [6]⟩))),
    (1, lateEnv, .message (.consensus (.acceptReq ⟨1, 2⟩ ⟨1, 0⟩ 2 ⟨⟨9, 0⟩, 0, 4, [6]⟩)))] ++
  (electedWith 2 1 0 1 1 0).dropLast.dropLast

/-- Node 0 scans the range of `mod->edge`, which only the elected node sets up, so it reports no
slot, and node 1 opens view 2 after a request that neither of them stores. -/
theorem missed_request_counted :
    ¬ ∀ (n : ℕ) (leader : UInt32 → Fin n) (stray : View → Prop) (g₀ g g' : Cluster n)
      (e : ClusterEvent n), n ≤ 31 → Booted g₀ → (∀ i, (g₀ i).viewId ≠ 0 → leader 1 = i) →
      (machine Booted).Run (fun g e => installsElected stray g e ∧ steadyCalls g e ∧ intact g e)
        g₀ g →
      installsElected stray g e ∧ steadyCalls g e ∧ intact g e →
      (machine Booted).enabled g e → ClosesView g e →
      (machine Booted).Run (fun g e => installsElected stray g e ∧ steadyCalls g e ∧ intact g e)
        (act g e) g' →
      (∀ i, Honest (seat leader) (g' i)) → BoundaryBacked (g e.1).viewId e.1 (act g e) g' := by
  intro claim
  have run : (machine Booted).Run (fun g e => installsElected (fun _ => False) g e ∧
      steadyCalls g e ∧ intact g e) ledByLast (missedFirst.foldl act ledByLast) :=
    Machine.Accepts.run (by decide +kernel)
  have backed := claim 3 electedLeader (fun _ => False) ledByLast _ _ (ackOfFirst 2 1 2) (by decide)
    ledByLast_booted (by decide +kernel) run (by decide +kernel) (by decide +kernel)
    ⟨⟨_, _, rfl, rfl⟩, by decide +kernel⟩ .refl (by decide +kernel)
  obtain ⟨k, heard, stored⟩ := backed.stored 1 (by decide) (by decide +kernel)
  have nobody : ∀ k ∈ acked (act (missedFirst.foldl act ledByLast) (ackOfFirst 2 1 2)) 1,
      (act (missedFirst.foldl act ledByLast) (ackOfFirst 2 1 2) k).comp.stored
        ⟨(missedFirst.foldl act ledByLast 1).viewId, 1⟩ = none := by
    decide +kernel
  exact stored (nobody k heard)

end Cluster

end LibeventPaxos
