import LibeventPaxos.PostStage
import LibeventPaxos.PeerIndices
import LibeventPaxos.PingCatchUp

/-!
Which views the nodes of a cluster enter: every view is opened by the leader its election has
chosen, and whoever follows takes the whole view over from a FIN or a ping.
-/
namespace LibeventPaxos

open Lib

namespace Cluster

open Node

variable {n : ℕ}

/-- The ids of the leaders. -/
def seat (leader : UInt32 → Fin n) (view : UInt32) : NodeId := (leader view : ℕ)

/-- A node is in the view, or has told it to others and it is not a stray one. -/
inductive Holds (stray : View → Prop) (g : Cluster n) (view : View) : Prop
  | current (i : Fin n) (same : (g i).comp.curView = view)
  | told (i : Fin n) (call : Int × SysMsg) (sent : call ∈ (g i).sent)
      (tells : call.2.installed = some view) (held : ¬ stray view)

/-- An acknowledgement finds no module that an earlier election has left with another leader, a late
message is answered with the view of the node or with a stray one, which whoever it is told to
drops, and the view number does not wrap. -/
def installsElected (stray : View → Prop) (g : Cluster n) (e : ClusterEvent n) : Prop :=
  (g e.1).ClosesOwn e.2.2 ∧ (g e.1).AnswersOwn stray e.2.2 ∧ (g e.1).DropsStray stray e.2.2 ∧
    noViewWrap (g e.1) e.2

instance (stray : View → Prop) [DecidablePred stray] (g : Cluster n) (e : ClusterEvent n) :
    Decidable (installsElected stray g e) :=
  inferInstanceAs (Decidable (_ ∧ _ ∧ _ ∧ _))

/-- Views that have been held before, or are held now, are led by their leaders, and there is one
for each number. -/
structure Seated (leader : UInt32 → Fin n) (stray before : View → Prop) (g : Cluster n) :
    Prop where
  led : ∀ view, before view ∨ Holds stray g view → view.viewId ≠ 0 →
    view.leaderId = seat leader view.viewId ∧
      view.viewId.toNat ≤ (g (leader view.viewId)).viewId.toNat
  single : ∀ view view', before view ∨ Holds stray g view → before view' ∨ Holds stray g view' →
    view.viewId ≠ 0 → view.viewId = view'.viewId → view = view'
  post : ∀ i, (g i).state = .postLele → Stationed (seat leader) (g i)
  acks : ∀ i, ∀ call ∈ (g i).sent, call.2.Acks (seat leader) call.1

section Step

variable {leader : UInt32 → Fin n} {stray before : View → Prop} {g : Cluster n}

/-- An acknowledgement that arrives has reached the leader it is for. -/
theorem acks_of_reaches {source i : Fin n} {address : Int} {msg : SysMsg}
    (acks : msg.Acks (seat leader) address) (reaches : Reaches source i address) :
    msg.Acks (seat leader) (i : ℕ) := by
  cases msg with
  | leaderElection vcMsg data =>
    intro isAck
    obtain ⟨target, content⟩ := acks isAck
    refine ⟨?_, content⟩
    rcases reaches.2 with others | own
    · rw [target, seat] at others
      exact absurd others (Int.not_lt.mpr (Int.natCast_nonneg _))
    · rw [← own, target]
  | pingReq | pingAck | consensus | requestSubmit => trivial

/-- Whatever arrives tells a view that is held. -/
theorem hears_of_sent (seated : Seated leader stray before g)
    (honest : ∀ i, Honest (seat leader) (g i))
    (i : Fin n) (nodeId : (g i).nodeId = (i : ℕ)) (event : NodeEvent) (sent : Sent g i event)
    (drops : (g i).DropsStray stray event) :
    Hears (seat leader) (Holds stray g) (g i) event := by
  have arrives (msg : SysMsg) (source : Fin n) (call : Int × SysMsg)
      (member : call ∈ (g source).sent) (reaches : Reaches source i call.1) (same : call.2 = msg)
      (drops : (g i).DropsStray stray (.message msg)) :
      Hears (seat leader) (Holds stray g) (g i) (.message msg) := by
    subst same
    refine ⟨honest source call member, ?_, fun view tells next =>
      .told source call member tells (drops view tells next)⟩
    rw [nodeId]
    exact acks_of_reaches (seated.acks source call member) reaches
  cases event with
  | message msg =>
    cases msg with
    | consensus msg => exact ⟨trivial, trivial, fun view tells => by cases tells⟩
    | requestSubmit data => exact ⟨trivial, trivial, fun view tells => by cases tells⟩
    | pingReq nodeId view timestamp =>
      obtain ⟨source, call, member, reaches, same⟩ := sent
      exact arrives _ source call member reaches same drops
    | pingAck nodeId view timestamp =>
      obtain ⟨source, call, member, reaches, same⟩ := sent
      exact arrives _ source call member reaches same drops
    | leaderElection msg data =>
      obtain ⟨source, call, member, reaches, same⟩ := sent
      exact arrives _ source call member reaches same drops
  | leaderPing | expectPing | makeProgress | electionTimeout => trivial

/-- A view that is held after a call was held before it, or the call has opened it. -/
theorem holds_act {e : ClusterEvent n} {view : View}
    (tells : Tells (seat leader) (Holds stray g) stray (g e.1) (act g e e.1))
    (holds : Holds stray (act g e) view) :
    Holds stray g view ∨ (view = (act g e e.1).comp.curView ∧
      Opens (seat leader) (g e.1) (act g e e.1)) := by
  have entered : Holds stray g (act g e e.1).comp.curView ∨
      Opens (seat leader) (g e.1) (act g e e.1) := by
    rcases tells.view with same | ⟨-, known⟩ | opens
    · exact .inl (.current e.1 same.symm)
    · exact .inl known
    · exact .inr opens
  have own (same : view = (act g e e.1).comp.curView) : Holds stray g view ∨
      (view = (act g e e.1).comp.curView ∧ Opens (seat leader) (g e.1) (act g e e.1)) := by
    rcases entered with known | opens
    · exact .inl (same ▸ known)
    · exact .inr ⟨same, opens⟩
  cases holds with
  | current i same =>
    by_cases actor : i = e.1
    · subst actor
      exact own same.symm
    · rw [act_other g e i actor] at same
      exact .inl (.current i same)
  | told i call sent told held =>
    by_cases actor : i = e.1
    · subst actor
      obtain ⟨fresh, calls, known⟩ := tells.sent
      rw [calls] at sent
      rcases List.mem_append.mp sent with old | new
      · exact .inl (.told e.1 call old told held)
      · rcases (known call new).2 view told with left | now | strays
        · exact .inl (.current e.1 left.symm)
        · exact own now
        · exact absurd strays held
    · rw [act_other g e i actor] at sent
      exact .inl (.told i call sent told held)

/-- A call that moves its node moves it to the next view, whose number is greater. -/
theorem viewId_act {e : ClusterEvent n} (timed : Timed (g e.1))
    (enabled : (machine Booted).enabled g e) (noWrap : noViewWrap (g e.1) e.2) (i : Fin n) :
    (act g e i).comp.curView = (g i).comp.curView ∨
      (act g e i).viewId.toNat = (g i).viewId.toNat + 1 := by
  by_cases actor : i = e.1
  swap
  · rw [act_other g e i actor]
    exact .inl rfl
  subst actor
  rw [act_self]
  rcases (dispatch_step timed e.2 enabled.1).moves with ⟨same, -⟩ | ⟨enters, -, successor⟩
  · exact .inl same
  · have notLast : (g e.1).viewId.toNat ≠ 4294967295 := fun last =>
      noWrap (UInt32.toNat_inj.mp last) enters
    have bound := (g e.1).viewId.toNat_lt
    rw [successor, UInt32.toNat_add, UInt32.toNat_one]
    omega

/-- One call. -/
theorem Seated.step {e : ClusterEvent n} (seated : Seated leader stray before g)
    (member : ∀ i, (g i).Member n (i : ℕ)) (honest : ∀ i, Honest (seat leader) (g i))
    (honest' : ∀ i, Honest (seat leader) (act g e i)) (allowed : installsElected stray g e)
    (enabled : (machine Booted).enabled g e) : Seated leader stray before (act g e) := by
  obtain ⟨closes, answers, drops, noWrap⟩ := allowed
  have timed := (member e.1).timed
  have tells : Tells (seat leader) (Holds stray g) stray (g e.1) (act g e e.1) := by
    have hears := hears_of_sent seated honest e.1 (member e.1).nodeId e.2.2 enabled.2 drops
    have told := honest' e.1
    rw [act_self] at told ⊢
    exact tells_dispatch timed (seated.post e.1) e.2 enabled.1 hears told closes answers
  have moves := viewId_act timed enabled noWrap
  have known {view : View} (holds : before view ∨ Holds stray (act g e) view) :
      (before view ∨ Holds stray g view) ∨ (view = (act g e e.1).comp.curView ∧
        Opens (seat leader) (g e.1) (act g e e.1)) := by
    rcases holds with earlier | now
    · exact .inl (.inl earlier)
    · exact (holds_act tells now).imp_left .inr
  have grows (i : Fin n) : (g i).viewId.toNat ≤ (act g e i).viewId.toNat := by
    rcases moves i with same | next
    · rw [Node.viewId, Node.viewId, same]
    · omega
  have elected (opens : Opens (seat leader) (g e.1) (act g e e.1)) :
      leader (act g e e.1).viewId = e.1 := by
    have named := opens.elected
    rw [(member e.1).nodeId, seat] at named
    exact Fin.ext (Int.ofNat.inj named).symm
  -- the view that is opened has not been held before: its leader was still in the one before
  have fresh {view : View} (opens : Opens (seat leader) (g e.1) (act g e e.1))
      (old : before view ∨ Holds stray g view) (set : view.viewId ≠ 0)
      (same : view.viewId = (act g e e.1).viewId) : False := by
    have reached := (seated.led view old set).2
    rw [same, elected opens] at reached
    rcases moves e.1 with stays | next
    · have next := opens.next
      rw [Node.viewId, stays] at next
      exact viewId_succ_ne _ next.symm
    · omega
  refine ⟨?_, ?_, ?_, ?_⟩
  · intro view holds set
    rcases known holds with old | ⟨rfl, opens⟩
    · obtain ⟨leads, reached⟩ := seated.led view old set
      exact ⟨leads, reached.trans (grows _)⟩
    · have leads := elected opens
      rw [Node.viewId] at leads
      refine ⟨?_, ?_⟩
      · rw [opens.own, (member e.1).nodeId, seat, leads]
      · rw [leads]
        exact le_rfl
  · intro view view' holds holds' set same
    rcases known holds with old | ⟨now, opens⟩
    · rcases known holds' with old' | ⟨rfl, opens⟩
      · exact seated.single view view' old old' set same
      · exact (fresh opens old set same).elim
    · rcases known holds' with old' | ⟨rfl, -⟩
      · subst now
        exact (fresh opens old' (same ▸ set) same.symm).elim
      · exact now
  · intro i post
    by_cases actor : i = e.1
    · subst actor
      exact tells.post post
    · rw [act_other g e i actor] at post ⊢
      exact seated.post i post
  · intro i call sent
    by_cases actor : i = e.1
    · subst actor
      obtain ⟨fresh, calls, told⟩ := tells.sent
      rw [calls] at sent
      rcases List.mem_append.mp sent with old | new
      · exact seated.acks e.1 call old
      · exact (told call new).1
    · rw [act_other g e i actor] at sent
      exact seated.acks i call sent

/-- What a node has sent stays in its log. -/
theorem honest_of_act {e : ClusterEvent n} (honest : ∀ i, Honest (seat leader) (act g e i))
    (i : Fin n) : Honest (seat leader) (g i) := by
  intro call sent
  refine honest i call ?_
  by_cases actor : i = e.1
  · subst actor
    obtain ⟨fresh, calls, -⟩ := adds_dispatch (g e.1) e.2
    rw [act_self, calls]
    exact List.mem_append_left _ sent
  · rw [act_other g e i actor]
    exact sent

theorem honest_of_run {guard : Cluster n → ClusterEvent n → Prop} {g' : Cluster n}
    (run : (machine Booted).Run guard g g') (honest : ∀ i, Honest (seat leader) (g' i)) :
    ∀ i, Honest (seat leader) (g i) := by
  induction run with
  | refl => exact honest
  | step _ _ _ ih => exact ih fun i => honest_of_act honest i

/-- A whole run. -/
theorem Seated.run {g' : Cluster n} (seated : Seated leader stray before g)
    (reached : (machine Booted).Reaches (installsElected stray) g)
    (run : (machine Booted).Run (installsElected stray) g g')
    (honest : ∀ i, Honest (seat leader) (g' i)) : Seated leader stray before g' := by
  have both : (machine Booted).Reaches (installsElected stray) g' ∧
      ((∀ i, Honest (seat leader) (g' i)) → Seated leader stray before g') := by
    apply run.invariant (I := fun g' => (machine Booted).Reaches (installsElected stray) g' ∧
      ((∀ i, Honest (seat leader) (g' i)) → Seated leader stray before g'))
    · intro s e known allowed enabled
      refine ⟨known.1.step allowed enabled, fun honest' => ?_⟩
      have earlier := honest_of_act honest'
      exact (known.2 earlier).step (member_of_reaches s known.1) earlier honest' allowed enabled
    · exact ⟨reached, fun _ => seated⟩
  exact both.2 honest

end Step

/-- The seed counts as the leader elected for the first view. -/
theorem Booted.seated {leader : UInt32 → Fin n} {stray : View → Prop} {g : Cluster n}
    (booted : Booted g) (seeds : ∀ i, (g i).viewId ≠ 0 → leader 1 = i) :
    Seated leader stray (fun _ => False) g := by
  have first {view : View} (holds : False ∨ Holds stray g view) (set : view.viewId ≠ 0) :
      ∃ i : Fin n, view = ⟨1, (i : ℕ), 0⟩ ∧ leader 1 = i ∧ (g i).viewId = 1 := by
    cases holds.resolve_left id with
    | current i same =>
      subst same
      refine ⟨i, ?_, seeds i set, ?_⟩
      · obtain ⟨seed, expectPingTimeval, now, env, start⟩ := booted i
        rw [start] at set ⊢
        cases seed with
        | true => rfl
        | false => exact absurd rfl set
      · obtain ⟨seed, expectPingTimeval, now, env, start⟩ := booted i
        rw [start] at set ⊢
        cases seed with
        | true => rfl
        | false => exact absurd rfl set
    | told i call sent tells held =>
      obtain ⟨seed, expectPingTimeval, now, env, start⟩ := booted i
      rw [start] at sent
      cases sent
  refine ⟨?_, ?_, ?_, ?_⟩
  · intro view holds set
    obtain ⟨i, rfl, leads, reached⟩ := first holds set
    refine ⟨?_, ?_⟩
    · show ((i : ℕ) : NodeId) = seat leader 1
      rw [seat, leads]
    · show UInt32.toNat 1 ≤ (g (leader 1)).viewId.toNat
      rw [leads, reached]
  · intro view view' holds holds' set same
    obtain ⟨i, rfl, leads, -⟩ := first holds set
    obtain ⟨j, rfl, leads', -⟩ := first holds' (same ▸ set)
    rw [leads.symm.trans leads']
  · intro i post
    obtain ⟨seed, expectPingTimeval, now, env, start⟩ := booted i
    rw [start] at post
    cases post
  · intro i call sent
    obtain ⟨seed, expectPingTimeval, now, env, start⟩ := booted i
    rw [start] at sent
    cases sent

/-- In every run in which no acknowledgement completes a majority under another leader left from an
earlier election, late messages are answered with the view of the node or with stray views that
nobody takes over, and no view number wraps: if all announcements for a view name its leader, a
node that has entered the view has this leader, and any node that enters it at any later time has
the same view with the same boundary. -/
theorem entered_views_agree (n : ℕ) (leader : UInt32 → Fin n) (stray : View → Prop)
    (g₀ g g' : Cluster n) (booted : Booted g₀) (seeds : ∀ i, (g₀ i).viewId ≠ 0 → leader 1 = i)
    (before : (machine Booted).Run (installsElected stray) g₀ g)
    (after : (machine Booted).Run (installsElected stray) g g')
    (announced : ∀ i, Honest (seat leader) (g' i)) (i : Fin n) (entered : (g i).viewId ≠ 0) :
    (g i).comp.curView.leaderId = (leader (g i).viewId : ℕ) ∧
      ∀ j, (g' j).viewId = (g i).viewId → (g' j).comp.curView = (g i).comp.curView := by
  have start : (machine Booted).Reaches (installsElected stray) g₀ := ⟨g₀, booted, .refl⟩
  have reached : (machine Booted).Reaches (installsElected stray) g := ⟨g₀, booted, before⟩
  have seated := (booted.seated seeds).run start before (honest_of_run after announced)
  -- from here on the views held at `g` count as held before
  have kept : Seated leader stray (Holds stray g) g := {
    led := fun view holds => seated.led view (.inr (or_self_iff.mp holds))
    single := fun view view' holds holds' =>
      seated.single view view' (.inr (or_self_iff.mp holds)) (.inr (or_self_iff.mp holds'))
    post := seated.post
    acks := seated.acks }
  have seated' := kept.run reached after announced
  have current : Holds stray g (g i).comp.curView := .current i rfl
  refine ⟨(seated.led _ (.inr current) entered).1, fun j same => ?_⟩
  exact (seated'.single _ _ (.inl current) (.inr (.current j rfl)) entered same.symm).symm

/-! ## Runs on fixed events -/

/-- Three nodes, the last of which is the seed. -/
def ledByLast : Cluster 3 := fun i => Node.init (i = 2) i 3 ⟨8, 0⟩ ⟨0, 0⟩ lateEnv

/-- The leader of the view pings, and the receiver enters the view. -/
def joinsByPing (view : UInt32) (receiver pinging : Fin 3) : List (ClusterEvent 3) :=
  [(pinging, lateEnv, .leaderPing), (receiver, lateEnv,
    .message (.pingReq (pinging : ℕ) ⟨view, (pinging : ℕ), 0⟩ ⟨9, 0⟩))]

/-- A message of the election for the view, as the nodes send it. -/
def electionMsg (view : UInt32) (receiver sender : Fin 3) (type : LeleType) (pnum pPnum : Int)
    (content : NodeId) : ClusterEvent 3 :=
  let lastReq := if type = .acceptAck then 4294967295 else 0
  (receiver, lateEnv, .message
    (.leaderElection ⟨type, (sender : ℕ), view, pnum, pPnum, content, lastReq, 0⟩ []))

/-- The proposer is elected with the vote of one other node, whose last accepted number is
`accepted`, and both enter the view. -/
def electedWith (view : UInt32) (proposer voter : Fin 3) (rounds : ℕ) (pnum accepted : Int) :
    List (ClusterEvent 3) :=
  [(proposer, lateEnv, .expectPing), (voter, lateEnv, .expectPing)] ++
  List.replicate rounds (proposer, lateEnv, .electionTimeout) ++
  [electionMsg view voter proposer .prepare pnum (-1) (-1),
    electionMsg view proposer voter .prepareAck accepted pnum (-1),
    electionMsg view voter proposer .accept pnum (-1) (proposer : ℕ),
    electionMsg view proposer voter .acceptAck pnum 0 (proposer : ℕ),
    electionMsg view voter proposer .announce pnum 0 (proposer : ℕ),
    electionMsg view proposer voter .announceAck 0 0 (proposer : ℕ),
    electionMsg view voter proposer .fin 0 0 (proposer : ℕ)]

/-- Node 1 is elected for view 2. -/
def secondView : List (ClusterEvent 3) :=
  joinsByPing 1 0 2 ++ joinsByPing 1 1 2 ++ electedWith 2 1 0 1 1 0

/-- Nodes 2 and 0 are elected for views 3 and 4. -/
def fourthView : List (ClusterEvent 3) :=
  secondView ++ joinsByPing 2 2 1 ++ electedWith 3 2 0 1 2 1 ++ joinsByPing 3 1 2 ++
    electedWith 4 0 1 2 3 0 ++ joinsByPing 4 2 0

/-- Node 1 is elected for view 5; the acknowledgement of node 2, which takes over the proposal of
node 1, overtakes the announcement. -/
def fifthView : List (ClusterEvent 3) :=
  fourthView ++ [(1, lateEnv, .expectPing), (2, lateEnv, .expectPing),
    (1, lateEnv, .electionTimeout), (1, lateEnv, .electionTimeout),
    electionMsg 5 2 1 .prepare 4 (-1) (-1), electionMsg 5 1 2 .prepareAck 0 4 (-1),
    electionMsg 5 2 1 .accept 4 (-1) 1, (2, lateEnv, .electionTimeout),
    (2, lateEnv, .electionTimeout), electionMsg 5 1 2 .prepare 5 (-1) (-1),
    electionMsg 5 2 1 .prepareAck 3 5 (-1), electionMsg 5 1 2 .accept 5 (-1) 1,
    electionMsg 5 2 1 .acceptAck 5 0 1, electionMsg 5 1 2 .announceAck 0 0 1]

/-- The leaders of the views. -/
def electedLeader (view : UInt32) : Fin 3 :=
  if view = 1 ∨ view = 3 then 2 else if view = 4 then 0 else 1

theorem ledByLast_booted : Booted ledByLast := fun _ => ⟨_, _, _, _, rfl⟩

/-- Node 0, already in the election for view 3, answers the repeated announcement for view 2 with
what its database holds under 2:0, which is not the view. -/
def lateAnswer : List (ClusterEvent 3) :=
  [(0, lateEnv, .expectPing), electionMsg 2 0 1 .announce 1 0 1]

/-- Node 2, the leader of view 1, enters view 2 on a ping of node 1. -/
theorem second_view_agrees :
    let g := (secondView ++ lateAnswer).foldl act ledByLast
    let g' := (joinsByPing 2 2 1).foldl act g
    (g 1).viewId = 2 ∧ (g 1).comp.curView.leaderId = 1 ∧
      (g' 2).comp.curView = (g 1).comp.curView := by
  have before : (machine Booted).Run (installsElected (· = ⟨0, 0, 0⟩)) ledByLast
      ((secondView ++ lateAnswer).foldl act ledByLast) := Machine.Accepts.run (by decide +kernel)
  have after : (machine Booted).Run (installsElected (· = ⟨0, 0, 0⟩))
      ((secondView ++ lateAnswer).foldl act ledByLast)
      ((joinsByPing 2 2 1).foldl act ((secondView ++ lateAnswer).foldl act ledByLast)) :=
    Machine.Accepts.run (by decide +kernel)
  have agree := entered_views_agree 3 electedLeader (· = ⟨0, 0, 0⟩) ledByLast _ _ ledByLast_booted
    (by decide +kernel) before after (by decide +kernel) 1 (by decide +kernel)
  exact ⟨by decide +kernel, agree.1, agree.2 2 (by decide +kernel)⟩

/-- In the election for view 5 node 1 still holds the range and the leader of earlier elections, so
it installs node 0, whom no announcement for view 5 names. -/
theorem stale_leader_installed :
    ¬ ∀ (n : ℕ) (leader : UInt32 → Fin n) (g₀ g g' : Cluster n), Booted g₀ →
      (∀ i, (g₀ i).viewId ≠ 0 → leader 1 = i) → (machine Booted).Run Machine.anything g₀ g →
      (machine Booted).Run Machine.anything g g' → (∀ i, Honest (seat leader) (g' i)) →
      ∀ i, (g i).viewId ≠ 0 → (g i).comp.curView.leaderId = (leader (g i).viewId : ℕ) ∧
        ∀ j, (g' j).viewId = (g i).viewId → (g' j).comp.curView = (g i).comp.curView := by
  intro claim
  have run : (machine Booted).Run Machine.anything ledByLast (fifthView.foldl act ledByLast) :=
    Machine.Accepts.run (by decide +kernel)
  have installed := claim 3 electedLeader ledByLast _ _ ledByLast_booted (by decide +kernel) run
    .refl (by decide +kernel) 1 (by decide +kernel)
  have other : ((fifthView.foldl act ledByLast) 1).comp.curView = ⟨5, 0, 0⟩ := by decide +kernel
  rw [Node.viewId, other] at installed
  exact absurd installed.1 (by decide)

end Cluster

end LibeventPaxos
