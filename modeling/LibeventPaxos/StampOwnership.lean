import LibeventPaxos.Group

/-!
Who gives stamps to requests: over any number of view changes with one leader for each view, a
stamp is given once, by the leader of its view.
-/
namespace LibeventPaxos

open Lib

namespace Group

variable {n : ℕ}

/-- Every view has one leader: the one `update_view` is told. -/
def SingleLeader (leaderOf : UInt32 → NodeId) : CompEvent → Prop
  | .updateView newViewInfo => newViewInfo.leaderId = leaderOf newViewInfo.viewId
  | _ => True

instance (leaderOf : UInt32 → NodeId) : ∀ event, Decidable (SingleLeader leaderOf event)
  | .updateView newViewInfo =>
    inferInstanceAs (Decidable (newViewInfo.leaderId = leaderOf newViewInfo.viewId))
  | .message _ => .isTrue trivial
  | .submit _ => .isTrue trivial
  | .makeProgress => .isTrue trivial
  | .acceptorUpdateRecord _ _ => .isTrue trivial

/-- A node takes a request only while its highest seen stamp is in its own view and its request
number does not wrap; view numbers do not wrap either. -/
def TakesInView (c : Comp) (e : Env × CompEvent) : Prop :=
  (c.taken e ≠ none → c.highestSeenVs.viewId = c.curView.viewId ∧
    c.highestSeenVs.reqId.toNat < 4294967295) ∧
  ∀ newViewInfo, e.2 = .updateView newViewInfo → newViewInfo.viewId ≠ 0

instance (c : Comp) : ∀ e, Decidable (TakesInView c e)
  | (env, .updateView newViewInfo) =>
    decidable_of_iff ((c.taken (env, .updateView newViewInfo) ≠ none →
        c.highestSeenVs.viewId = c.curView.viewId ∧ c.highestSeenVs.reqId.toNat < 4294967295) ∧
        newViewInfo.viewId ≠ 0)
      (and_congr_right fun _ => ⟨fun nonzero _ same => CompEvent.updateView.inj same ▸ nonzero,
        fun all => all newViewInfo rfl⟩)
  | (env, .message msg) =>
    decidable_of_iff (c.taken (env, .message msg) ≠ none →
        c.highestSeenVs.viewId = c.curView.viewId ∧ c.highestSeenVs.reqId.toNat < 4294967295)
      ⟨fun takes => ⟨takes, nofun⟩, And.left⟩
  | (env, .submit data) =>
    decidable_of_iff (c.taken (env, .submit data) ≠ none →
        c.highestSeenVs.viewId = c.curView.viewId ∧ c.highestSeenVs.reqId.toNat < 4294967295)
      ⟨fun takes => ⟨takes, nofun⟩, And.left⟩
  | (_, .makeProgress) => .isTrue ⟨fun takes => absurd rfl takes, nofun⟩
  | (_, .acceptorUpdateRecord _ _) => .isTrue ⟨fun takes => absurd rfl takes, nofun⟩

/-- The steps of a run with one leader for each view. -/
def oneLeader (leaderOf : UInt32 → NodeId) (_ : Group n) (e : GroupEvent n) : Prop :=
  SingleLeader leaderOf e.2.2

instance (leaderOf : UInt32 → NodeId) (g : Group n) (e : GroupEvent n) :
    Decidable (oneLeader leaderOf g e) :=
  inferInstanceAs (Decidable (SingleLeader leaderOf e.2.2))

/-- Those of them in which requests are taken in the node's own view only, and every record that
arrives in a `missing_ack` is intact. -/
def oneLeaderInView (leaderOf : UInt32 → NodeId) (g : Group n) (e : GroupEvent n) : Prop :=
  oneLeader leaderOf g e ∧ TakesInView (g e.1) e.2 ∧ Intact g e.1 e.2.2

/-! ## The invariant of a node -/

structure Owner (leaderOf : UInt32 → NodeId) (i : Fin n) (c : Comp) : Prop where
  nodeId : c.nodeId = i
  leader : c.curView.viewId ≠ 0 → c.curView.leaderId = leaderOf c.curView.viewId
  role : c.myRole = .leader → c.curView.leaderId = (i : ℕ)
  seen : c.highestSeenVs.viewId ≠ 0
  assigned : ∀ a ∈ c.assigned, leaderOf a.1.viewId = (i : ℕ) ∧
    (a.1.viewId.toNat < c.curView.viewId.toNat ∨
      a.1.viewId = c.curView.viewId ∧ (vstol a.1).toNat ≤ (vstol c.highestSeenVs).toNat)
  increasing : c.assigned.Pairwise fun a b => (vstol a.1).toNat < (vstol b.1).toNat

theorem start_owner (seed : Option (Fin n)) (leaderOf : UInt32 → NodeId)
    (consistent : ∀ i, seed = some i → leaderOf 1 = (i : ℕ)) (i : Fin n) :
    Owner leaderOf i (start n seed i) := by
  by_cases isSeed : seed = some i
  · have same : start n seed i = Comp.init true i n := by simp [start, isSeed]
    rw [same]
    exact {
      nodeId := rfl
      leader := fun _ => (consistent i isSeed).symm
      role := fun _ => rfl
      seen := by simp [Comp.init]
      assigned := fun a member => by cases member
      increasing := .nil }
  · have same : start n seed i = Comp.init false i n := by simp [start, isSeed]
    rw [same]
    exact {
      nodeId := rfl
      leader := fun active => absurd rfl active
      role := by
        intro leader
        simpa [Comp.init] using leader
      seen := by simp [Comp.init]
      assigned := fun a member => by cases member
      increasing := .nil }

/-- The stamp a node gives next lies above all it has given. -/
theorem Owner.next {leaderOf : UInt32 → NodeId} {i : Fin n} {c : Comp} (owner : Owner leaderOf i c)
    (sameView : c.highestSeenVs.viewId = c.curView.viewId)
    (room : c.highestSeenVs.reqId.toNat < 4294967295) :
    (vstol c.getNextViewStamp).toNat = (vstol c.highestSeenVs).toNat + 1 ∧
      ∀ a ∈ c.assigned, (vstol a.1).toNat < (vstol c.getNextViewStamp).toNat := by
  have reqId : c.getNextViewStamp.reqId.toNat = c.highestSeenVs.reqId.toNat + 1 := by
    simp only [Comp.getNextViewStamp, UInt32.toNat_add, UInt32.toNat_one]
    omega
  have next : (vstol c.getNextViewStamp).toNat = (vstol c.highestSeenVs).toNat + 1 := by
    have view : c.getNextViewStamp.viewId = c.highestSeenVs.viewId := rfl
    rw [vstol_toNat, vstol_toNat, reqId, view, Nat.add_assoc]
  refine ⟨next, fun a member => ?_⟩
  rcases (owner.assigned a member).2 with earlier | ⟨-, below⟩
  · have a_lt := a.1.reqId.toNat_lt
    rw [next, vstol_toNat, vstol_toNat, sameView]
    omega
  · omega

theorem Owner.handle {leaderOf : UInt32 → NodeId} {i : Fin n} {c : Comp} (owner : Owner leaderOf i c)
    (e : Env × CompEvent) (running : c.fault = none) (single : SingleLeader leaderOf e.2)
    (inView : TakesInView c e) : Owner leaderOf i (c.handle e) := by
  obtain ⟨step, same⟩ := Comp.handle_step c e running
  have nodeId := same.nodeId.trans owner.nodeId
  cases step with
  -- the seen stamp may grow, the assigned ones do not change
  | stays nothing assigned view role seen =>
    exact {
      nodeId := nodeId
      leader := by rw [view]; exact owner.leader
      role := by rw [view, role]; exact owner.role
      seen := by
        have positive : c.highestSeenVs.viewId.toNat ≠ 0 := fun zero =>
          owner.seen (UInt32.toNat_inj.mp zero)
        have up := Comp.viewId_le_of_vstol_le seen
        intro zero
        rw [zero, UInt32.toNat_zero] at up
        omega
      assigned := by
        rw [assigned, view]
        intro a member
        obtain ⟨mine, position⟩ := owner.assigned a member
        exact ⟨mine, position.imp_right fun current => ⟨current.1, current.2.trans seen⟩⟩
      increasing := by rw [assigned]; exact owner.increasing }
  -- the new stamp lies above every stamp of the current view
  | takes data some_data leader assigned view role seen =>
    obtain ⟨sameView, room⟩ := inView.1 (by rw [some_data]; exact Option.some_ne_none data)
    obtain ⟨next, above⟩ := owner.next sameView room
    have active : c.curView.viewId ≠ 0 := sameView ▸ owner.seen
    exact {
      nodeId := nodeId
      leader := by rw [view]; exact owner.leader
      role := by rw [view, role]; exact owner.role
      seen := by rw [seen]; exact owner.seen
      assigned := by
        rw [assigned, view, seen]
        intro a member
        rcases List.mem_append.mp member with old | new
        · obtain ⟨mine, position⟩ := owner.assigned a old
          exact ⟨mine, position.imp_right fun current => ⟨current.1, by omega⟩⟩
        · obtain rfl := List.mem_singleton.mp new
          refine ⟨?_, .inr ⟨sameView, le_rfl⟩⟩
          show leaderOf c.highestSeenVs.viewId = _
          rw [sameView, ← owner.leader active, owner.role leader]
      increasing := by
        rw [assigned]
        refine List.pairwise_append.mpr ⟨owner.increasing, List.pairwise_singleton _ _, ?_⟩
        intro a old b new
        obtain rfl := List.mem_singleton.mp new
        exact above a old }
  -- every stamp assigned so far belongs to an earlier view from now on
  | enters newViewInfo event nothing successor assigned view role seen =>
    have nonzero := inView.2 newViewInfo event
    have next : newViewInfo.viewId.toNat = c.curView.viewId.toNat + 1 := by
      have sum := congrArg UInt32.toNat successor
      have positive : newViewInfo.viewId.toNat ≠ 0 := fun zero =>
        nonzero (UInt32.toNat_inj.mp zero)
      have view_lt := c.curView.viewId.toNat_lt
      rw [UInt32.toNat_add, UInt32.toNat_one] at sum
      omega
    exact {
      nodeId := nodeId
      leader := by
        rw [event] at single
        rw [view]
        exact fun _ => single
      role := by
        rw [view, role]
        intro leader
        by_contra other
        rw [owner.nodeId, if_pos other] at leader
        cases leader
      seen := by rw [seen]; exact nonzero
      assigned := by
        rw [assigned, view]
        intro a member
        obtain ⟨mine, position⟩ := owner.assigned a member
        refine ⟨mine, .inl ?_⟩
        rcases position with earlier | ⟨current, -⟩
        · omega
        · rw [current]
          omega
      increasing := by rw [assigned]; exact owner.increasing }

/-! ## Runs -/

/-- What holds of every group whose nodes take requests in their own view only. -/
structure Owned (leaderOf : UInt32 → NodeId) (g : Group n) : Prop where
  sourced : Sourced g
  owner : ∀ i, Owner leaderOf i (g i)

theorem Owned.act {leaderOf : UInt32 → NodeId} {g : Group n} (owned : Owned leaderOf g)
    (e : GroupEvent n) (running : (g e.1).fault = none) (sent : Sent g e.1 e.2.2)
    (allowed : oneLeaderInView leaderOf g e) : Owned leaderOf (act g e) :=
  ⟨owned.sourced.act e running sent allowed.2.2, act_forall g e (Owner leaderOf) owned.owner
    ((owned.owner e.1).handle e.2 running allowed.1 allowed.2.1)⟩

theorem owned_of_reaches (seed : Option (Fin n)) (leaderOf : UInt32 → NodeId)
    (consistent : ∀ i, seed = some i → leaderOf 1 = (i : ℕ)) (g : Group n)
    (reached : (machine n seed).Reaches (oneLeaderInView leaderOf) g) : Owned leaderOf g := by
  apply reached.invariant (I := Owned leaderOf)
  · rintro g rfl
    exact ⟨start_sourced seed, start_owner seed leaderOf consistent⟩
  · intro g e owned allowed enabled
    exact owned.act e enabled.1 enabled.2 allowed

/-- Assigned stamps are never taken back. -/
theorem assigned_of_run (seed : Option (Fin n)) {guard : Group n → GroupEvent n → Prop}
    {g g' : Group n} (run : (machine n seed).Run guard g g') (vs : ViewStamp) (data : List UInt8)
    (assigned : Assigned g vs data) : Assigned g' vs data :=
  run.invariant (I := fun g => Assigned g vs data)
    (fun _ e assigned _ enabled => assigned.act e enabled.1) assigned

/-- Each stamp is given at most once. -/
theorem Owned.once {leaderOf : UInt32 → NodeId} {g : Group n} (owned : Owned leaderOf g)
    (i j : Fin n) (p q : ℕ) (vs : ViewStamp) (data data' : List UInt8)
    (first : (g i).assigned[p]? = some (vs, data))
    (second : (g j).assigned[q]? = some (vs, data')) : i = j ∧ p = q := by
  have mine := ((owned.owner i).assigned _ (List.mem_of_getElem? first)).1
  have theirs := ((owned.owner j).assigned _ (List.mem_of_getElem? second)).1
  have same : i = j := Fin.ext (Int.ofNat_inj.mp (mine.symm.trans theirs))
  subst same
  refine ⟨rfl, ?_⟩
  obtain ⟨p_lt, at_p⟩ := List.getElem?_eq_some_iff.mp first
  obtain ⟨q_lt, at_q⟩ := List.getElem?_eq_some_iff.mp second
  have increasing := List.pairwise_iff_getElem.mp (owned.owner i).increasing
  rcases Nat.lt_trichotomy p q with before | same | after
  · have order := increasing p q p_lt q_lt before
    rw [at_p, at_q] at order
    exact absurd order (Nat.lt_irrefl _)
  · exact same
  · have order := increasing q p q_lt p_lt after
    rw [at_p, at_q] at order
    exact absurd order (Nat.lt_irrefl _)

theorem Owned.unique {leaderOf : UInt32 → NodeId} {g : Group n} (owned : Owned leaderOf g)
    (vs : ViewStamp) (data data' : List UInt8) (first : Assigned g vs data)
    (second : Assigned g vs data') : data = data' := by
  obtain ⟨i, member⟩ := first
  obtain ⟨j, member'⟩ := second
  obtain ⟨p, at_p⟩ := List.mem_iff_getElem?.mp member
  obtain ⟨q, at_q⟩ := List.mem_iff_getElem?.mp member'
  obtain ⟨rfl, rfl⟩ := owned.once i j p q vs data data' at_p at_q
  exact congrArg Prod.snd (Option.some.inj (at_p.symm.trans at_q))

theorem Sourced.payload {g : Group n} (sourced : Sourced g) (i : Fin n) (vs : ViewStamp)
    (data : List UInt8) (request : Comp.IsRequest vs) (stored : (g i).payloadAt vs = some data) :
    Assigned g vs data := by
  simp only [Comp.payloadAt] at stored
  split at stored
  next record found =>
    obtain ⟨record', same, assigned⟩ := (sourced i).records vs request _ found
    cases same
    exact Option.some.inj stored ▸ assigned
  next => cases stored

/-- The stamps of a group: each is given once, by the leader of its view while it is in that view,
and a request keeps its payload wherever and as often as it is stored. -/
structure StampsOwned (leaderOf : UInt32 → NodeId) (machine : Machine (Group n) (GroupEvent n))
    (guard : Group n → GroupEvent n → Prop) (g : Group n) : Prop where
  once : ∀ (i j : Fin n) (p q : ℕ) (vs : ViewStamp) (data data' : List UInt8),
    (g i).assigned[p]? = some (vs, data) →
    (g j).assigned[q]? = some (vs, data') → i = j ∧ p = q
  byLeader : ∀ e, guard g e → machine.enabled g e → ∀ i vs data,
    (vs, data) ∈ (machine.apply g e i).assigned → (vs, data) ∉ (g i).assigned →
    (g i).curView.viewId = vs.viewId ∧ (g i).curView.leaderId = (i : ℕ) ∧
      leaderOf vs.viewId = (i : ℕ)
  kept : ∀ g', machine.Run guard g g' → ∀ i vs data data', Comp.IsRequest vs →
    (g i).payloadAt vs = some data → (g' i).payloadAt vs = some data' → data = data'

/-- Stamps are owned in every run in which nodes take requests in their own view only. -/
theorem stamps_owned_in_view (seed : Option (Fin n)) (leaderOf : UInt32 → NodeId)
    (consistent : ∀ i, seed = some i → leaderOf 1 = (i : ℕ)) (g : Group n)
    (reached : (machine n seed).Reaches (oneLeaderInView leaderOf) g) :
    StampsOwned leaderOf (machine n seed) (oneLeaderInView leaderOf) g := by
  have owned := owned_of_reaches seed leaderOf consistent g reached
  refine ⟨owned.once, ?_, ?_⟩
  · intro e allowed enabled i vs data given fresh
    have owner := owned.owner i
    by_cases acts : i = e.1
    · subst acts
      have result : (machine n seed).apply g e e.1 = Comp.handle (g e.1) e.2 := act_self g e
      rw [result] at given
      cases (Comp.handle_step (g e.1) e.2 enabled.1).1 with
      | stays nothing assigned => rw [assigned] at given; exact absurd given fresh
      | enters newViewInfo event nothing successor assigned =>
        rw [assigned] at given
        exact absurd given fresh
      | takes data' some_data leader assigned =>
        rw [assigned] at given
        rcases List.mem_append.mp given with old | new
        · exact absurd old fresh
        · have sameView := (allowed.2.1.1 (by rw [some_data]; exact Option.some_ne_none _)).1
          have active : (g e.1).curView.viewId ≠ 0 := sameView ▸ owner.seen
          obtain ⟨rfl, rfl⟩ := Prod.mk.inj (List.mem_singleton.mp new)
          refine ⟨sameView.symm, owner.role leader, ?_⟩
          show leaderOf (g e.1).highestSeenVs.viewId = _
          rw [sameView, ← owner.leader active, owner.role leader]
    · have result : (machine n seed).apply g e i = g i := act_other g e i acts
      rw [result] at given
      exact absurd given fresh
  · intro g' run i vs data data' request before after
    have owned' := owned_of_reaches seed leaderOf consistent g' (reached.extend run)
    exact owned'.unique vs data data'
      (assigned_of_run seed run vs data (owned.sourced.payload i vs data request before))
      (owned'.sourced.payload i vs data' request after)

/-- A follower joins the seed and stores its request. -/
theorem joined_follower_owned :
    let run : List (GroupEvent 2) :=
      [(1, Comp.quietEnv, .updateView ⟨1, 0, 0⟩), (0, Comp.quietEnv, .submit [5]),
        (1, Comp.quietEnv, .message (.acceptReq ⟨1, 1⟩ ⟨1, 0⟩ 0 ⟨⟨0, 0⟩, 0, 1, [5]⟩))]
    let g := run.foldl act (start 2 (some 0))
    (g 1).payloadAt ⟨1, 1⟩ = some [5] ∧
      StampsOwned (fun _ => 0) (machine 2 (some 0)) (oneLeaderInView fun _ => 0) g := by
  refine ⟨by decide, stamps_owned_in_view (some 0) (fun _ => 0) (by simp) _
    ⟨start 2 (some 0), rfl, ?_⟩⟩
  apply Machine.Accepts.run
  refine ⟨⟨rfl, ⟨fun takes => absurd rfl takes, ?_⟩, trivial⟩, by decide,
    ⟨trivial, ⟨fun _ => by decide, ?_⟩, trivial⟩, by decide,
    ⟨trivial, ⟨fun takes => absurd rfl takes, ?_⟩, trivial⟩, by decide, trivial⟩
  · rintro newViewInfo ⟨⟩
    decide
  · rintro newViewInfo ⟨⟩
  · rintro newViewInfo ⟨⟩

/-- Nodes 1 and 2 join and enter view 2 under node 1. Its first request reaches the leader of
view 1, which has not heard of the new view. -/
def takeover : List (GroupEvent 3) :=
  [(1, Comp.quietEnv, .updateView ⟨1, 0, 0⟩), (2, Comp.quietEnv, .updateView ⟨1, 0, 0⟩),
    (1, Comp.quietEnv, .updateView ⟨2, 1, 0⟩), (2, Comp.quietEnv, .updateView ⟨2, 1, 0⟩),
    (1, Comp.quietEnv, .submit [1]),
    (0, Comp.quietEnv, .message (.acceptReq ⟨2, 1⟩ ⟨2, 0⟩ 1 ⟨⟨0, 0⟩, 0, 2, [1]⟩)),
    (0, Comp.quietEnv, .submit [2]), (1, Comp.quietEnv, .submit [3])]

/-- The old leader goes on from the stamp it has seen: both nodes give (2,2) to a request. -/
theorem deposed_leader_gives_stamp :
    ¬ ∀ (seed : Option (Fin 3)) (leaderOf : UInt32 → NodeId),
      (∀ i, seed = some i → leaderOf 1 = (i : ℕ)) →
      ∀ g, (machine 3 seed).Reaches (oneLeader leaderOf) g →
        StampsOwned leaderOf (machine 3 seed) (oneLeader leaderOf) g := by
  intro claim
  let leaderOf : UInt32 → NodeId := fun viewId => if viewId = 1 then 0 else 1
  have accepted : (machine 3 (some 0)).Accepts (oneLeader leaderOf) (start 3 (some 0)) takeover := by
    decide
  have owned := claim (some 0) leaderOf (by simp [leaderOf]) _ ⟨_, rfl, accepted.run⟩
  have old : (takeover.foldl act (start 3 (some 0)) 0).assigned[0]? = some (⟨2, 2⟩, [2]) := by
    decide
  have new : (takeover.foldl act (start 3 (some 0)) 1).assigned[1]? = some (⟨2, 2⟩, [3]) := by
    decide
  exact absurd (owned.once 0 1 0 1 ⟨2, 2⟩ [2] [3] old new).1 (by decide)

/-- A follower recovers (1,2), the five bytes of which lie behind the message that brings it, before
the request reaches it from the leader. -/
def recovery : List (GroupEvent 3) :=
  [(1, Comp.quietEnv, .updateView ⟨1, 0, 0⟩), (2, Comp.quietEnv, .updateView ⟨1, 0, 0⟩),
    (0, Comp.quietEnv, .submit [5]), (0, Comp.quietEnv, .submit [1, 2, 3, 4, 5]),
    (2, Comp.quietEnv, .message (.acceptReq ⟨1, 1⟩ ⟨1, 0⟩ 0 ⟨⟨0, 0⟩, 0, 1, [5]⟩)),
    (2, Comp.quietEnv, .message (.acceptReq ⟨1, 2⟩ ⟨1, 0⟩ 0 ⟨⟨0, 0⟩, 0, 1, [1, 2, 3, 4, 5]⟩)),
    (0, Comp.quietEnv, .message (.acceptAck ⟨1, 1⟩ 2)),
    (0, Comp.quietEnv, .message (.acceptAck ⟨1, 2⟩ 2)), (0, Comp.quietEnv, .makeProgress),
    (1, Comp.quietEnv, .message (.forceExec 0 ⟨1, 2⟩)),
    (0, Comp.quietEnv, .message (.missingReq 1 ⟨1, 2⟩)),
    (1, Comp.quietEnv, .message (.missingAck 0 ⟨1, 2⟩ ⟨⟨0, 0⟩, 0, 5, [0, 0, 0, 0, 0]⟩))]

/-- Where a record is not intact it is replaced, although every stamp is given once. -/
theorem short_record_replaced :
    let guard : Group 3 → GroupEvent 3 → Prop := fun g e =>
      oneLeader (fun _ => 0) g e ∧ TakesInView (g e.1) e.2
    ¬ ∀ g, (machine 3 (some 0)).Reaches guard g →
      StampsOwned (fun _ => 0) (machine 3 (some 0)) guard g := by
  intro guard claim
  let late : GroupEvent 3 := (1, Comp.quietEnv,
    .message (.acceptReq ⟨1, 2⟩ ⟨1, 0⟩ 0 ⟨⟨0, 0⟩, 0, 1, [1, 2, 3, 4, 5]⟩))
  have accepted : (machine 3 (some 0)).Accepts guard (start 3 (some 0)) (recovery ++ [late]) := by
    decide +kernel
  obtain ⟨before, allowed, enabled, -⟩ := Machine.accepts_append.mp accepted
  have owned := claim _ ⟨start 3 (some 0), rfl, before.run⟩
  have kept := owned.kept _ (.step .refl allowed enabled) 1 ⟨1, 2⟩ [0, 0, 0, 0, 0] [1, 2, 3, 4, 5]
    ⟨by decide, by decide⟩ (by decide +kernel) (by decide +kernel)
  exact absurd kept (by decide)

end Group

end LibeventPaxos
