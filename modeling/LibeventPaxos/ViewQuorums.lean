import LibeventPaxos.CommitRule

/-!
Quorums over any number of view changes: what a node delivers or takes for committed in a view, a
majority of the group has acknowledged in that view, and keeps until it leaves the view.
-/
namespace LibeventPaxos

open Lib

namespace Group

variable {n : ℕ}

/-! ## Votes -/

/-- Node `j` has given the stamp itself or has acknowledged the request. -/
def Votes (g : Group n) (vs : ViewStamp) (j : Fin n) : Prop :=
  (∃ a ∈ (g j).assigned, a.1 = vs) ∨ ∃ call ∈ (g j).upCalls, call.2 = .acceptAck vs ((j : ℕ) : Int)

instance (g : Group n) (vs : ViewStamp) (j : Fin n) : Decidable (Votes g vs j) :=
  inferInstanceAs (Decidable ((∃ a ∈ (g j).assigned, a.1 = vs) ∨
    ∃ call ∈ (g j).upCalls, call.2 = .acceptAck vs ((j : ℕ) : Int)))

def voters (g : Group n) (vs : ViewStamp) : Finset (Fin n) := Finset.univ.filter (Votes g vs)

/-- A majority votes for the request. -/
def Quorum (g : Group n) (vs : ViewStamp) : Prop := n / 2 + 1 ≤ (voters g vs).card

/-- A bit map whose bits belong to voters. -/
def AckedBy (g : Group n) (i : Fin n) (vs : ViewStamp) (record : RequestRecord) : Prop :=
  ∃ senders : List ℕ, record.bitMap = Comp.ackBits ((i : ℕ) : Int) (senders.map Nat.cast) ∧
    ∀ voter ∈ (i : ℕ) :: senders, ∃ inGroup : voter < n, Votes g vs ⟨voter, inGroup⟩

/-- What `reached_quorum` counts are voters, as long as every id has a bit of its own. -/
theorem AckedBy.quorum (small : n ≤ 31) {g : Group n} {i : Fin n} {vs : ViewStamp}
    {record : RequestRecord} (acked : AckedBy g i vs record)
    (reached : Comp.reachedQuorum record n = true) : Quorum g vs := by
  obtain ⟨senders, bits, members⟩ := acked
  have enough : n / 2 + 1 ≤ Comp.popcount record.bitMap := of_decide_eq_true reached
  refine enough.trans (cpop_le_card _ (fun j : Fin n => (j : ℕ)) _ ?_)
  intro b set
  rw [bits, Comp.getLsbD_ackBits_iff] at set
  obtain ⟨voter, member, low | ⟨full, -⟩⟩ := set
  · obtain ⟨inGroup, votes⟩ := members voter member
    refine ⟨⟨voter, inGroup⟩, Finset.mem_filter.mpr ⟨Finset.mem_univ _, votes⟩, ?_⟩
    show voter = b
    omega
  · obtain ⟨inGroup, -⟩ := members voter member
    omega

theorem AckedBy.updateRecord {g : Group n} {i j : Fin n} {vs : ViewStamp} {record : RequestRecord}
    (acked : AckedBy g i vs record) (votes : Votes g vs j) :
    AckedBy g i vs (Comp.updateRecord record ((j : ℕ) : Int)) := by
  obtain ⟨senders, bits, members⟩ := acked
  refine ⟨senders ++ [(j : ℕ)], ?_, ?_⟩
  · rw [List.map_append, List.map_singleton, Comp.ackBits_append, ← bits]
    rfl
  · intro voter member
    rw [← List.cons_append, List.mem_append] at member
    rcases member with old | new
    · exact members voter old
    · obtain rfl := List.mem_singleton.mp new
      exact ⟨j.isLt, votes⟩

/-! ## Orderly runs -/

/-- A call of a component that numbers requests below the largest number and in the node's own view,
is sent no boundary for a request, and handles no request of a later view as a leader. -/
structure Steady (c : Comp) (e : Env × CompEvent) : Prop where
  inView : TakesInView c e
  below : c.ReqIdsBelow e
  kept : c.BoundaryKept e
  keeps : c.KeepsLog e

def Orderly (leaderOf : UInt32 → NodeId) (c : Comp) (e : Env × CompEvent) : Prop :=
  SingleLeader leaderOf e.2 ∧ Steady c e

/-- Steady steps of a run in which every view has one leader and every record that arrives in a
`missing_ack` is intact. -/
def orderly (leaderOf : UInt32 → NodeId) (g : Group n) (e : GroupEvent n) : Prop :=
  Orderly leaderOf (g e.1) e.2 ∧ Intact g e.1 e.2.2

instance (c : Comp) : ∀ e, Decidable (c.BoundaryKept e)
  | (_, .message (.acceptReq _ _ _ _)) => inferInstanceAs (Decidable (_ → _ ≤ _))
  | (_, .message (.missingAck _ _ _)) => inferInstanceAs (Decidable (_ → _ ≤ _))
  | (_, .message (.acceptAck _ _)) => .isTrue trivial
  | (_, .message (.missingReq _ _)) => .isTrue trivial
  | (_, .message (.forceExec _ _)) => .isTrue trivial
  | (_, .message (.forwardReq _ _)) => .isTrue trivial
  | (_, .submit _) => .isTrue trivial
  | (_, .makeProgress) => inferInstanceAs (Decidable (_ → _ ≠ _))
  | (_, .updateView _) => inferInstanceAs (Decidable (_ ≠ _))
  | (_, .acceptorUpdateRecord _ _) => .isTrue trivial

instance (c : Comp) (e : Env × CompEvent) : Decidable (Steady c e) :=
  decidable_of_iff (TakesInView c e ∧ c.ReqIdsBelow e ∧ c.BoundaryKept e ∧ c.KeepsLog e)
    ⟨fun ⟨inView, below, kept, keeps⟩ => ⟨inView, below, kept, keeps⟩,
      fun steady => ⟨steady.inView, steady.below, steady.kept, steady.keeps⟩⟩

instance (leaderOf : UInt32 → NodeId) (g : Group n) (e : GroupEvent n) :
    Decidable (orderly leaderOf g e) :=
  inferInstanceAs (Decidable ((SingleLeader leaderOf e.2.2 ∧ Steady (g e.1) e.2) ∧
    Intact g e.1 e.2.2))

theorem inView_of_orderly {leaderOf : UInt32 → NodeId} {g : Group n} {e : GroupEvent n}
    (allowed : orderly leaderOf g e) : oneLeaderInView leaderOf g e :=
  ⟨allowed.1.1, allowed.1.2.inView, allowed.2⟩

/-- What holds of every node in an orderly run. -/
structure Known (leaderOf : UInt32 → NodeId) (g : Group n) : Prop where
  owned : Owned leaderOf g
  node : ∀ i, (g i).LogNode n ((i : ℕ) : Int)
  order : ∀ i, (g i).OrderInv

theorem known_of_reaches (seed : Option (Fin n)) (leaderOf : UInt32 → NodeId)
    (consistent : ∀ i, seed = some i → leaderOf 1 = (i : ℕ)) (g : Group n)
    (reached : (machine n seed).Reaches (orderly leaderOf) g) : Known leaderOf g := by
  refine ⟨?_, ?_, ?_⟩
  · exact owned_of_reaches seed leaderOf consistent g
      (reached.mono fun _ _ => inView_of_orderly)
  · exact logNode_of_reaches seed g (reached.mono fun _ _ allowed => allowed.1.2.keeps)
  · apply reached.invariant (I := fun g => ∀ i, (g i).OrderInv)
    · rintro g rfl i
      exact (Comp.init_inOrder _ i n).inv
    · intro g e order allowed enabled
      exact act_forall g e (fun _ c => c.OrderInv) order
        (((order e.1).inOrder enabled.1).handle e.2 allowed.1.2.below allowed.1.2.kept)

theorem Known.received {leaderOf : UInt32 → NodeId} {g : Group n} (known : Known leaderOf g)
    (e : GroupEvent n) (sent : Sent g e.1 e.2.2) (msg : ConsensusMsg)
    (event : e.2.2 = .message msg) :
    ∃ j : Fin n, ((j : ℕ) : Int) ≠ ((e.1 : ℕ) : Int) ∧ Comp.SenderIs (j : ℕ) msg :=
  received_of_sent (fun i => ⟨Int.ofNat_inj.mp (known.node i).nodeId, (known.node i).signed⟩)
    e sent msg event

/-- Stored requests hold the payload their stamp was given to. -/
theorem Sourced.found {g : Group n} (sourced : Sourced g) (i : Fin n) (vs : ViewStamp)
    (request : Comp.IsRequest vs) (there : (g i).stored vs ≠ none) :
    ∃ data, (g i).payloadAt vs = some data ∧ Assigned g vs data := by
  obtain ⟨value, found⟩ := Option.ne_none_iff_exists'.mp there
  obtain ⟨record, rfl, assigned⟩ := (sourced i).records vs request value found
  refine ⟨record.data, ?_, assigned⟩
  have lookup : (g i).db.retrieveRecord (vstol vs) = some (.request record) := found
  rw [Comp.payloadAt, lookup]

/-! ## The invariant -/

/-- Commit points, deliveries and logs rest on votes. -/
structure Backed (g : Group n) : Prop where
  size : ∀ i, (g i).groupSize = n
  log : ∀ i, (g i).myRole = .leader → Comp.LeadsLog (AckedBy g i) (g i)
  point : ∀ i, Comp.UpTo (Quorum g) (g i).highestToCommitVs
  calls : ∀ i, ∀ call ∈ (g i).upCalls, Comp.PointOf (Quorum g) call.2
  delivered : ∀ i, ∀ d ∈ (g i).delivered, Quorum g d.vs
  kept : ∀ i vs, Votes g vs i →
    (g i).stored vs ≠ none ∨ vs.viewId.toNat < (g i).curView.viewId.toNat

theorem start_backed (seed : Option (Fin n)) : Backed (start n seed) where
  size _ := rfl
  log i _ := by
    have first : (⟨1, 0⟩ : ViewStamp) ≠ Comp.largestVs := by decide
    exact ⟨rfl, rfl, first, first, fun vs above below =>
      absurd (Nat.lt_of_lt_of_le above below) (Nat.lt_irrefl _)⟩
  point _ := Comp.upTo_start _ 1
  calls i call member := by cases member
  delivered i d member := by cases member
  kept i vs votes := by
    rcases votes with ⟨a, member, -⟩ | ⟨call, member, -⟩
    · cases member
    · cases member

section Step

variable {leaderOf : UInt32 → NodeId} {g : Group n} {e : GroupEvent n}

/-- Whatever a commit point is to mean, one call of a node is sound for the weakest meaning. -/
theorem Known.commits (known : Known leaderOf g) (running : (g e.1).fault = none)
    (sent : Sent g e.1 e.2.2) (allowed : orderly leaderOf g e) :
    Comp.Commits (fun _ => True) (g e.1) (Comp.handle (g e.1) e.2) := by
  have call : Comp.Call n ((e.1 : ℕ) : Int) (fun _ _ => True) (fun _ => True) (g e.1) e.2 :=
    { inOrder := (known.order e.1).inOrder running
      node := known.node e.1
      below := allowed.1.2.below
      kept := allowed.1.2.kept
      keeps := allowed.1.2.keeps
      received := known.received e sent
      points := by
        cases e.2.2 with
        | message msg => cases msg <;> simp [Comp.Points, Comp.PointOf, Comp.UpTo]
        | _ => trivial
      acked := fun _ _ _ _ _ => trivial
      fresh := fun _ _ => trivial
      rule := fun _ _ _ _ => trivial }
  have log : (g e.1).myRole = .leader → Comp.LeadsLog (fun _ _ => True) (g e.1) :=
    fun leader => ((known.node e.1).log leader).mono fun _ _ _ => trivial
  exact (call.commits (fun _ _ _ _ => trivial) log).2

/-- The messages of a node only grow in number. -/
theorem Known.calls_grow (known : Known leaderOf g) (running : (g e.1).fault = none)
    (sent : Sent g e.1 e.2.2) (allowed : orderly leaderOf g e) (i : Fin n) :
    (g i).upCalls <+: (act g e i).upCalls := by
  by_cases acts : i = e.1
  · subst acts
    obtain ⟨fresh, calls, -⟩ := (known.commits running sent allowed).sends
    rw [act_self, calls]
    exact List.prefix_append _ _
  · rw [act_other g e i acts]

/-- A delivery is a request with the payload its stamp was given to. -/
def DeliveredAssigned (g : Group n) : Prop :=
  ∀ i, ∀ d ∈ (g i).delivered, Comp.IsRequest d.vs ∧ ∃ data, d.data = some data ∧ Assigned g d.vs data

theorem DeliveredAssigned.act (before : DeliveredAssigned g) (known : Known leaderOf g)
    (owned : Owned leaderOf (act g e)) (running : (g e.1).fault = none)
    (sent : Sent g e.1 e.2.2) (allowed : orderly leaderOf g e) : DeliveredAssigned (act g e) := by
  have old : ∀ i, ∀ d ∈ (g i).delivered, Comp.IsRequest d.vs ∧
      ∃ data, d.data = some data ∧ Assigned (Group.act g e) d.vs data := by
    intro i d member
    obtain ⟨request, data, found, assigned⟩ := before i d member
    exact ⟨request, data, found, assigned.act e running⟩
  refine act_forall g e (fun _ c => ∀ d ∈ c.delivered, Comp.IsRequest d.vs ∧
    ∃ data, d.data = some data ∧ Assigned (Group.act g e) d.vs data) old ?_
  intro d member
  obtain ⟨fresh, delivered, stand⟩ := (known.commits running sent allowed).delivers
  rw [delivered] at member
  rcases List.mem_append.mp member with earlier | new
  · exact old e.1 d earlier
  · obtain ⟨request, -, there, payload⟩ := stand d new
    rw [← act_self g e] at there payload
    obtain ⟨data, found, assigned⟩ := owned.sourced.found e.1 d.vs request there
    exact ⟨request, data, payload.trans found, assigned⟩

theorem Votes.act (known : Known leaderOf g) (running : (g e.1).fault = none)
    (sent : Sent g e.1 e.2.2) (allowed : orderly leaderOf g e) {vs : ViewStamp} {j : Fin n}
    (votes : Votes g vs j) : Votes (act g e) vs j := by
  rcases votes with ⟨a, member, same⟩ | ⟨call, member, same⟩
  · exact .inl ⟨a, (assigned_grows g e running j).subset member, same⟩
  · exact .inr ⟨call, (known.calls_grow running sent allowed j).subset member, same⟩

theorem Quorum.mono {g' : Group n} (implies : ∀ vs j, Votes g vs j → Votes g' vs j)
    {vs : ViewStamp} (quorum : Quorum g vs) : Quorum g' vs := by
  refine quorum.trans (Finset.card_le_card ?_)
  intro j member
  rw [voters, Finset.mem_filter] at member ⊢
  exact ⟨member.1, implies vs j member.2⟩

theorem AckedBy.mono {g' : Group n} (implies : ∀ vs j, Votes g vs j → Votes g' vs j)
    {i : Fin n} {vs : ViewStamp} {record : RequestRecord} (acked : AckedBy g i vs record) :
    AckedBy g' i vs record := by
  obtain ⟨senders, bits, members⟩ := acked
  refine ⟨senders, bits, fun voter member => ?_⟩
  obtain ⟨inGroup, votes⟩ := members voter member
  exact ⟨inGroup, implies vs _ votes⟩

/-- A stamp is voted for by the node that gives it. -/
private theorem votes_taken (running : (g e.1).fault = none) (data : List UInt8)
    (takes : (g e.1).taken e.2 = some data) :
    Votes (act g e) (g e.1).getNextViewStamp e.1 := by
  refine .inl ⟨((g e.1).getNextViewStamp, data), ?_, rfl⟩
  rw [act_self]
  cases (Comp.handle_step (g e.1) e.2 running).1 with
  | stays nothing => rw [nothing] at takes; cases takes
  | takes data' some_data leader assigned =>
    obtain rfl := Option.some.inj (takes.symm.trans some_data)
    rw [assigned]
    simp
  | enters newViewInfo event nothing => rw [nothing] at takes; cases takes

/-- What the acting node is given in an orderly run. -/
private theorem Backed.call (backed : Backed g) (small : n ≤ 31) (known : Known leaderOf g)
    (running : (g e.1).fault = none) (sent : Sent g e.1 e.2.2) (allowed : orderly leaderOf g e) :
    Comp.Call n ((e.1 : ℕ) : Int) (AckedBy (act g e) e.1) (Quorum (act g e)) (g e.1) e.2 where
  inOrder := (known.order e.1).inOrder running
  node := known.node e.1
  below := allowed.1.2.below
  kept := allowed.1.2.kept
  keeps := allowed.1.2.keeps
  received := known.received e sent
  points := by
    cases event : e.2.2 with
    | message msg =>
      have sent' := sent
      rw [event] at sent'
      obtain ⟨source, ⟨address, built⟩, member, -, received⟩ := sent'
      have told := (backed.calls source _ member).mono fun vs quorum =>
        quorum.mono fun _ _ votes => Votes.act known running sent allowed votes
      cases received with
      | whole => exact told
      | short => exact told
    | _ => trivial
  acked := by
    intro msgVs nodeId event record acked
    have sent' := sent
    rw [event] at sent'
    obtain ⟨source, call, member, -, received⟩ := sent'
    have same : call.2 = .acceptAck msgVs nodeId := received.eq nofun
    -- an acknowledgement carries the id of its sender
    have own := (known.node source).signed call member
    rw [same] at own
    have sender : nodeId = ((source : ℕ) : Int) := own.trans (known.node source).nodeId
    rw [sender] at same ⊢
    exact acked.updateRecord (Votes.act known running sent allowed (.inr ⟨call, member, same⟩))
  fresh := by
    intro data takes
    refine ⟨[], ?_, ?_⟩
    · rw [List.map_nil, Comp.ackBits_nil, ← (known.node e.1).nodeId]
      rfl
    · intro voter member
      obtain rfl := List.mem_singleton.mp member
      exact ⟨e.1.isLt, votes_taken running data takes⟩
  rule := by
    intro vs record acked reached
    rw [backed.size e.1] at reached
    exact acked.quorum small reached

/-- A record or the view it belongs to stays behind only when the node moves on. -/
theorem stays_kept {c : Comp} {e : Env × CompEvent} (running : c.fault = none)
    (keeps : c.KeepsLog e) (vs : ViewStamp)
    (kept : c.stored vs ≠ none ∨ vs.viewId.toNat < c.curView.viewId.toNat) :
    (c.handle e).stored vs ≠ none ∨ vs.viewId.toNat < (c.handle e).curView.viewId.toNat := by
  rcases kept with there | later
  · exact Comp.handle_keeps running e keeps.2.2 vs there
  · refine .inr ?_
    cases (Comp.handle_step c e running).1 with
    | stays nothing assigned view => exact view.symm ▸ later
    | takes data some_data leader assigned view => exact view.symm ▸ later
    | enters newViewInfo event nothing successor assigned view =>
      have wraps := keeps.2.2
      rw [event] at wraps
      have nonzero : newViewInfo.viewId.toNat ≠ 0 := fun zero =>
        wraps (UInt32.toNat_inj.mp zero)
      have sum := congrArg UInt32.toNat successor
      have view_lt := c.curView.viewId.toNat_lt
      rw [UInt32.toNat_add, UInt32.toNat_one] at sum
      rw [view]
      omega

theorem Backed.act (backed : Backed g) (small : n ≤ 31) (known : Known leaderOf g)
    (running : (g e.1).fault = none) (sent : Sent g e.1 e.2.2) (allowed : orderly leaderOf g e) :
    Backed (act g e) := by
  -- votes are never taken back, so what had a quorum keeps it
  have votes : ∀ vs j, Votes g vs j → Votes (Group.act g e) vs j := fun _ _ =>
    Votes.act known running sent allowed
  have quorum : ∀ vs, Quorum g vs → Quorum (Group.act g e) vs := fun _ => Quorum.mono votes
  obtain ⟨log, commits⟩ := (backed.call small known running sent allowed).commits
    ((backed.point e.1).mono quorum)
    (fun leader => (backed.log e.1 leader).mono fun _ _ => AckedBy.mono votes)
  obtain ⟨fresh, calls, speaks⟩ := commits.sends
  obtain ⟨later, delivered, stand⟩ := commits.delivers
  constructor
  -- each part: the others are unchanged, the actor keeps it by what its call does
  · refine act_forall g e (fun _ c => c.groupSize = n) backed.size ?_
    rw [(Comp.handle_step (g e.1) e.2 running).2.groupSize]
    exact backed.size e.1
  · exact act_forall g e
      (fun i c => c.myRole = .leader → Comp.LeadsLog (AckedBy (Group.act g e) i) c)
      (fun i leader => (backed.log i leader).mono fun _ _ => AckedBy.mono votes) log
  · exact act_forall g e (fun _ c => Comp.UpTo (Quorum (Group.act g e)) c.highestToCommitVs)
      (fun i => (backed.point i).mono quorum) commits.point
  · refine act_forall g e
      (fun _ c => ∀ call ∈ c.upCalls, Comp.PointOf (Quorum (Group.act g e)) call.2)
      (fun i call member => (backed.calls i call member).mono quorum) ?_
    intro call member
    rw [calls] at member
    rcases List.mem_append.mp member with old | new
    · exact (backed.calls e.1 call old).mono quorum
    · exact (speaks call new).point
  · refine act_forall g e (fun _ c => ∀ d ∈ c.delivered, Quorum (Group.act g e) d.vs)
      (fun i d member => quorum d.vs (backed.delivered i d member)) ?_
    intro d member
    rw [delivered] at member
    rcases List.mem_append.mp member with old | new
    · exact quorum d.vs (backed.delivered e.1 d old)
    · exact (stand d new).2.1
  · intro i vs voted
    by_cases acts : i = e.1
    · subst acts
      have before : Votes g vs e.1 → (Group.act g e e.1).stored vs ≠ none ∨
          vs.viewId.toNat < (Group.act g e e.1).curView.viewId.toNat := by
        intro old
        rw [act_self]
        exact stays_kept running allowed.1.2.keeps vs (backed.kept e.1 vs old)
      -- a vote is a stamp given or an acknowledgement sent
      rcases voted with ⟨a, member, same⟩ | ⟨call, member, same⟩
      · rw [act_self] at member
        cases (Comp.handle_step (g e.1) e.2 running).1 with
        | stays nothing assigned =>
          rw [assigned] at member
          exact before (.inl ⟨a, member, same⟩)
        | enters newViewInfo event nothing successor assigned =>
          rw [assigned] at member
          exact before (.inl ⟨a, member, same⟩)
        | takes data takes leader assigned =>
          rw [assigned] at member
          rcases List.mem_append.mp member with old | new
          · exact before (.inl ⟨a, old, same⟩)
          · obtain rfl := List.mem_singleton.mp new
            rw [act_self, ← same]
            exact .inl (Comp.handle_takes e.2 data takes)
      · rw [act_self, calls] at member
        rcases List.mem_append.mp member with old | new
        · exact before (.inr ⟨call, old, same⟩)
        · rw [act_self]
          exact .inl ((speaks call new).stores vs _ same)
    · have unmoved := act_other g e i acts
      rw [Votes, unmoved] at voted
      rw [unmoved]
      exact backed.kept i vs voted

end Step

/-! ## Runs -/

theorem delivered_of_reaches (seed : Option (Fin n)) (leaderOf : UInt32 → NodeId)
    (consistent : ∀ i, seed = some i → leaderOf 1 = (i : ℕ)) (g : Group n)
    (reached : (machine n seed).Reaches (orderly leaderOf) g) : DeliveredAssigned g := by
  apply reached.invariant_using (I := DeliveredAssigned)
  · rintro g rfl i d member
    cases member
  · intro g e before delivered allowed enabled
    have known := known_of_reaches seed leaderOf consistent g before
    have known' := known_of_reaches seed leaderOf consistent _ (before.step allowed enabled)
    exact delivered.act known known'.owned enabled.1 enabled.2 allowed

theorem backed_of_reaches (small : n ≤ 31) (seed : Option (Fin n)) (leaderOf : UInt32 → NodeId)
    (consistent : ∀ i, seed = some i → leaderOf 1 = (i : ℕ)) (g : Group n)
    (reached : (machine n seed).Reaches (orderly leaderOf) g) : Backed g := by
  apply reached.invariant_using (I := Backed)
  · rintro g rfl
    exact start_backed seed
  · intro g e before backed allowed enabled
    have known := known_of_reaches seed leaderOf consistent g before
    exact backed.act small known enabled.1 enabled.2 allowed

/-- The commit rule of a group. -/
structure CommittedByQuorum (g : Group n) : Prop where
  /-- A request is delivered with the payload its stamp was given to, after a majority voted. -/
  delivered : ∀ i, ∀ d ∈ (g i).delivered, ∃ data, d.data = some data ∧ Assigned g d.vs data ∧
    Quorum g d.vs
  /-- So has every request up to a node's commit point, also before the node delivers it. -/
  committed : ∀ i, Comp.UpTo (Quorum g) (g i).highestToCommitVs
  /-- A voter keeps the payload as long as it is not in a later view. -/
  kept : ∀ vs data, Comp.IsRequest vs → Assigned g vs data → ∀ j ∈ voters g vs,
    (g j).payloadAt vs = some data ∨ vs.viewId.toNat < (g j).curView.viewId.toNat

theorem Backed.committed {leaderOf : UInt32 → NodeId} {g : Group n} (backed : Backed g)
    (known : Known leaderOf g) (delivered : DeliveredAssigned g) : CommittedByQuorum g := by
  refine ⟨?_, backed.point, ?_⟩
  · intro i d member
    obtain ⟨-, data, found, assigned⟩ := delivered i d member
    exact ⟨data, found, assigned, backed.delivered i d member⟩
  · intro vs data request assigned j member
    have voted := (Finset.mem_filter.mp member).2
    refine (backed.kept j vs voted).imp_left fun there => ?_
    obtain ⟨data', found, assigned'⟩ := known.owned.sourced.found j vs request there
    rw [found, known.owned.unique vs data data' assigned assigned']

/-- Over any number of view changes, nothing is committed or delivered without a majority that
keeps it. -/
theorem committed_by_quorum (small : n ≤ 31) (seed : Option (Fin n))
    (leaderOf : UInt32 → NodeId) (consistent : ∀ i, seed = some i → leaderOf 1 = (i : ℕ))
    (g : Group n) (reached : (machine n seed).Reaches (orderly leaderOf) g) :
    CommittedByQuorum g :=
  (backed_of_reaches small seed leaderOf consistent g reached).committed
    (known_of_reaches seed leaderOf consistent g reached)
    (delivered_of_reaches seed leaderOf consistent g reached)

/-- Node 1 leads view 2 after the seed has led view 1. -/
def secondLeads : UInt32 → NodeId := fun viewId => if viewId = 1 then 0 else 1

/-- The seed delivers its request with the acknowledgement of node 1, then nodes 1 and 2 enter view
2 and node 1 delivers its own with the acknowledgement of node 2. -/
def twoViews : List (GroupEvent 3) :=
  [(1, Comp.quietEnv, .updateView ⟨1, 0, 0⟩), (2, Comp.quietEnv, .updateView ⟨1, 0, 0⟩),
    (0, Comp.quietEnv, .submit [5]),
    (1, Comp.quietEnv, .message (.acceptReq ⟨1, 1⟩ ⟨1, 0⟩ 0 ⟨⟨0, 0⟩, 0, 1, [5]⟩)),
    (0, Comp.quietEnv, .message (.acceptAck ⟨1, 1⟩ 1)),
    (1, Comp.quietEnv, .updateView ⟨2, 1, 1⟩), (2, Comp.quietEnv, .updateView ⟨2, 1, 1⟩),
    (1, Comp.quietEnv, .submit [6]),
    (2, Comp.quietEnv, .message (.acceptReq ⟨2, 1⟩ ⟨2, 0⟩ 1 ⟨⟨0, 0⟩, 0, 2, [6]⟩)),
    (1, Comp.quietEnv, .message (.acceptAck ⟨2, 1⟩ 2))]

def afterTwoViews : Group 3 := twoViews.foldl act (start 3 (some 0))

theorem two_views_orderly :
    (machine 3 (some 0)).Reaches (orderly secondLeads) afterTwoViews := by
  refine ⟨start 3 (some 0), rfl, ?_⟩
  apply Machine.Accepts.run
  decide +kernel

theorem two_views_committed :
    (afterTwoViews 0).delivered = [⟨⟨1, 1⟩, some [5]⟩] ∧
      (afterTwoViews 1).delivered = [⟨⟨2, 1⟩, some [6]⟩] ∧ CommittedByQuorum afterTwoViews :=
  ⟨by decide, by decide, committed_by_quorum (by decide) (some 0) secondLeads (by decide)
    afterTwoViews two_views_orderly⟩

end Group

end LibeventPaxos
