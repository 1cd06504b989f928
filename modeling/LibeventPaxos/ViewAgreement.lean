import LibeventPaxos.ViewQuorums
import LibeventPaxos.Lib.Prefix

/-!
Agreement over any number of view changes: what a node delivers in a view is a prefix of what the
leader of that view has numbered, so the deliveries of any two nodes in a view agree as far as the
shorter goes.
-/
namespace LibeventPaxos

open Lib

namespace Comp

/-- What the component has delivered in one view, in order, with the payloads. -/
def deliveriesIn (c : Comp) (viewId : UInt32) : List (ViewStamp × Option (List UInt8)) :=
  (c.delivered.filter fun d => decide (d.vs.viewId = viewId)).map fun d => (d.vs, d.data)

/-- What the component has numbered in one view, in order. -/
def assignedIn (c : Comp) (viewId : UInt32) : List (ViewStamp × Option (List UInt8)) :=
  (c.assigned.filter fun a => decide (a.1.viewId = viewId)).map fun a => (a.1, some a.2)

/-- The number of a request in its view. -/
def requestNumber (entry : ViewStamp × Option (List UInt8)) : ℕ := entry.1.reqId.toNat

theorem mem_deliveriesIn {c : Comp} {viewId : UInt32} {entry : ViewStamp × Option (List UInt8)} :
    entry ∈ c.deliveriesIn viewId ↔
      ∃ d ∈ c.delivered, d.vs.viewId = viewId ∧ entry = (d.vs, d.data) := by
  simp only [deliveriesIn, List.mem_map, List.mem_filter, decide_eq_true_eq]
  constructor
  · rintro ⟨d, ⟨member, view⟩, rfl⟩
    exact ⟨d, member, view, rfl⟩
  · rintro ⟨d, member, view, rfl⟩
    exact ⟨d, ⟨member, view⟩, rfl⟩

theorem mem_assignedIn {c : Comp} {viewId : UInt32} {entry : ViewStamp × Option (List UInt8)} :
    entry ∈ c.assignedIn viewId ↔
      ∃ a ∈ c.assigned, a.1.viewId = viewId ∧ entry = (a.1, some a.2) := by
  simp only [assignedIn, List.mem_map, List.mem_filter, decide_eq_true_eq]
  constructor
  · rintro ⟨a, ⟨member, view⟩, rfl⟩
    exact ⟨a, member, view, rfl⟩
  · rintro ⟨a, member, view, rfl⟩
    exact ⟨a, ⟨member, view⟩, rfl⟩

/-- The deliveries of a view are numbered 1, 2, 3, … -/
theorem GapFree.numbers {c : Comp} (gapFree : c.GapFree) (viewId : UInt32) :
    (c.deliveriesIn viewId).map requestNumber =
      (List.range (c.deliveriesIn viewId).length).map fun i => 0 + (i + 1) := by
  obtain ⟨k, bound, stamps⟩ := gapFree.everyView viewId
  have same : c.deliveredIn viewId = (c.deliveriesIn viewId).map Prod.fst := by
    rw [deliveredIn, deliveriesIn, List.filter_map, List.map_map]
    rfl
  have length : (c.deliveriesIn viewId).length = k := by
    rw [← List.length_map Prod.fst, ← same, stamps, stampsAfter, List.length_map,
      List.length_range]
  have numbers : (c.deliveriesIn viewId).map requestNumber =
      (c.deliveredIn viewId).map fun vs => vs.reqId.toNat := by
    rw [same, List.map_map]
    rfl
  rw [numbers, stamps, length, stampsAfter, List.map_map]
  apply List.map_congr_left
  intro i member
  have below := List.mem_range.mp member
  exact stampAfter_reqId ⟨viewId, 0⟩ (i + 1) (by simp only [UInt32.toNat_zero]; omega)

end Comp

namespace Group

variable {n : ℕ}

/-- Stamps are given from number 1 on. -/
theorem assigned_numbered (seed : Option (Fin n)) (leaderOf : UInt32 → NodeId) (g : Group n)
    (reached : (machine n seed).Reaches (oneLeaderInView leaderOf) g) (i : Fin n) :
    ∀ a ∈ (g i).assigned, 0 < a.1.reqId.toNat := by
  revert i
  apply reached.invariant (I := fun g => ∀ i, ∀ a ∈ (g i).assigned, 0 < a.1.reqId.toNat)
  · rintro g rfl i a member
    cases member
  · intro g e before allowed enabled
    refine act_forall g e (fun _ c => ∀ a ∈ c.assigned, 0 < a.1.reqId.toNat) before ?_
    intro a member
    cases (Comp.handle_step (g e.1) e.2 enabled.1).1 with
    | stays nothing assigned =>
      rw [assigned] at member
      exact before e.1 a member
    | enters newViewInfo event nothing successor assigned =>
      rw [assigned] at member
      exact before e.1 a member
    | takes data takes leader assigned =>
      rw [assigned] at member
      rcases List.mem_append.mp member with old | new
      · exact before e.1 a old
      · obtain rfl := List.mem_singleton.mp new
        have room := (allowed.2.1.1 (by rw [takes]; exact Option.some_ne_none data)).2
        simp only [Comp.getNextViewStamp, UInt32.toNat_add, UInt32.toNat_one]
        omega

/-- Nodes agree on what is delivered in a view. -/
structure ViewsAgree (leaderOf : UInt32 → NodeId) (g : Group n) : Prop where
  /-- A node delivers a prefix of what the leader of the view has numbered. -/
  fromLeader : ∀ i viewId, (g i).deliveriesIn viewId ≠ [] →
    ∃ j : Fin n, leaderOf viewId = (j : ℕ) ∧
      (g i).deliveriesIn viewId <+: (g j).assignedIn viewId
  comparable : ∀ i j viewId, (g i).deliveriesIn viewId <+: (g j).deliveriesIn viewId ∨
    (g j).deliveriesIn viewId <+: (g i).deliveriesIn viewId

/-- Requests of a view with their payloads, numbered 1, 2, 3, …, come from the leader of the view. -/
theorem Known.prefix_of_numbers {leaderOf : UInt32 → NodeId} {g : Group n}
    (known : Known leaderOf g) (numbered : ∀ i, ∀ a ∈ (g i).assigned, 0 < a.1.reqId.toNat)
    (entries : List (ViewStamp × Option (List UInt8))) (viewId : UInt32)
    (numbers : entries.map Comp.requestNumber =
      (List.range entries.length).map fun i => 0 + (i + 1))
    (taken : ∀ entry ∈ entries, entry.1.viewId = viewId ∧
      ∃ data, entry.2 = some data ∧ Assigned g entry.1 data)
    (j : Fin n) (leads : leaderOf viewId = (j : ℕ)) : entries <+: (g j).assignedIn viewId := by
  refine prefix_of_consecutive Comp.requestNumber _ _ 0 numbers ?_ ?_ ?_
  · -- inside one view the stamps of the leader are ordered by their numbers
    have increasing := (known.owned.owner j).increasing
    rw [Comp.assignedIn, List.pairwise_map]
    refine (increasing.filter _).imp_of_mem ?_
    intro a b a_member b_member order
    have a_view := of_decide_eq_true (List.mem_filter.mp a_member).2
    have b_view := of_decide_eq_true (List.mem_filter.mp b_member).2
    rw [vstol_toNat, vstol_toNat, a_view, b_view] at order
    simp only [Comp.requestNumber]
    omega
  · intro entry member
    obtain ⟨a, given, -, rfl⟩ := Comp.mem_assignedIn.mp member
    exact numbered j a given
  · intro entry member
    obtain ⟨view, data, found, giver, given⟩ := taken entry member
    -- the stamp was given by the leader of its view
    have mine := ((known.owned.owner giver).assigned _ given).1
    rw [view, leads] at mine
    obtain rfl : j = giver := Fin.ext (Int.ofNat_inj.mp mine)
    exact Comp.mem_assignedIn.mpr ⟨(entry.1, data), given, view, Prod.ext rfl found⟩

/-- The leader of the view of a numbered request. -/
theorem Known.leads {leaderOf : UInt32 → NodeId} {g : Group n} (known : Known leaderOf g)
    {vs : ViewStamp} {data : List UInt8} (assigned : Assigned g vs data) :
    ∃ j : Fin n, leaderOf vs.viewId = (j : ℕ) := by
  obtain ⟨j, given⟩ := assigned
  exact ⟨j, ((known.owned.owner j).assigned _ given).1⟩

/-- Requests of a view that two nodes have are prefixes of one list. -/
theorem comparable_of_leader {leaderOf : UInt32 → NodeId} {g : Group n} {viewId : UInt32}
    {entries entries' : List (ViewStamp × Option (List UInt8))}
    (taken : entries ≠ [] → ∃ j : Fin n, leaderOf viewId = (j : ℕ) ∧
      entries <+: (g j).assignedIn viewId)
    (taken' : entries' ≠ [] → ∃ j : Fin n, leaderOf viewId = (j : ℕ) ∧
      entries' <+: (g j).assignedIn viewId) :
    entries <+: entries' ∨ entries' <+: entries := by
  by_cases nothing : entries = []
  · exact .inl (nothing ▸ List.nil_prefix)
  · by_cases nothing' : entries' = []
    · exact .inr (nothing' ▸ List.nil_prefix)
    · obtain ⟨j, leads, first⟩ := taken nothing
      obtain ⟨j', leads', second⟩ := taken' nothing'
      obtain rfl : j = j' := Fin.ext (Int.ofNat_inj.mp (leads.symm.trans leads'))
      exact List.prefix_or_prefix_of_prefix first second

theorem Known.viewsAgree {leaderOf : UInt32 → NodeId} {g : Group n} (known : Known leaderOf g)
    (delivered : DeliveredAssigned g) (numbered : ∀ i, ∀ a ∈ (g i).assigned, 0 < a.1.reqId.toNat) :
    ViewsAgree leaderOf g := by
  have taken : ∀ i viewId, ∀ entry ∈ (g i).deliveriesIn viewId, entry.1.viewId = viewId ∧
      ∃ data, entry.2 = some data ∧ Assigned g entry.1 data := by
    intro i viewId entry member
    obtain ⟨d, done, view, rfl⟩ := Comp.mem_deliveriesIn.mp member
    exact ⟨view, (delivered i d done).2⟩
  have fromLeader : ∀ i viewId, (g i).deliveriesIn viewId ≠ [] → ∃ j : Fin n,
      leaderOf viewId = (j : ℕ) ∧ (g i).deliveriesIn viewId <+: (g j).assignedIn viewId := by
    intro i viewId some_delivered
    obtain ⟨entry, member⟩ := List.exists_mem_of_ne_nil _ some_delivered
    obtain ⟨view, data, -, assigned⟩ := taken i viewId entry member
    obtain ⟨j, leads⟩ := known.leads assigned
    rw [view] at leads
    obtain ⟨epoch, count, log⟩ := (known.order i).delivered
    exact ⟨j, leads, known.prefix_of_numbers numbered _ viewId
      ((Comp.gapFree_of_numbered (g i) epoch count log).numbers viewId) (taken i viewId) j leads⟩
  exact ⟨fromLeader, fun i j viewId =>
    comparable_of_leader (fromLeader i viewId) (fromLeader j viewId)⟩

/-- In every orderly run the deliveries of each view are prefixes of what its leader has numbered. -/
theorem views_agree (seed : Option (Fin n)) (leaderOf : UInt32 → NodeId)
    (consistent : ∀ i, seed = some i → leaderOf 1 = (i : ℕ)) (g : Group n)
    (reached : (machine n seed).Reaches (orderly leaderOf) g) : ViewsAgree leaderOf g :=
  (known_of_reaches seed leaderOf consistent g reached).viewsAgree
    (delivered_of_reaches seed leaderOf consistent g reached)
    (assigned_numbered seed leaderOf g (reached.mono fun _ _ => inView_of_orderly))

theorem two_views_agree :
    (afterTwoViews 1).deliveriesIn 2 = [(⟨2, 1⟩, some [6])] ∧ ViewsAgree secondLeads afterTwoViews :=
  ⟨by decide, views_agree (some 0) secondLeads (by decide) afterTwoViews two_views_orderly⟩

end Group

end LibeventPaxos
