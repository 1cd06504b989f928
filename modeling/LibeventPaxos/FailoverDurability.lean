import LibeventPaxos.PeerCalls
import LibeventPaxos.ClusterGroup

/-!
Durability over view changes. A node sets its commit stamps to the start of a view when it enters
it, so what it has not delivered by then it never delivers. Where every node enters a view with all
that has a majority by then, and nothing gets a majority in a view that a node has left, all nodes
deliver prefixes of one sequence.
-/
namespace LibeventPaxos

open Lib

/-- The request a message acknowledges. -/
def ConsensusMsg.acked : ConsensusMsg → Option ViewStamp
  | .acceptAck msgVs _ => some msgVs
  | _ => none

namespace Comp

/-- The request a call makes the node vote for: the one it numbers or the one it acknowledges. -/
def votesFor (c : Comp) (e : Env × CompEvent) : Option ViewStamp :=
  match c.taken e with
  | some _ => some c.getNextViewStamp
  | none => (c.answer e).bind fun call => call.2.acked

/-- A call that acknowledges a request numbers none. -/
theorem votesFor_of_answer (c : Comp) (e : Env × CompEvent) (target nodeId : Int) (vs : ViewStamp)
    (answers : c.answer e = some (target, .acceptAck vs nodeId)) : c.votesFor e = some vs := by
  have nothing : c.taken e = none := by
    obtain ⟨env, event⟩ := e
    cases event with
    | message msg =>
      cases msg with
      | forwardReq nodeId data => cases answers
      | acceptReq | acceptAck | missingReq | missingAck | forceExec => rfl
    | submit data =>
      simp only [answer] at answers
      split at answers
      next => cases answers
      next secondary => rw [taken, if_neg fun both => secondary both.1]
    | makeProgress | updateView | acceptorUpdateRecord => rfl
  rw [votesFor, nothing, answers]
  rfl

theorem votesFor_updateView (c : Comp) (env : Env) (newViewInfo : View) :
    c.votesFor (env, .updateView newViewInfo) = none := rfl

/-- The node has numbered the request itself or has acknowledged it. -/
def Voted (c : Comp) (nodeId : Int) (vs : ViewStamp) : Prop :=
  (∃ a ∈ c.assigned, a.1 = vs) ∨ ∃ call ∈ c.upCalls, call.2 = .acceptAck vs nodeId

/-- The only vote a call adds is the one of the call. -/
theorem voted_handle {c : Comp} {e : Env × CompEvent} (running : c.fault = none) {nodeId : Int}
    {vs : ViewStamp} (voted : (c.handle e).Voted nodeId vs) :
    c.Voted nodeId vs ∨ c.votesFor e = some vs := by
  rcases voted with ⟨a, member, same⟩ | ⟨call, member, same⟩
  · cases (handle_step c e running).1 with
    | stays nothing assigned =>
      rw [assigned] at member
      exact .inl (.inl ⟨a, member, same⟩)
    | enters newViewInfo event nothing successor assigned =>
      rw [assigned] at member
      exact .inl (.inl ⟨a, member, same⟩)
    | takes data takes leader assigned =>
      rw [assigned] at member
      rcases List.mem_append.mp member with old | new
      · exact .inl (.inl ⟨a, old, same⟩)
      · obtain rfl := List.mem_singleton.mp new
        refine .inr ?_
        rw [votesFor, takes, ← same]
  · obtain ⟨sent, calls, broadcast⟩ := answers_handle c e running
    rw [calls, List.mem_append, List.mem_append] at member
    obtain ⟨target, msg⟩ := call
    obtain rfl : msg = .acceptAck vs nodeId := same
    rcases member with old | answers | others
    · exact .inl (.inr ⟨_, old, rfl⟩)
    · exact .inr (votesFor_of_answer _ _ _ _ _ (Option.mem_toList.mp answers))
    · cases broadcast _ others

end Comp

namespace Group

variable {n : ℕ}

/-! ## Durability -/

/-- What is delivered anywhere is delivered everywhere before anything of a later view. -/
structure Durable (g : Group n) : Prop where
  /-- A node that delivers in a later view has delivered the request, with its payload, before. -/
  before : ∀ i j, ∀ d ∈ (g i).delivered, ∀ d' ∈ (g j).delivered,
    d.vs.viewId.toNat < d'.vs.viewId.toNat → [d, d'].Sublist (g j).delivered
  comparable : ∀ i j, (g i).delivered <+: (g j).delivered ∨ (g j).delivered <+: (g i).delivered

/-- A node that enters a view has delivered every request of earlier views that a majority has voted
for. -/
def EntersComplete (g : Group n) (i : Fin n) : CompEvent → Prop
  | .updateView newViewInfo => (g i).curView.viewId + 1 = newViewInfo.viewId →
      ∀ j, ∀ a ∈ (g j).assigned, a.1.viewId.toNat < newViewInfo.viewId.toNat → Quorum g a.1 →
        a.1 ∈ (g i).delivered.map Delivery.vs
  | _ => True

/-- No vote completes the majority of a request of a view that some node has left. -/
def VotesInTime (g : Group n) (e : GroupEvent n) : Prop :=
  ∀ vs ∈ (g e.1).votesFor e.2, (∃ j, vs.viewId.toNat < (g j).curView.viewId.toNat) →
    e.1 ∈ voters g vs ∨ (voters g vs).card ≠ n / 2

/-- Orderly steps that leave no request behind in an earlier view. -/
def leavesComplete (leaderOf : UInt32 → NodeId) (g : Group n) (e : GroupEvent n) : Prop :=
  orderly leaderOf g e ∧ EntersComplete g e.1 e.2.2 ∧ VotesInTime g e

instance (g : Group n) (vs : ViewStamp) : Decidable (Quorum g vs) :=
  inferInstanceAs (Decidable (_ ≤ _))

instance (g : Group n) (i : Fin n) : ∀ event, Decidable (EntersComplete g i event)
  | .updateView newViewInfo => inferInstanceAs (Decidable ((g i).curView.viewId + 1 =
      newViewInfo.viewId → ∀ j, ∀ a ∈ (g j).assigned,
        a.1.viewId.toNat < newViewInfo.viewId.toNat → Quorum g a.1 →
          a.1 ∈ (g i).delivered.map Delivery.vs))
  | .message _ => .isTrue trivial
  | .submit _ => .isTrue trivial
  | .makeProgress => .isTrue trivial
  | .acceptorUpdateRecord _ _ => .isTrue trivial

instance (g : Group n) (e : GroupEvent n) : Decidable (VotesInTime g e) :=
  decidable_of_iff (∀ vs ∈ ((g e.1).votesFor e.2).toList,
      (∃ j, vs.viewId.toNat < (g j).curView.viewId.toNat) →
        e.1 ∈ voters g vs ∨ (voters g vs).card ≠ n / 2)
    ⟨fun all vs member => all vs (Option.mem_toList.mpr member),
      fun all vs member => all vs (Option.mem_toList.mp member)⟩

instance (leaderOf : UInt32 → NodeId) (g : Group n) (e : GroupEvent n) :
    Decidable (leavesComplete leaderOf g e) :=
  inferInstanceAs (Decidable (_ ∧ _ ∧ _))

/-! ## Votes of one step -/

section Step

variable {leaderOf : UInt32 → NodeId} {g : Group n} {e : GroupEvent n}

/-- The only vote a step adds is the one of its call. -/
theorem votes_act (running : (g e.1).fault = none) {vs : ViewStamp} {j : Fin n}
    (votes : Votes (act g e) vs j) :
    Votes g vs j ∨ j = e.1 ∧ (g e.1).votesFor e.2 = some vs := by
  by_cases acts : j = e.1
  · subst acts
    have voted : (act g e e.1).Voted ((e.1 : ℕ) : Int) vs := votes
    rw [act_self] at voted
    rcases Comp.voted_handle running voted with old | new
    · exact .inl old
    · exact .inr ⟨rfl, new⟩
  · rw [Votes, act_other g e j acts] at votes
    exact .inl votes

/-- A request gets its majority by a vote that was missing. -/
theorem quorum_act (running : (g e.1).fault = none) {vs : ViewStamp} (quorum : Quorum (act g e) vs) :
    Quorum g vs ∨ (g e.1).votesFor e.2 = some vs ∧ e.1 ∉ voters g vs ∧
      (voters g vs).card = n / 2 := by
  by_cases fresh : (g e.1).votesFor e.2 = some vs ∧ e.1 ∉ voters g vs
  · have added : voters (act g e) vs ⊆ insert e.1 (voters g vs) := by
      intro j member
      rcases votes_act running (Finset.mem_filter.mp member).2 with old | ⟨rfl, -⟩
      · exact Finset.mem_insert_of_mem (Finset.mem_filter.mpr ⟨Finset.mem_univ _, old⟩)
      · exact Finset.mem_insert_self ..
    have one : (voters (act g e) vs).card ≤ (voters g vs).card + 1 :=
      (Finset.card_le_card added).trans (Finset.card_insert_le ..)
    by_cases before : Quorum g vs
    · exact .inl before
    · rw [Quorum] at quorum before
      exact .inr ⟨fresh.1, fresh.2, by omega⟩
  · refine .inl (quorum.trans (Finset.card_le_card ?_))
    intro j member
    rcases votes_act running (Finset.mem_filter.mp member).2 with old | ⟨rfl, votes⟩
    · exact Finset.mem_filter.mpr ⟨Finset.mem_univ _, old⟩
    · by_contra missing
      exact fresh ⟨votes, missing⟩

/-! ## What one step keeps -/

/-- Every request that is voted for has been numbered. -/
def VotesAssigned (g : Group n) : Prop :=
  ∀ vs j, Comp.IsRequest vs → Votes g vs j → ∃ data, Assigned g vs data

theorem VotesAssigned.act (before : VotesAssigned g) (known : Known leaderOf g)
    (owned : Owned leaderOf (act g e)) (running : (g e.1).fault = none)
    (sent : Sent g e.1 e.2.2) (allowed : orderly leaderOf g e) : VotesAssigned (act g e) := by
  intro vs j request votes
  rcases votes with ⟨a, member, rfl⟩ | acknowledged
  · exact ⟨a.2, j, member⟩
  by_cases old : Votes g vs j
  · obtain ⟨data, assigned⟩ := before vs j request old
    exact ⟨data, assigned.act e running⟩
  · -- a new acknowledgement is one of a request that is stored
    obtain ⟨call, member, same⟩ := acknowledged
    obtain rfl : j = e.1 := by
      by_contra other
      rw [act_other g e j other] at member
      exact old (.inr ⟨call, member, same⟩)
    obtain ⟨fresh, calls, speaks⟩ := (known.commits running sent allowed).sends
    rw [act_self, calls] at member
    rcases List.mem_append.mp member with earlier | new
    · exact absurd (.inr ⟨call, earlier, same⟩) old
    · have there := (speaks call new).stores vs _ same
      rw [← act_self g e] at there
      obtain ⟨data, -, assigned⟩ := owned.sourced.found e.1 vs request there
      exact ⟨data, assigned⟩

/-- A node's deliveries are of views up to its own. -/
def DeliversToView (g : Group n) : Prop :=
  ∀ i, ∀ d ∈ (g i).delivered, d.vs.viewId.toNat ≤ (g i).curView.viewId.toNat

/-- A node leaves its view for the next one only. -/
theorem viewId_act (running : (g e.1).fault = none) (allowed : orderly leaderOf g e) (j : Fin n) :
    (act g e j).curView.viewId = (g j).curView.viewId ∨
      j = e.1 ∧ ∃ newViewInfo, e.2.2 = .updateView newViewInfo ∧
        (g j).curView.viewId + 1 = newViewInfo.viewId ∧
        (act g e j).curView.viewId = newViewInfo.viewId ∧
        newViewInfo.viewId.toNat = (g j).curView.viewId.toNat + 1 := by
  by_cases acts : j = e.1
  · subst acts
    rw [act_self]
    cases (Comp.handle_step (g e.1) e.2 running).1 with
    | stays nothing assigned view => exact .inl (congrArg View.viewId view)
    | takes data some_data leader assigned view => exact .inl (congrArg View.viewId view)
    | enters newViewInfo event nothing successor assigned view =>
      have nonzero : newViewInfo.viewId.toNat ≠ 0 := fun zero =>
        allowed.1.2.inView.2 newViewInfo event (UInt32.toNat_inj.mp zero)
      have sum := congrArg UInt32.toNat successor
      have view_lt := (g e.1).curView.viewId.toNat_lt
      rw [UInt32.toNat_add, UInt32.toNat_one] at sum
      exact .inr ⟨rfl, newViewInfo, event, successor, congrArg View.viewId view, by omega⟩
  · exact .inl (by rw [act_other g e j acts])

theorem DeliversToView.act (before : DeliversToView g) (known : Known leaderOf g)
    (known' : Known leaderOf (act g e)) (running : (g e.1).fault = none)
    (sent : Sent g e.1 e.2.2) (allowed : orderly leaderOf g e) : DeliversToView (act g e) := by
  intro i d member
  have grows : (g i).curView.viewId.toNat ≤ (Group.act g e i).curView.viewId.toNat := by
    rcases viewId_act running allowed i with same | ⟨-, newViewInfo, -, -, view, next⟩
    · rw [same]
    · rw [view]
      omega
  by_cases old : d ∈ (g i).delivered
  · exact (before i d old).trans grows
  · obtain rfl : i = e.1 := by
      by_contra other
      rw [act_other g e i other] at member
      exact old member
    -- who has delivered something returns, and is in the view it delivers in
    have returned : (Group.act g e e.1).fault = none := by
      rw [act_self] at member ⊢
      rcases (known.commits running sent allowed).returns with same | returned
      · exact absurd (same ▸ member) old
      · exact returned
    have inOrder := (known'.order e.1).inOrder returned
    have active : (Group.act g e e.1).curView.viewId ≠ 0 := by
      intro waiting
      rw [inOrder.waiting waiting] at member
      cases member
    have at_position := (inOrder.numbered active).at_most (Comp.position d.vs)
      (List.mem_map_of_mem (List.mem_map_of_mem member))
    simp only [Comp.position] at at_position
    omega

/-- A node that has left a view has delivered all of it that has a majority. -/
def LeftComplete (g : Group n) : Prop :=
  ∀ vs, Comp.IsRequest vs → Quorum g vs → ∀ j, vs.viewId.toNat < (g j).curView.viewId.toNat →
    vs ∈ (g j).delivered.map Delivery.vs

theorem LeftComplete.act (before : LeftComplete g) (assigned : VotesAssigned g)
    (known : Known leaderOf g) (running : (g e.1).fault = none) (sent : Sent g e.1 e.2.2)
    (allowed : leavesComplete leaderOf g e) : LeftComplete (act g e) := by
  obtain ⟨orderly, enters, inTime⟩ := allowed
  have keeps : ∀ j vs, vs ∈ (g j).delivered.map Delivery.vs →
      vs ∈ (Group.act g e j).delivered.map Delivery.vs := by
    intro j vs member
    by_cases acts : j = e.1
    · subst acts
      obtain ⟨fresh, delivered, -⟩ := (known.commits running sent orderly).delivers
      rw [act_self, delivered, List.map_append]
      exact List.mem_append_left _ member
    · rwa [act_other g e j acts]
  intro vs request quorum j left
  rcases quorum_act running quorum with settled | ⟨votes, missing, half⟩
  · -- the majority was there before: either the node had left before, or it leaves now
    by_cases earlier : vs.viewId.toNat < (g j).curView.viewId.toNat
    · exact keeps j vs (before vs request settled j earlier)
    · rcases viewId_act running orderly j with same | ⟨rfl, newViewInfo, event, successor, view, -⟩
      · rw [same] at left
        exact absurd left earlier
      · rw [event] at enters
        obtain ⟨voter, member⟩ := Finset.card_pos.mp (Nat.lt_of_lt_of_le (Nat.succ_pos _) settled)
        obtain ⟨data, giver, given⟩ := assigned vs voter request (Finset.mem_filter.mp member).2
        rw [view] at left
        exact keeps e.1 vs (enters successor giver (vs, data) given left settled)
  · -- the majority is completed now, so no node has left the view
    rcases viewId_act running orderly j with same | ⟨rfl, newViewInfo, event, -⟩
    · rw [same] at left
      rcases inTime vs votes ⟨j, left⟩ with voted | other
      · exact absurd voted missing
      · exact absurd half other
    · obtain ⟨i, env, event'⟩ := e
      obtain rfl : event' = .updateView newViewInfo := event
      cases votes

end Step

/-! ## Runs -/

/-- What holds in a run that leaves no request behind. -/
structure Complete (g : Group n) : Prop where
  votes : VotesAssigned g
  views : DeliversToView g
  left : LeftComplete g

section Durable

variable {leaderOf : UInt32 → NodeId} {g : Group n}

/-- The key of a delivery in the database. -/
def deliveryKey (d : Delivery) : ℕ := (vstol d.vs).toNat

/-- A stamp is delivered with one payload. -/
theorem Owned.sameDelivery (owned : Owned leaderOf g) (delivered : DeliveredAssigned g) {i j : Fin n}
    {d : Delivery} (member : d ∈ (g i).delivered)
    (there : d.vs ∈ (g j).delivered.map Delivery.vs) : d ∈ (g j).delivered := by
  obtain ⟨d', member', same⟩ := List.mem_map.mp there
  obtain ⟨-, data, found, assigned⟩ := delivered i d member
  obtain ⟨-, data', found', assigned'⟩ := delivered j d' member'
  rw [same] at assigned'
  obtain rfl := owned.unique d.vs data data' assigned assigned'
  obtain ⟨vs, payload⟩ := d
  obtain ⟨vs', payload'⟩ := d'
  obtain rfl : vs' = vs := same
  obtain rfl : payload' = payload := found'.trans found.symm
  exact member'

/-- Who delivers in a later view has delivered what has a majority. -/
theorem Complete.earlier (complete : Complete g) (backed : Backed g) (owned : Owned leaderOf g)
    (delivered : DeliveredAssigned g) {i j : Fin n} {d d' : Delivery} (member : d ∈ (g i).delivered)
    (member' : d' ∈ (g j).delivered) (later : d.vs.viewId.toNat < d'.vs.viewId.toNat) :
    d ∈ (g j).delivered :=
  owned.sameDelivery delivered member (complete.left d.vs (delivered i d member).1
    (backed.delivered i d member) j (Nat.lt_of_lt_of_le later (complete.views j d' member')))

/-- No delivery of another node is left out below one's own. -/
theorem Complete.closed (complete : Complete g) (backed : Backed g) (known : Known leaderOf g)
    (delivered : DeliveredAssigned g) {i j : Fin n} {d d' : Delivery} (member : d ∈ (g i).delivered)
    (member' : d' ∈ (g j).delivered) (below : deliveryKey d ≤ deliveryKey d') :
    d ∈ (g j).delivered := by
  rcases Nat.lt_or_ge d.vs.viewId.toNat d'.vs.viewId.toNat with later | inView
  · exact complete.earlier backed known.owned delivered member member' later
  · -- in one view a node delivers 1, 2, 3, …
    have sameView := Nat.le_antisymm (Comp.viewId_le_of_vstol_le below) inView
    have order : d.vs.reqId.toNat ≤ d'.vs.reqId.toNat := by
      rw [deliveryKey, deliveryKey, vstol_toNat, vstol_toNat] at below
      omega
    have positive : 1 ≤ d.vs.reqId.toNat :=
      Nat.pos_of_ne_zero fun zero => (delivered i d member).1.2 (UInt32.toNat_inj.mp zero)
    obtain ⟨epoch, count, numbered⟩ := (known.order j).delivered
    have there : Comp.position d'.vs ∈ (g j).deliveredAt :=
      List.mem_map_of_mem (List.mem_map_of_mem member')
    rw [Comp.position, ← sameView] at there
    have lower := numbered.lower there positive order
    obtain ⟨vs, stamp, same⟩ := List.mem_map.mp lower
    obtain rfl : vs = d.vs := Comp.position_injective same
    exact known.owned.sameDelivery delivered member stamp

theorem Known.increasing (known : Known leaderOf g) (j : Fin n) :
    (g j).delivered.Pairwise fun d d' => deliveryKey d < deliveryKey d' := by
  obtain ⟨epoch, count, numbered⟩ := (known.order j).delivered
  have increasing := (Comp.gapFree_of_numbered (g j) epoch count numbered).increasing
  rw [List.pairwise_map] at increasing
  exact increasing.imp fun order => (viewStampComp_neg _ _).mp order

theorem Complete.durable (complete : Complete g) (backed : Backed g) (known : Known leaderOf g)
    (delivered : DeliveredAssigned g) : Durable g := by
  refine ⟨?_, ?_⟩
  · intro i j d member d' member' later
    have less : deliveryKey d < deliveryKey d' := by
      by_contra order
      exact absurd later
        (Nat.not_lt.mpr (Comp.viewId_le_of_vstol_le (Nat.not_lt.mp order)))
    exact pair_sublist_of_increasing deliveryKey (known.increasing j)
      (complete.earlier backed known.owned delivered member member' later) member' less
  · intro i j
    exact prefix_or_prefix_of_closed deliveryKey _ _ (known.increasing i) (known.increasing j)
      (fun d member d' member' => complete.closed backed known delivered member' member)
      (fun d' member' d member => complete.closed backed known delivered member member')

end Durable

end Group

end LibeventPaxos
