import LibeventPaxos.NormalCase
import LibeventPaxos.StampOwnership

/-!
The normal case: one seed leader, everyone else a follower of it, no election. Every delivered
request is stored by a quorum, and all nodes deliver the same payload under one stamp.
-/
namespace LibeventPaxos

open Lib

namespace Group

variable {n : ℕ}

open LibeventPaxos.Comp

/-! ## The group -/

/-- No election: a node that is told of a view is told of view 1 of the seed, which is what the
seed's ping requests carry. -/
def NoElection (seed : Fin n) : CompEvent → Prop
  | .updateView newViewInfo => newViewInfo = ⟨1, (seed : ℕ), 0⟩
  | .acceptorUpdateRecord _ _ => False
  | _ => True

instance (seed : Fin n) : ∀ event, Decidable (NoElection seed event)
  | .updateView newViewInfo => inferInstanceAs (Decidable (newViewInfo = ⟨1, (seed : ℕ), 0⟩))
  | .message _ => .isTrue trivial
  | .submit _ => .isTrue trivial
  | .makeProgress => .isTrue trivial
  | .acceptorUpdateRecord _ _ => .isFalse id

/-- Steps without an election, and with records that are transferred intact. -/
def noElection (seed : Fin n) (g : Group n) (e : GroupEvent n) : Prop :=
  NoElection seed e.2.2 ∧ Intact g e.1 e.2.2

instance (seed : Fin n) (g : Group n) (e : GroupEvent n) : Decidable (noElection seed g e) :=
  inferInstanceAs (Decidable (NoElection seed e.2.2 ∧ Intact g e.1 e.2.2))

/-- No request is taken that would wrap the request number. -/
def noWrap (seed : Fin n) (g : Group n) (e : GroupEvent n) : Prop :=
  noElection seed g e ∧
    ((g e.1).taken e.2 ≠ none → (g e.1).highestSeenVs.reqId.toNat < 4294967295)

instance (seed : Fin n) (g : Group n) (e : GroupEvent n) : Decidable (noWrap seed g e) :=
  inferInstanceAs (Decidable (noElection seed g e ∧
    ((g e.1).taken e.2 ≠ none → (g e.1).highestSeenVs.reqId.toNat < 4294967295)))

/-- The nodes that store something under a stamp. -/
def holders (g : Group n) (vs : ViewStamp) : Finset (Fin n) :=
  Finset.univ.filter fun j => (g j).stored vs ≠ none

def HeldBy (g : Group n) (j : ℕ) (vs : ViewStamp) : Prop :=
  ∃ inGroup : j < n, (g ⟨j, inGroup⟩).stored vs ≠ none

/-- The group while `last` requests are numbered and `point` of them committed. -/
structure Normal (seed : Fin n) (last point : ℕ) (g : Group n) : Prop where
  owned : Owned (fun _ => (seed : ℕ)) g
  leader : Leader n last point seed (HeldBy g) (g seed)
  follower : ∀ i, i ≠ seed → Follower seed last point i (g i)
  calls : ∀ i, ∀ call ∈ (g i).upCalls,
    CallOk seed last point (fun vs => (g i).stored vs ≠ none) i call
  delivered : ∀ i, ∀ d ∈ (g i).delivered,
    Within point d.vs ∧ ∃ data, d.data = some data ∧ Assigned g d.vs data
  quorum : ∀ vs, Within point vs → n / 2 + 1 ≤ (holders g vs).card

/-- The voters in an acknowledged bit map hold the record. -/
theorem card_holders {seed : Fin n} {g : Group n} {vs : ViewStamp} (own : (g seed).stored vs ≠ none)
    (quorum : QuorumOf n seed (HeldBy g) vs) : n / 2 + 1 ≤ (holders g vs).card := by
  obtain ⟨record, acked, enough⟩ := quorum
  refine enough.trans (cpop_le_card _ (fun j : Fin n => (j : ℕ)) _ ?_)
  intro b set
  obtain ⟨inGroup, holder⟩ := acked b set
  refine ⟨⟨b, inGroup⟩, ?_, rfl⟩
  rw [holders, Finset.mem_filter]
  refine ⟨Finset.mem_univ _, ?_⟩
  rcases holder with same | ⟨_, there⟩
  · subst same
    exact own
  · exact there

/-- One node has acted as its role allows. -/
theorem Normal.next {seed : Fin n} {last point last' point' : ℕ} {g : Group n} {e : GroupEvent n}
    (normal : Normal seed last point g) (owned : Owned (fun _ => (seed : ℕ)) (act g e))
    (running : (g e.1).fault = none) (lasts : last ≤ last') (points : point ≤ point')
    (outcome : Outcome seed last' point' e.1 (g e.1) (handle (g e.1) e.2))
    (only : OnlyRequests last' (handle (g e.1) e.2))
    (leader : Leader n last' point' seed (HeldBy g) (act g e seed))
    (follower : e.1 ≠ seed → Follower seed last' point' e.1 (handle (g e.1) e.2))
    (quorum : ∀ vs, vs.viewId = 1 → point < vs.reqId.toNat → vs.reqId.toNat ≤ point' →
      QuorumOf n seed (HeldBy g) vs) : Normal seed last' point' (act g e) := by
  -- no record disappears, neither on the acting node nor on the others
  have keeps : ∀ i vs, (g i).stored vs ≠ none → (act g e i).stored vs ≠ none := by
    intro i vs there
    by_cases acts : i = e.1
    · subst acts
      rw [act_self]
      exact outcome.keeps vs there
    · rwa [act_other g e i acts]
  have held : ∀ j vs, HeldBy g j vs → HeldBy (act g e) j vs :=
    fun j vs ⟨inGroup, there⟩ => ⟨inGroup, keeps _ vs there⟩
  have leader' := leader.mono_others held
  refine ⟨owned, leader', ?_, ?_, ?_, ?_⟩
  · intro i other
    by_cases acts : i = e.1
    · subst acts
      rw [act_self]
      exact follower other
    · rw [act_other g e i acts]
      exact (normal.follower i other).mono lasts points
  · intro i call member
    by_cases acts : i = e.1
    · subst acts
      rw [act_self] at member ⊢
      obtain ⟨fresh, calls, ok⟩ := outcome.sends
      rw [calls] at member
      rcases List.mem_append.mp member with old | new
      · exact (normal.calls _ call old).mono lasts points outcome.keeps
      · exact ok call new
    · rw [act_other g e i acts] at member ⊢
      exact (normal.calls i call member).mono lasts points fun _ => id
  · intro i d member
    have before : d ∈ (g i).delivered →
        Within point' d.vs ∧ ∃ data, d.data = some data ∧ Assigned (act g e) d.vs data := by
      intro old
      obtain ⟨within, data, found, assigned⟩ := normal.delivered i d old
      exact ⟨within.mono points, data, found, assigned.act e running⟩
    by_cases acts : i = e.1
    · subst acts
      rw [act_self] at member
      obtain ⟨fresh, delivered, stand⟩ := outcome.delivers
      rw [delivered] at member
      rcases List.mem_append.mp member with old | new
      · exact before old
      · obtain ⟨within, data, there⟩ := stand d new
        obtain ⟨payload, found⟩ := only.payloadAt d.vs there
        refine ⟨within, payload, data.trans found, ?_⟩
        rw [← act_self] at found
        exact owned.sourced.payload e.1 d.vs payload within.request found
    · rw [act_other g e i acts] at member
      exact before member
  · intro vs within
    -- below the old point the holders are the old ones, above it the step has found its quorum
    rcases Nat.lt_or_ge point vs.reqId.toNat with above | below
    · obtain ⟨record, acked, enough⟩ := quorum vs within.1 above within.2.2
      refine card_holders (leader'.all vs (within.mono leader'.point_le)) ⟨record, ?_, enough⟩
      intro b set
      obtain ⟨inGroup, holder⟩ := acked b set
      exact ⟨inGroup, holder.imp_right (held b vs)⟩
    · refine (normal.quorum vs ⟨within.1, within.2.1, below⟩).trans (Finset.card_le_card ?_)
      intro j member
      rw [holders, Finset.mem_filter] at member ⊢
      exact ⟨member.1, keeps j vs member.2⟩

/-- A message that arrives was allowed to its sender. -/
theorem Normal.received {seed : Fin n} {last point : ℕ} {g : Group n}
    (normal : Normal seed last point g) (target : Fin n) (msg : ConsensusMsg)
    (sent : Sent g target (.message msg)) : ∃ source, source ≠ target ∧ ∃ address,
      CallOk seed last point (fun vs => (g source).stored vs ≠ none) source (address, msg) := by
  obtain ⟨source, ⟨address, _⟩, member, ⟨different, -⟩, received⟩ := sent
  have ok := normal.calls source _ member
  -- whether a call is allowed does not depend on the record it carries
  cases received with
  | whole => exact ⟨source, different, address, ok⟩
  | short => exact ⟨source, different, address, ok⟩

private theorem follower_message {seed : Fin n} {last point : ℕ} {g : Group n}
    (normal : Normal seed last point g) (i : Fin n) (other : i ≠ seed) (env : Env)
    (msg : ConsensusMsg) (sent : Sent g i (.message msg)) :
    FollowerStep seed last point i (g i) (consensusHandleMsg env (g i) msg) := by
  have follower := normal.follower i other
  have notLeader : (g i).myRole ≠ .leader := by
    rw [follower.role]
    exact ConRole.noConfusion
  obtain ⟨source, different, address, ok⟩ := normal.received i msg sent
  cases msg with
  | acceptReq msgVs reqCanbeExed nodeId record =>
    obtain ⟨-, -, within, view, reached⟩ := ok
    exact follower.handleAcceptReq env msgVs reqCanbeExed nodeId record within view reached
  -- who does not lead ignores acknowledgements
  | acceptAck msgVs nodeId =>
    have ignored : storeAcceptAck env (g i) msgVs nodeId = g i := by
      simp only [storeAcceptAck, if_pos notLeader]
    simp only [consensusHandleMsg, Comp.handleAcceptAck, ignored]
    exact follower.execute env
  | missingReq nodeId missingVs =>
    refine ⟨?_, handleMissingReq_outcome follower.only env nodeId missingVs⟩
    simp only [consensusHandleMsg, Comp.handleMissingReq]
    split
    next nothing => exact follower
    next reply built => exact { follower with }
  | missingAck nodeId missingVs record =>
    exact follower.handleMissingAck env missingVs record ok
  | forceExec nodeId highestCommittedOp =>
    obtain ⟨-, -, view, reached⟩ := ok
    exact follower.handleForceExec env nodeId highestCommittedOp view reached
  | forwardReq nodeId data =>
    simp only [consensusHandleMsg, handleForwardReq, if_pos notLeader]
    exact ⟨follower, .refl ..⟩

private theorem follower_step {seed : Fin n} {last point : ℕ} {g : Group n}
    (normal : Normal seed last point g) (e : GroupEvent n) (other : e.1 ≠ seed)
    (sent : Sent g e.1 e.2.2) (allowed : NoElection seed e.2.2) :
    FollowerStep seed last point e.1 (g e.1) (handle (g e.1) e.2) := by
  obtain ⟨i, env, event⟩ := e
  have follower := normal.follower i other
  have notLeader : (g i).myRole ≠ .leader := by
    rw [follower.role]
    exact ConRole.noConfusion
  cases event with
  | message msg => exact follower_message normal i other env msg sent
  | submit data =>
    simp only [Comp.handle, consensusSubmitRequest, if_neg notLeader]
    refine ⟨{ follower with }, .change rfl [((g i).curView.leaderId, (g i).buildForwardReq data)] rfl
      ?_ fun _ => id⟩
    intro call member
    obtain rfl := List.mem_singleton.mp member
    trivial
  | makeProgress =>
    simp only [Comp.handle, consensusMakeProgress, if_pos notLeader]
    exact ⟨follower, .refl ..⟩
  | updateView newViewInfo =>
    obtain rfl : newViewInfo = ⟨1, (seed : ℕ), 0⟩ := allowed
    exact follower.join env fun same => other (Fin.ext same)
  | acceptorUpdateRecord nextView record => exact allowed.elim

private theorem leader_message {seed : Fin n} {last point : ℕ} {g : Group n}
    (normal : Normal seed last point g) (small : n ≤ 31) (running : (g seed).fault = none)
    (env : Env) (msg : ConsensusMsg) (sent : Sent g seed (.message msg))
    (room : (g seed).taken (env, .message msg) ≠ none →
      (g seed).highestSeenVs.reqId.toNat < 4294967295) :
    ∃ last', LeaderStep n last last' point seed (HeldBy g) (g seed)
      (consensusHandleMsg env (g seed) msg) := by
  have leader := normal.leader
  obtain ⟨source, different, address, ok⟩ := normal.received seed msg sent
  cases msg with
  -- requests and forced executions come from the leader itself, who sends itself nothing
  | acceptReq msgVs reqCanbeExed nodeId record => exact absurd (Fin.ext ok.1) different
  | acceptAck msgVs nodeId =>
    obtain ⟨rfl, -, holds⟩ := ok
    have inGroup := source.isLt
    exact ⟨last, leader.handleAcceptAck running env msgVs source (by omega) inGroup
      ⟨inGroup, holds⟩⟩
  | missingReq nodeId missingVs =>
    refine ⟨last, le_rfl, point, le_rfl, ?_,
      handleMissingReq_outcome leader.only env nodeId missingVs, fun _ _ above below => by omega⟩
    simp only [consensusHandleMsg, Comp.handleMissingReq]
    split
    next nothing => exact leader
    next reply built => exact { leader with }
  | missingAck nodeId missingVs record =>
    refine ⟨last, ?_⟩
    have ignored := leader.handleMissingAck env missingVs record ok
    rw [consensusHandleMsg, ignored]
    exact leader.refl
  | forceExec nodeId highestCommittedOp => exact absurd (Fin.ext ok.1) different
  | forwardReq nodeId data =>
    simp only [consensusHandleMsg, handleForwardReq, if_neg (not_not_intro leader.role)]
    have inGroup := seed.isLt
    by_cases stores : env.storeOk = true
    · have bound := room (by simp [taken, leader.role, stores])
      rw [leader.seen] at bound
      exact leader.leaderHandleSubmitReq running env data (by omega) inGroup bound
    · have refused : (leaderHandleSubmitReq env (g seed) data).1 = g seed := by
        simp [Comp.leaderHandleSubmitReq, stores]
      exact ⟨last, by rw [refused]; exact leader.refl⟩

private theorem leader_step {seed : Fin n} {last point : ℕ} {g : Group n}
    (normal : Normal seed last point g) (small : n ≤ 31) (running : (g seed).fault = none)
    (e : Env × CompEvent) (sent : Sent g seed e.2) (allowed : NoElection seed e.2)
    (room : (g seed).taken e ≠ none → (g seed).highestSeenVs.reqId.toNat < 4294967295) :
    ∃ last', LeaderStep n last last' point seed (HeldBy g) (g seed) (handle (g seed) e) := by
  obtain ⟨env, event⟩ := e
  have leader := normal.leader
  cases event with
  | message msg => exact leader_message normal small running env msg sent room
  | submit data =>
    simp only [Comp.handle, consensusSubmitRequest, if_pos leader.role]
    have inGroup := seed.isLt
    by_cases stores : env.storeOk = true
    · have bound := room (by simp [taken, leader.role, stores])
      rw [leader.seen] at bound
      exact leader.leaderHandleSubmitReq running env data (by omega) inGroup bound
    · have refused : (leaderHandleSubmitReq env (g seed) data).1 = g seed := by
        simp [Comp.leaderHandleSubmitReq, stores]
      exact ⟨last, by rw [refused]; exact leader.refl⟩
  | makeProgress => exact ⟨last, leader.consensusMakeProgress running env⟩
  | updateView newViewInfo =>
    obtain rfl : newViewInfo = ⟨1, (seed : ℕ), 0⟩ := allowed
    have ignored : updateView env (g seed) ⟨1, (seed : ℕ), 0⟩ = g seed := by
      simp [updateView, leader.view]
    exact ⟨last, by rw [Comp.handle, ignored]; exact leader.refl⟩
  | acceptorUpdateRecord nextView record => exact allowed.elim

theorem Normal.act {seed : Fin n} {last point : ℕ} {g : Group n}
    (normal : Normal seed last point g) (small : n ≤ 31) (e : GroupEvent n)
    (enabled : (machine n (some seed)).enabled g e) (allowed : noWrap seed g e) :
    ∃ last' point', Normal seed last' point' (act g e) := by
  obtain ⟨running, sent⟩ := enabled
  -- the only view entered is the first one, led by the seed
  have single : SingleLeader (fun _ => ((seed : ℕ) : NodeId)) e.2.2 ∧
      ∀ newViewInfo, e.2.2 = .updateView newViewInfo → newViewInfo.viewId ≠ 0 := by
    have joins := allowed.1.1
    cases event : e.2.2 with
    | updateView newViewInfo =>
      rw [event] at joins
      obtain rfl : newViewInfo = ⟨1, (seed : ℕ), 0⟩ := joins
      refine ⟨rfl, ?_⟩
      rintro _ ⟨⟩
      show (1 : UInt32) ≠ 0
      decide
    | message msg => exact ⟨trivial, by simp⟩
    | submit data => exact ⟨trivial, by simp⟩
    | makeProgress => exact ⟨trivial, by simp⟩
    | acceptorUpdateRecord nextView record => exact ⟨trivial, by simp⟩
  have inView : TakesInView (g e.1) e.2 := by
    refine ⟨fun takes => ⟨?_, allowed.2 takes⟩, single.2⟩
    by_cases acts : e.1 = seed
    · rw [acts, normal.leader.seenView, normal.leader.view]
    · have follower := normal.follower e.1 acts
      -- a follower never assigns a stamp, so the request is taken by the seed
      refine absurd ?_ takes
      obtain ⟨i, env, event⟩ := e
      have notLeader : (g i).myRole ≠ .leader := by
        rw [follower.role]
        exact ConRole.noConfusion
      cases event with
      | message msg => cases msg <;> simp [taken, notLeader]
      | _ => simp [taken, notLeader]
  have owned := normal.owned.act e running sent ⟨single.1, inView, allowed.1.2⟩
  by_cases acts : e.1 = seed
  · obtain ⟨i, event⟩ := e
    obtain rfl : i = seed := acts
    obtain ⟨last', lasts, point', points, leader, outcome, quorum⟩ :=
      leader_step normal small running event sent allowed.1.1 allowed.2
    refine ⟨last', point', normal.next owned running lasts points outcome leader.only ?_
      (fun other => absurd rfl other) quorum⟩
    rw [act_self g (i, event)]
    exact leader
  · obtain ⟨follower, outcome⟩ := follower_step normal e acts sent allowed.1.1
    refine ⟨last, point, normal.next owned running le_rfl le_rfl outcome follower.only ?_
      (fun _ => follower) fun _ _ above below => by omega⟩
    rw [act_other g e seed (Ne.symm acts)]
    exact normal.leader

/-! ## Runs -/

theorem start_normal (seed : Fin n) (small : n ≤ 31) :
    Normal seed 0 0 (start n (some seed)) := by
  have seeded : start n (some seed) seed = Comp.init true seed n := by simp [start]
  have other : ∀ i, i ≠ seed → start n (some seed) i = Comp.init false i n := by
    intro i different
    simp [start, Ne.symm different]
  have empty : ∀ i vs, (start n (some seed) i).stored vs = none := fun _ _ => rfl
  have nothing : ∀ vs, ¬ Within 0 vs := fun vs within => by
    have positive := within.2.1
    have bounded := within.2.2
    omega
  refine {
    owned := ⟨start_sourced _, start_owner _ _ fun i same => by rw [Option.some.inj same]⟩
    leader := ?_
    follower := ?_
    calls := fun i call member => by cases member
    delivered := fun i d member => by cases member
    quorum := fun vs within => absurd within (nothing vs) }
  · rw [seeded]
    exact {
      nodeId := rfl
      groupSize := rfl
      role := by simp [Comp.init]
      view := rfl
      seenView := rfl
      seen := rfl
      only := fun vs value found => by cases found
      all := fun vs within => absurd within (nothing vs)
      acked := fun vs record found => by cases found
      point_le := le_rfl
      views := fun _ => ⟨rfl, rfl⟩
      toCommit := fun _ => ⟨rfl, le_rfl⟩ }
  · intro i different
    rw [other i different]
    -- the ids in use stay below 9999, which stands for no leader
    have unlike : (9999 : Int) ≠ ((i : ℕ) : Int) := by
      have inGroup := i.isLt
      omega
    exact {
      running := rfl
      nodeId := rfl
      role := by simp [Comp.init, unlike]
      view := .inl rfl
      seenView := rfl
      toCommitView := rfl
      committedView := rfl
      toCommit := le_rfl
      committed := le_rfl
      only := fun vs value found => by cases found }

theorem normal_of_reaches (seed : Fin n) (small : n ≤ 31) (g : Group n)
    (reached : (machine n (some seed)).Reaches (noWrap seed) g) :
    ∃ last point, Normal seed last point g := by
  apply reached.invariant (I := fun g => ∃ last point, Normal seed last point g)
  · rintro g rfl
    exact ⟨0, 0, start_normal seed small⟩
  · intro g e normal allowed enabled
    obtain ⟨last, point, normal⟩ := normal
    exact normal.act small e enabled allowed

/-- Every delivered request is stored with its payload by the leader and by a quorum, and no two
nodes deliver different payloads under one stamp. -/
structure QuorumBacked (seed : Fin n) (g : Group n) : Prop where
  backed : ∀ i, ∀ d ∈ (g i).delivered, ∃ data, d.data = some data ∧
    (g seed).payloadAt d.vs = some data ∧
    n / 2 + 1 ≤ (Finset.univ.filter fun j => (g j).payloadAt d.vs = some data).card
  agreed : ∀ i j, ∀ d ∈ (g i).delivered, ∀ d' ∈ (g j).delivered, d.vs = d'.vs → d.data = d'.data

/-- A node that stores a request of the normal case stores the payload that was assigned. -/
theorem Normal.payload {seed : Fin n} {last point : ℕ} {g : Group n}
    (normal : Normal seed last point g) (j : Fin n) (vs : ViewStamp) (data : List UInt8)
    (assigned : Assigned g vs data) (within : Within last vs) (there : (g j).stored vs ≠ none) :
    (g j).payloadAt vs = some data := by
  have only : OnlyRequests last (g j) := by
    by_cases isSeed : j = seed
    · rw [isSeed]
      exact normal.leader.only
    · exact (normal.follower j isSeed).only
  obtain ⟨data', found⟩ := only.payloadAt vs there
  have assigned' := normal.owned.sourced.payload j vs data' within.request found
  rw [found, normal.owned.unique vs data data' assigned assigned']

theorem Normal.quorumBacked {seed : Fin n} {last point : ℕ} {g : Group n}
    (normal : Normal seed last point g) : QuorumBacked seed g := by
  constructor
  · intro i d member
    obtain ⟨within, data, delivered, assigned⟩ := normal.delivered i d member
    have within' := within.mono normal.leader.point_le
    refine ⟨data, delivered, ?_, ?_⟩
    · exact normal.payload seed d.vs data assigned within' (normal.leader.all d.vs within')
    · refine (normal.quorum d.vs within).trans (Finset.card_le_card ?_)
      intro j holder
      rw [holders, Finset.mem_filter] at holder
      rw [Finset.mem_filter]
      exact ⟨holder.1, normal.payload j d.vs data assigned within' holder.2⟩
  · intro i j d member d' member' same
    obtain ⟨-, data, delivered, assigned⟩ := normal.delivered i d member
    obtain ⟨-, data', delivered', assigned'⟩ := normal.delivered j d' member'
    rw [same] at assigned
    rw [delivered, delivered', normal.owned.unique d'.vs data data' assigned assigned']

/-- Without an election what is delivered is backed by a quorum and agreed on, as long as the
leader takes no request after number `2 ^ 32 - 1`. -/
theorem delivered_quorum_backed (small : n ≤ 31) (seed : Fin n) (g : Group n)
    (reached : (machine n (some seed)).Reaches (noWrap seed) g) : QuorumBacked seed g := by
  obtain ⟨last, point, normal⟩ := normal_of_reaches seed small g reached
  exact normal.quorumBacked

/-- The other nodes join the seed, node 1 acknowledges the first request and the seed delivers
it. -/
def firstRequest : List (GroupEvent 3) :=
  [(1, Comp.quietEnv, .updateView ⟨1, 0, 0⟩), (2, Comp.quietEnv, .updateView ⟨1, 0, 0⟩),
    (0, Comp.quietEnv, .submit [5]),
    (1, Comp.quietEnv, .message (.acceptReq ⟨1, 1⟩ ⟨1, 0⟩ 0 ⟨⟨0, 0⟩, 0, 1, [5]⟩)),
    (0, Comp.quietEnv, .message (.acceptAck ⟨1, 1⟩ 1))]

def afterFirst : Group 3 := firstRequest.foldl act (start 3 (some 0))

theorem first_request_backed :
    (afterFirst 0).delivered = [⟨⟨1, 1⟩, some [5]⟩] ∧ QuorumBacked 0 afterFirst := by
  refine ⟨by decide, delivered_quorum_backed (by decide) 0 afterFirst
    ⟨start 3 (some 0), rfl, ?_⟩⟩
  apply Machine.Accepts.run
  decide

/-! ## The request number wraps -/

/-- The seed after `k` more requests that nobody acknowledges. -/
structure Unacknowledged (k : ℕ) (c : Comp) : Prop where
  running : c.fault = none
  nodeId : c.nodeId = 0
  groupSize : c.groupSize = 3
  role : c.myRole = .leader
  seen : c.highestSeenVs = stampAfter ⟨1, 1⟩ k
  toCommit : c.highestToCommitVs = ⟨1, 1⟩
  delivered : c.delivered = [⟨⟨1, 1⟩, some [5]⟩]

theorem Unacknowledged.submit {k : ℕ} {c : Comp} (waiting : Unacknowledged k c)
    (data : List UInt8) :
    Unacknowledged (k + 1) (c.handle (quietEnv, .submit data)) ∧
      (-1, .acceptReq (stampAfter ⟨1, 1⟩ (k + 1)) ⟨1, 1⟩ 0 ⟨⟨0, 0⟩, 0, nodeBit 0, data⟩) ∈
        (c.handle (quietEnv, .submit data)).upCalls := by
  have next : c.getNextViewStamp = stampAfter ⟨1, 1⟩ (k + 1) := by
    rw [← viewStampInc_stampAfter, ← waiting.seen]
    rfl
  simp only [Comp.handle, consensusSubmitRequest, if_pos waiting.role]
  rcases leaderHandleSubmitReq_cases quietEnv c data with
    ⟨refused, -⟩ | ⟨-, submitted, equal, ⟨-, sent⟩ | ⟨alone, -⟩⟩
  · cases refused
  · rw [sent, equal, next]
    refine ⟨{ waiting with seen := rfl }, ?_⟩
    simp [uc, buildAcceptReq, submitRecord, waiting.toCommit, waiting.nodeId, quietEnv]
  · rw [waiting.groupSize] at alone
    omega

theorem unacknowledged_run (k : ℕ) :
    ∃ g, (machine 3 (some 0)).Run (noElection 0) afterFirst g ∧ Unacknowledged k (g 0) ∧
      g 2 = afterFirst 2 := by
  induction k with
  | zero =>
    refine ⟨afterFirst, .refl, ?_, rfl⟩
    exact {
      running := by decide
      nodeId := by decide
      groupSize := by decide
      role := by decide
      seen := by decide
      toCommit := by decide
      delivered := by decide }
  | succ k ih =>
    obtain ⟨g, run, waiting, same⟩ := ih
    refine ⟨act g (0, quietEnv, .submit []), .step run ⟨trivial, trivial⟩ ⟨waiting.running, trivial⟩, ?_, ?_⟩
    · exact (waiting.submit []).1
    · rw [act_other g _ 2 (by decide), same]

/-- After `2 ^ 32` more requests the seed gives (1,1) again, with the commit point still at (1,1):
node 2 delivers the new payload under the stamp under which the seed has delivered the old. -/
theorem stamp_given_again :
    ¬ ∀ (n : ℕ) (seed : Fin n) (g : Group n), n ≤ 31 →
      (machine n (some seed)).Reaches (noElection seed) g → QuorumBacked seed g := by
  intro claim
  have begun : (machine 3 (some 0)).Run (noElection 0) (start 3 (some 0)) afterFirst := by
    apply Machine.Accepts.run
    decide
  obtain ⟨g, run, waiting, same⟩ := unacknowledged_run 4294967295
  obtain ⟨again, sent⟩ := waiting.submit [6]
  -- after 2^32 more requests the counter is back, and the stamp of [5] is given to [6]
  have last : stampAfter ⟨1, 1⟩ (4294967295 + 1) = ⟨1, 1⟩ := by decide
  rw [last] at sent
  let submitted := act g (0, quietEnv, .submit [6])
  let request : ConsensusMsg := .acceptReq ⟨1, 1⟩ ⟨1, 1⟩ 0 ⟨⟨0, 0⟩, 0, nodeBit 0, [6]⟩
  have follower : submitted 2 = afterFirst 2 := by
    rw [← same]
    exact act_other g _ 2 (by decide)
  have arrives : (machine 3 (some 0)).enabled submitted (2, quietEnv, .message request) := by
    refine ⟨?_, 0, (-1, request), sent, by decide, .whole request⟩
    rw [follower]
    decide
  have reached : (machine 3 (some 0)).Reaches (noElection 0)
      (act submitted (2, quietEnv, .message request)) := by
    refine ⟨start 3 (some 0), rfl, .step ?_ ⟨trivial, trivial⟩ arrives⟩
    exact (begun.trans run).trans (.step .refl ⟨trivial, trivial⟩ ⟨waiting.running, trivial⟩)
  have agreed := (claim 3 0 _ (by decide) reached).agreed 0 2
  have first : (act submitted (2, quietEnv, .message request) 0).delivered =
      [⟨⟨1, 1⟩, some [5]⟩] := again.delivered
  have second : (act submitted (2, quietEnv, .message request) 2).delivered =
      [⟨⟨1, 1⟩, some [6]⟩] := by
    have delivered : (handle (afterFirst 2) (quietEnv, .message request)).delivered =
        [⟨⟨1, 1⟩, some [6]⟩] := by decide
    rw [← delivered, ← follower]
    rfl
  rw [first, second] at agreed
  exact absurd (agreed _ (List.mem_singleton_self _) _ (List.mem_singleton_self _) rfl) (by decide)

end Group

end LibeventPaxos
