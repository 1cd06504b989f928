import LibeventPaxos.ElectionVotes

/-!
The steps of one node in an election, as long as it forgets no vote: each handler keeps what its
state and its messages stand for.
-/
namespace LibeventPaxos

open Lib

namespace Node

/-! ## Where the discipline can break -/

/-- The node has neither accepted a proposal of this election nor entered one of its own. The
number it has accepted in an earlier election stays. -/
def Unvoted (node : Node) : Prop :=
  node.electionMod.acceptor.content = -1 ∧ (node.electionMod.learnerArr node.nodeId).pnum = -1

instance (node : Node) : Decidable (Unvoted node) := inferInstanceAs (Decidable (_ ∧ _))

/-- No answer of the round reports as high a number as the proposal the node has accepted, if it has
accepted one. -/
def OwnLatest (n : ℕ) (node : Node) : Prop :=
  node.electionMod.acceptor.content ≠ -1 → ∀ k ∈ List.range n, ((k : ℕ) : Int) ≠ node.nodeId →
    node.electionMod.Answered n (k : ℕ) →
      (node.electionMod.proposerArr (k : ℕ)).aPnum < node.electionMod.acceptor.acceptedPnum

instance (n : ℕ) (node : Node) : Decidable (OwnLatest n node) :=
  inferInstanceAs (Decidable (_ → ∀ k ∈ List.range n, _ → _ → _ < _))

/-- The proposer's records once the answer is entered. -/
def answered (node : Node) (msg : LeleMsg) : LeleMod :=
  { node.electionMod with
    proposerArr := Function.update node.electionMod.proposerArr msg.nodeId
      ⟨node.electionMod.origin node.groupSize, msg.pnum, msg.content⟩ }

/-- A node answers a higher prepare only while it has not voted, and an answer completes its round
only while it has seen no higher number and no number of an earlier election hides its own vote. -/
def KeepsVotes (node : Node) (msg : LeleMsg) : Prop :=
  (msg.type = .prepare → node.electionMod.acceptor.highestSeenPnum < msg.pnum → Unvoted node) ∧
  (msg.type = .prepareAck → msg.pPnum = node.electionMod.origin node.groupSize →
    (node.answered msg).proposerCheckPrepare node.groupSize ≠ none →
    node.electionMod.acceptor.highestSeenPnum ≤ node.electionMod.origin node.groupSize ∧
      OwnLatest node.groupSize (node.withMod (node.answered msg)))

instance (node : Node) (msg : LeleMsg) : Decidable (KeepsVotes node msg) :=
  inferInstanceAs (Decidable (_ ∧ _))

section Electing

variable {n : ℕ} {w : UInt32} {i : Fin n} {net : Net n} {node : Node}

/-! ## Proposing -/

/-- A node id is not the content -1 of an acceptor that has accepted nothing. -/
theorem natCast_ne_none (k : ℕ) : ((k : ℕ) : Int) ≠ -1 := by omega

theorem Electing.origin_mine (electing : Electing w i net node)
    (positive : 0 < node.electionMod.origin n) : Mine n i (node.electionMod.origin n) := by
  obtain ⟨round, next⟩ := electing.nextPnum
  have inGroup := i.isLt
  rw [LeleMod.origin, next] at positive ⊢
  cases round with
  | zero =>
    rw [Nat.cast_zero, mul_zero] at positive
    omega
  | succ round =>
    refine ⟨round, ?_⟩
    rw [Nat.cast_succ, mul_add, mul_one]
    omega

/-- The number of a vote as acceptor is below the number seen in a round of the node's own. -/
theorem Electing.accepted_lt (electing : Electing w i net node)
    (positive : 0 < node.electionMod.origin n)
    (seen : node.electionMod.acceptor.highestSeenPnum ≤ node.electionMod.origin n)
    (voted : node.electionMod.acceptor.content ≠ -1) :
    (w, node.electionMod.acceptor.acceptedPnum, node.electionMod.acceptor.content) ∈
        node.accepted ∧
      node.electionMod.acceptor.acceptedPnum < node.electionMod.origin n := by
  rcases electing.last with ⟨nothing, -⟩ | ⟨-, member⟩
  · exact absurd nothing voted
  · refine ⟨member, ?_⟩
    have other := (electing.accepts _ _ member).2.2.1
    have mine := electing.origin_mine positive
    have bound := electing.acceptor.2
    have different : node.electionMod.acceptor.acceptedPnum ≠ node.electionMod.origin n :=
      fun same => other (same ▸ mine)
    omega

/-- A majority answers with nothing but what the node itself has accepted. -/
theorem Electing.majority (electing : Electing w i net node) (content : NodeId)
    (found : node.electionMod.proposerCheckPrepare n = some content)
    (seen : node.electionMod.acceptor.highestSeenPnum ≤ node.electionMod.origin n)
    (nodeId : node.nodeId = (i : ℕ)) (latest : OwnLatest n node) :
    0 < node.electionMod.origin n ∧ content = node.electionMod.acceptor.content ∧
      ∃ backers : Finset (Fin n), Majority backers ∧
        ∀ k ∈ backers, k ≠ i → net.promised k (node.electionMod.origin n) := by
  have majority := LeleMod.proposerCheckPrepare_majority n _ content found
  have answers : ∀ k : Fin n, node.electionMod.Answered n (k : ℕ) →
      0 < node.electionMod.origin n ∧ (k ≠ i → net.promised k (node.electionMod.origin n)) := by
    intro k answered
    by_cases own : k = i
    · subst own
      have bounds := electing.ownRound answered.2
      rw [answered.1] at bounds
      exact ⟨bounds.1, fun other => absurd rfl other⟩
    · obtain ⟨-, ⟨positive, -⟩, promised⟩ := electing.answers k own answered.2
      rw [answered.1] at positive promised
      exact ⟨positive, fun _ => promised⟩
  -- a majority has at least one member, whose answer bears the number
  have positive : 0 < node.electionMod.origin n := by
    obtain ⟨k, member, -⟩ := majority.meet majority
    exact (answers k (Finset.mem_filter.mp member).2).1
  have round : node.electionMod.acceptor.highestSeenPnum = node.electionMod.origin n :=
    le_antisymm seen electing.round
  have own := electing.ownPromise round
  refine ⟨positive, ?_, _, majority, ?_⟩
  · refine LeleMod.proposerCheckPrepare_content n i _ i.isLt content found ?_ _ ?_ ?_
    · intro k inside other answered
      have different : (⟨k, inside⟩ : Fin n) ≠ i := fun same => other (congrArg Fin.val same)
      exact (electing.answers ⟨k, inside⟩ different answered.2).1
    · intro answered
      rw [if_pos answered] at own
      refine ⟨own.2, fun voted => ?_⟩
      rw [own.1]
      have bounds := electing.acceptor
      refine ⟨by omega, fun k inside other => latest voted k (List.mem_range.mpr inside) ?_⟩
      rw [nodeId]
      exact fun same => other (Int.ofNat_inj.mp same)
    · intro unanswered
      rwa [if_neg unanswered] at own
  · intro k member
    exact (answers k (Finset.mem_filter.mp member).2).2

/-- Between the two states the node has proposed what it prefers under the number of its round, and
entered that as its own vote. -/
structure ProposesOwn (w : UInt32) (i : Fin n) (node node' : Node) (msg : LeleMsg) : Prop where
  type : msg.type = .accept
  view : msg.nextView = w
  nodeId : msg.nodeId = (i : ℕ)
  pnum : msg.pnum = node.electionMod.origin n
  content : msg.content = preferred i node
  said : ∀ type' msg', Said w node' type' msg' ↔
    Said w node type' msg' ∨ (msg' = msg ∧ msg.type = type' ∧ msg.nextView = w)
  accepted : node'.accepted = node.accepted
  mod : node'.electionMod = { node.electionMod with
    learnerArr := Function.update node.electionMod.learnerArr (i : ℕ)
      ⟨node.electionMod.origin n, preferred i node⟩ }

section ProposesOwn

variable {node' : Node} {msg : LeleMsg}

theorem ProposesOwn.votes (proposes : ProposesOwn w i node node' msg) (b : Int) (x : NodeId) :
    Vote w node' b x ↔
      Vote w node b x ∨ (b = node.electionMod.origin n ∧ x = preferred i node) := by
  simp only [Vote, proposes.accepted, proposes.said]
  constructor
  · rintro (member | ⟨msg', old | ⟨rfl, -, -⟩, rfl, rfl⟩)
    · exact .inl (.inl member)
    · exact .inl (.inr ⟨msg', old, rfl, rfl⟩)
    · exact .inr ⟨proposes.pnum, proposes.content⟩
  · rintro ((member | ⟨msg', old, rfl, rfl⟩) | ⟨rfl, rfl⟩)
    · exact .inl member
    · exact .inr ⟨msg', .inl old, rfl, rfl⟩
    · exact .inr ⟨msg, .inr ⟨rfl, proposes.type, proposes.view⟩, proposes.pnum, proposes.content⟩

theorem ProposesOwn.grows (proposes : ProposesOwn w i node node' msg)
    (round : node.electionMod.acceptor.highestSeenPnum = node.electionMod.origin n) :
    Grows w i node node' := by
  refine ⟨by rw [proposes.mod], by rw [proposes.accepted]; exact fun _ => id,
    fun b x vote => (proposes.votes b x).mpr (.inl vote), ?_, ?_⟩
  · intro b x vote
    rcases (proposes.votes b x).mp vote with old | ⟨rfl, -⟩
    · exact .inl old
    · exact .inr round.le
  · intro b x _ _ current
    rwa [Current, preferred, proposes.mod]

/-- Every earlier vote of the node is followed by one for what it proposes. -/
theorem ProposesOwn.last (proposes : ProposesOwn w i node node' msg)
    (electing : Electing w i net node) (positive : 0 < node.electionMod.origin n)
    (seen : node.electionMod.acceptor.highestSeenPnum ≤ node.electionMod.origin n) (b : Int)
    (y : NodeId) (vote : Vote w node' b y) (below : b < node.electionMod.origin n) :
    ∃ b', b ≤ b' ∧ b' < node.electionMod.origin n ∧ Vote w node' b' (preferred i node) := by
  -- what the acceptor has accepted last is what the node prefers
  have lastVote : node.electionMod.acceptor.content ≠ -1 →
      b ≤ node.electionMod.acceptor.acceptedPnum → ∃ b', b ≤ b' ∧
        b' < node.electionMod.origin n ∧ Vote w node' b' (preferred i node) := by
    intro voted order
    obtain ⟨member, lower⟩ := electing.accepted_lt positive seen voted
    refine ⟨_, order, lower, .inl ?_⟩
    rw [proposes.accepted, preferred, if_neg voted]
    exact member
  rcases (proposes.votes b y).mp vote with (member | ⟨old, said, rfl, rfl⟩) | ⟨rfl, -⟩
  · refine lastVote ?_ (electing.accepts b y member).2.1
    rcases electing.last with ⟨-, nobody⟩ | ⟨voted, -⟩
    · exact absurd member (nobody b y)
    · exact voted
  · have earlier : Proposal w i net node old := by
      have ok := electing.said .accept old said
      rwa [MsgOk, said.1] at ok
    rcases earlier.current with ⟨voted, order⟩ | same
    · exact lastVote voted order.le
    · exact ⟨old.pnum, le_rfl, below,
        (proposes.votes _ _).mpr (.inl (.inr ⟨old, said, rfl, same⟩))⟩
  · exact absurd below (lt_irrefl _)

/-- A node prefers a node of the group. -/
theorem preferred_ne_none : preferred i node ≠ -1 := by
  rw [preferred]
  split
  · exact natCast_ne_none i
  · assumption

theorem ProposesOwn.proposal (proposes : ProposesOwn w i node node' msg)
    (electing : Electing w i net node) (positive : 0 < node.electionMod.origin n)
    (round : node.electionMod.acceptor.highestSeenPnum = node.electionMod.origin n)
    (backed : ∃ backers : Finset (Fin n), Majority backers ∧
      ∀ k ∈ backers, k ≠ i → net.promised k (node.electionMod.origin n)) :
    Proposal w i net node' msg :=
  { nodeId := proposes.nodeId
    mine := by rw [proposes.pnum]; exact electing.origin_mine positive
    positive := by rw [proposes.pnum]; exact positive
    seen := by rw [proposes.pnum, proposes.mod]; exact round.ge
    content := by rw [proposes.content]; exact preferred_ne_none
    current := by
      rw [Current, preferred, proposes.mod, proposes.content]
      exact .inr rfl
    last := by
      rw [proposes.pnum, proposes.content]
      exact proposes.last electing positive round.le
    backed := by rw [proposes.pnum]; exact backed }

/-- A proposal with the number of the round was made of the same preference. -/
theorem Electing.repeated (electing : Electing w i net node)
    (round : node.electionMod.acceptor.highestSeenPnum = node.electionMod.origin n)
    (old : LeleMsg) (said : Said w node .accept old)
    (number : old.pnum = node.electionMod.origin n) : old.content = preferred i node := by
  have ok := electing.said .accept old said
  rw [MsgOk, said.1] at ok
  have earlier : Proposal w i net node old := ok
  rcases earlier.current with ⟨-, later⟩ | same
  · have bound := electing.acceptor.2
    omega
  · exact same

theorem ProposesOwn.electing (proposes : ProposesOwn w i node node' msg)
    (electing : Electing w i net node) (positive : 0 < node.electionMod.origin n)
    (round : node.electionMod.acceptor.highestSeenPnum = node.electionMod.origin n)
    (backed : ∃ backers : Finset (Fin n), Majority backers ∧
      ∀ k ∈ backers, k ≠ i → net.promised k (node.electionMod.origin n))
    (vote : net.vote i (node.electionMod.origin n) (preferred i node)) :
    Electing w i net node' := by
  have mod := proposes.mod
  have accepted := proposes.accepted
  have learner : ∀ k : Fin n, node'.electionMod.learnerArr (k : ℕ) =
      if k = i then ⟨node.electionMod.origin n, preferred i node⟩
      else node.electionMod.learnerArr (k : ℕ) := by
    intro k
    rw [mod]
    simp only [Function.update_apply, Int.ofNat_inj, Fin.ext_iff]
  exact {
    nextView := by rw [mod]; exact electing.nextView
    nextPnum := by rw [mod]; exact electing.nextPnum
    acceptor := by rw [mod]; exact electing.acceptor
    round := by rw [mod]; exact electing.round
    accepts := by rw [mod, accepted]; exact electing.accepts
    last := by rw [mod, accepted]; exact electing.last
    fresh := by rw [mod]; exact electing.fresh
    said := by
      intro type' msg' said
      rcases (proposes.said type' msg').mp said with old | ⟨rfl, -, -⟩
      · exact (electing.said type' msg' old).grows (proposes.grows round)
      · rw [MsgOk, proposes.type]
        exact proposes.proposal electing positive round backed
    single := by
      intro first second said said' number
      rcases (proposes.said _ first).mp said with old | ⟨rfl, -, -⟩ <;>
        rcases (proposes.said _ second).mp said' with old' | ⟨rfl, -, -⟩
      · exact electing.single first second old old' number
      · have same := electing.repeated round first old (number.trans proposes.pnum)
        exact same.trans proposes.content.symm
      · have same := electing.repeated round second old' (number.symm.trans proposes.pnum)
        exact proposes.content.trans same.symm
      · rfl
    learner := by
      intro k
      rw [learner k]
      split
      next isOwn =>
        subst isOwn
        exact fun _ => vote
      next other => exact electing.learner k
    ownLearner := by
      rintro -
      rw [learner i, if_pos rfl]
      simp only
      omega
    answers := by rw [mod]; exact electing.answers
    ownRound := by rw [mod]; exact electing.ownRound
    ownPromise := by rw [mod]; exact electing.ownPromise
    resent := by rw [mod]; exact electing.resent }

end ProposesOwn

/-- The second phase: the node proposes what it prefers, and every earlier vote of it is followed
by one for the same. -/
theorem Electing.phaseTwo (electing : Electing w i net node) (env : NodeEnv)
    (nodeId : node.nodeId = (i : ℕ)) (groupSize : node.groupSize = n) (content : NodeId)
    (found : node.electionMod.proposerCheckPrepare n = some content)
    (seen : node.electionMod.acceptor.highestSeenPnum ≤ node.electionMod.origin n)
    (latest : OwnLatest n node)
    (own : ∀ b x, Vote w (node.leaderElectionProposerPhaseTwo env content) b x →
      net.vote i b x) :
    Electing w i net (node.leaderElectionProposerPhaseTwo env content) := by
  obtain ⟨positive, chosen, backed⟩ := electing.majority content found seen nodeId latest
  have round : node.electionMod.acceptor.highestSeenPnum = node.electionMod.origin n :=
    le_antisymm seen electing.round
  have set : node.electionMod.origin n ≠ -1 := by omega
  have wish : (if content = -1 then node.nodeId else content) = preferred i node := by
    rw [preferred, chosen, nodeId]
  have proposes : ProposesOwn w i node (node.leaderElectionProposerPhaseTwo env content)
      (LeleMod.buildLeleMsg env node.nodeId node.electionMod .accept
        (node.electionMod.origin n, preferred i node)) := by
    simp only [leaderElectionProposerPhaseTwo, groupSize, if_neg set, wish]
    exact {
      type := rfl
      view := electing.nextView
      nodeId := nodeId
      pnum := rfl
      content := rfl
      said := said_append node (-1) _ []
      accepted := rfl
      mod := by rw [← nodeId]; rfl }
  exact proposes.electing electing positive round backed
    (own _ _ ((proposes.votes _ _).mpr (.inr ⟨rfl, rfl⟩)))

theorem Electing.checkPrepare (electing : Electing w i net node) (env : NodeEnv)
    (nodeId : node.nodeId = (i : ℕ)) (groupSize : node.groupSize = n)
    (seen : node.electionMod.proposerCheckPrepare n ≠ none →
      node.electionMod.acceptor.highestSeenPnum ≤ node.electionMod.origin n ∧ OwnLatest n node)
    (own : ∀ b x, Vote w (node.checkPrepare env) b x → net.vote i b x) :
    Electing w i net (node.checkPrepare env) := by
  simp only [Node.checkPrepare, groupSize] at own ⊢
  cases found : node.electionMod.proposerCheckPrepare n with
  | none => exact electing
  | some content =>
    simp only [found] at own
    obtain ⟨seen, latest⟩ := seen (by simp [found])
    exact electing.phaseTwo env nodeId groupSize content found seen latest own

/-- What the component, the timers and the range of undecided requests do is of no concern. -/
theorem Electing.frame {node' : Node} (electing : Electing w i net node)
    (sent : node'.sent = node.sent) (accepted : node'.accepted = node.accepted)
    (mod : ∃ newLeader edge slientPeriod, node'.electionMod = { node.electionMod with
      newLeader := newLeader, edge := edge, slientPeriod := slientPeriod }) :
    Electing w i net node' := by
  obtain ⟨newLeader, edge, slientPeriod, mod⟩ := mod
  have grows : Grows w i node node' := by
    apply Grows.quiet sent accepted <;> rw [mod]
  have said : Said w node' = Said w node := by
    funext type msg
    simp only [Said, sent]
  exact {
    nextView := by rw [mod]; exact electing.nextView
    nextPnum := by rw [mod]; exact electing.nextPnum
    acceptor := by rw [mod]; exact electing.acceptor
    round := by rw [mod]; exact electing.round
    accepts := by rw [mod, accepted]; exact electing.accepts
    last := by rw [mod, accepted]; exact electing.last
    fresh := by rw [mod]; exact electing.fresh
    said := by
      rw [said]
      exact fun type msg before => (electing.said type msg before).grows grows
    single := by rw [said]; exact electing.single
    learner := by rw [mod]; exact electing.learner
    ownLearner := by rw [said, mod]; exact electing.ownLearner
    answers := by rw [mod]; exact electing.answers
    ownRound := by rw [mod]; exact electing.ownRound
    ownPromise := by rw [mod]; exact electing.ownPromise
    resent := by rw [mod]; exact electing.resent }

/-- The numbers of a node are `n` apart. -/
theorem Mine.next {b : Int} (mine : Mine n i b) : Mine n i (b + n) := by
  obtain ⟨round, same⟩ := mine
  refine ⟨round + 1, ?_⟩
  rw [same, Nat.cast_succ, mul_add, mul_one, add_assoc]

/-- The record of another node is not the node's own. -/
theorem update_other (nodeId : node.nodeId = (i : ℕ)) {Record : Type} (arr : NodeId → Record)
    (record : Record) (k : Fin n) (other : k ≠ i) :
    Function.update arr node.nodeId record (k : ℕ) = arr (k : ℕ) := by
  refine Function.update_of_ne ?_ _ _
  rw [nodeId]
  exact fun same => other (Fin.ext (Int.ofNat_inj.mp same))

/-- A new round for which the node makes itself a promise. -/
theorem Electing.promiseOwn {node' : Node} (electing : Electing w i net node)
    (nodeId : node.nodeId = (i : ℕ))
    (higher : node.electionMod.acceptor.highestSeenPnum < node.electionMod.nextPnum)
    (sent : node'.sent = node.sent) (accepted : node'.accepted = node.accepted)
    (mod : node'.electionMod = { node.electionMod with
      nextPnum := node.electionMod.nextPnum + n
      slientPeriod := .pending
      acceptor := { node.electionMod.acceptor with
        highestSeenPnum := node.electionMod.nextPnum }
      proposerArr := Function.update node.electionMod.proposerArr node.nodeId
        ⟨node.electionMod.nextPnum, node.electionMod.acceptor.acceptedPnum,
          node.electionMod.acceptor.content⟩ }) :
    Electing w i net node' := by
  have inGroup := i.isLt
  have bounds := electing.acceptor
  -- the ballot of the new round is the one the node has just promised
  have origin : node'.electionMod.origin n = node.electionMod.nextPnum := by
    rw [mod]
    exact Int.add_sub_cancel _ _
  have grows : Grows w i node node' := by
    apply Grows.quiet sent accepted
    · rw [mod]
      exact higher.le
    · rw [mod]
    · rw [mod]
  have said : Said w node' = Said w node := by
    funext type msg
    simp only [Said, sent]
  -- only the slot of the node itself is written
  have others : ∀ k : Fin n, k ≠ i → node'.electionMod.proposerArr (k : ℕ) =
      node.electionMod.proposerArr (k : ℕ) := by
    intro k other
    rw [mod]
    exact update_other nodeId _ _ k other
  have mine : node'.electionMod.proposerArr (i : ℕ) = ⟨node.electionMod.nextPnum,
      node.electionMod.acceptor.acceptedPnum, node.electionMod.acceptor.content⟩ := by
    rw [mod, ← nodeId]
    exact Function.update_self ..
  exact {
    nextView := by rw [mod]; exact electing.nextView
    nextPnum := by rw [mod]; exact electing.nextPnum.next
    acceptor := by rw [mod]; exact ⟨bounds.1, bounds.2.trans higher.le⟩
    round := by rw [origin, mod]
    accepts := by rw [mod, accepted]; exact electing.accepts
    last := by rw [mod, accepted]; exact electing.last
    fresh := by
      rw [mod]
      intro b _ later seen
      simp only at later seen
      omega
    said := by
      rw [said]
      exact fun type msg before => (electing.said type msg before).grows grows
    single := by rw [said]; exact electing.single
    learner := by rw [mod]; exact electing.learner
    ownLearner := by rw [said, mod]; exact electing.ownLearner
    answers := by
      intro k other
      rw [others k other, mod]
      intro answered
      obtain ⟨nothing, bounds, promised⟩ := electing.answers k other answered
      refine ⟨nothing, ⟨bounds.1, ?_⟩, promised⟩
      simp only
      omega
    ownRound := by
      rw [mine, mod]
      simp only
      omega
    ownPromise := by
      intro _
      rw [if_pos ⟨by rw [mine, origin], by rw [mine]; simp only; omega⟩, mine, mod]
      exact ⟨rfl, rfl⟩
    resent := by rw [mod]; exact electing.resent }

/-- Nobody has answered a new round yet. -/
theorem Electing.latest_of_next {node' : Node} (electing : Electing w i net node)
    (nodeId : node'.nodeId = (i : ℕ))
    (next : node'.electionMod.nextPnum = node.electionMod.nextPnum + n)
    (others : ∀ k : Fin n, k ≠ i →
      node'.electionMod.proposerArr (k : ℕ) = node.electionMod.proposerArr (k : ℕ)) :
    OwnLatest n node' := by
  rintro - k inside other ⟨round, answered⟩
  have inGroup := List.mem_range.mp inside
  have different : (⟨k, inGroup⟩ : Fin n) ≠ i := by
    rintro rfl
    exact other nodeId.symm
  rw [others ⟨k, inGroup⟩ different] at round answered
  have below := (electing.answers ⟨k, inGroup⟩ different answered).2.1.2
  rw [LeleMod.origin, next] at round
  omega

/-- A new round whose number the node has seen already. -/
theorem Electing.passRound {node' : Node} (electing : Electing w i net node)
    (seen : node.electionMod.nextPnum ≤ node.electionMod.acceptor.highestSeenPnum)
    (sent : node'.sent = node.sent) (accepted : node'.accepted = node.accepted)
    (mod : node'.electionMod = { node.electionMod with
      nextPnum := node.electionMod.nextPnum + n, slientPeriod := .pending }) :
    Electing w i net node' := by
  have origin : node'.electionMod.origin n = node.electionMod.nextPnum := by
    rw [mod]
    exact Int.add_sub_cancel _ _
  have grows : Grows w i node node' := by
    apply Grows.quiet sent accepted <;> rw [mod]
  have said : Said w node' = Said w node := by
    funext type msg
    simp only [Said, sent]
  exact {
    nextView := by rw [mod]; exact electing.nextView
    nextPnum := by rw [mod]; exact electing.nextPnum.next
    acceptor := by rw [mod]; exact electing.acceptor
    round := by rw [origin, mod]; exact seen
    accepts := by rw [mod, accepted]; exact electing.accepts
    last := by rw [mod, accepted]; exact electing.last
    fresh := by
      rw [mod]
      intro b mine later highest
      refine electing.fresh b mine ?_ highest
      simp only at later
      omega
    said := by
      rw [said]
      exact fun type msg before => (electing.said type msg before).grows grows
    single := by rw [said]; exact electing.single
    learner := by rw [mod]; exact electing.learner
    ownLearner := by rw [said, mod]; exact electing.ownLearner
    answers := by
      rw [mod]
      intro k other answered
      obtain ⟨nothing, bounds, promised⟩ := electing.answers k other answered
      refine ⟨nothing, ⟨bounds.1, ?_⟩, promised⟩
      simp only
      omega
    ownRound := by
      rw [mod]
      intro answered
      obtain ⟨positive, below⟩ := electing.ownRound answered
      refine ⟨positive, ?_⟩
      simp only
      omega
    ownPromise := by
      intro highest
      -- the own promise is under an older number, so it does not count in the new round
      have notAnswered : ¬ node'.electionMod.Answered n (i : ℕ) := by
        rintro ⟨round, answered⟩
        rw [origin, mod] at round
        rw [mod] at answered
        have below := (electing.ownRound answered).2
        simp only at round
        omega
      rw [if_neg notAnswered, mod]
      rw [origin, mod] at highest
      exact electing.fresh _ electing.nextPnum le_rfl highest
    resent := by rw [mod]; exact electing.resent }

theorem Electing.leaderElectionPropose (electing : Electing w i net node) (env : NodeEnv)
    (nodeId : node.nodeId = (i : ℕ)) (groupSize : node.groupSize = n)
    (own : ∀ b x, Vote w (node.leaderElectionPropose env) b x → net.vote i b x) :
    Electing w i net (node.leaderElectionPropose env) := by
  have said : Electing w i net (node.sendToOtherNodes (.leaderElection
      (node.electionMod.buildLeleMsg env node.nodeId .prepare (0, 0)) [])) := by
    refine electing.send _ _ [] LeleType.noConfusion fun _ => ?_
    exact ⟨rfl, electing.nextPnum⟩
  simp only [Node.leaderElectionPropose, groupSize] at own ⊢
  split
  next higher =>
    rw [if_pos higher] at own
    refine Electing.checkPrepare ?_ env nodeId groupSize ?_ own
    · exact said.promiseOwn nodeId higher rfl rfl rfl
    · intro _
      refine ⟨by simp only [acceptorUpdateRecord, withMod, LeleMod.origin]; omega, ?_⟩
      exact electing.latest_of_next nodeId rfl fun k other => update_other nodeId _ _ k other
  next seen => exact said.passRound (not_lt.mp seen) rfl rfl rfl

/-! ## Promising -/

/-- A node that has not voted sees the number of another node. -/
theorem Electing.promise {node' : Node} (electing : Electing w i net node)
    (nodeId : node.nodeId = (i : ℕ)) (unvoted : Unvoted node) (b : Int) (k : Fin n)
    (other : k ≠ i) (theirs : Mine n k b)
    (higher : node.electionMod.acceptor.highestSeenPnum < b)
    (sent : node'.sent = node.sent) (accepted : node'.accepted = node.accepted)
    (mod : node'.electionMod = { node.electionMod with
      acceptor := { node.electionMod.acceptor with highestSeenPnum := b, content := -1 } }) :
    Electing w i net node' ∧ ∀ b x, ¬ Vote w node' b x := by
  obtain ⟨content, silent⟩ := unvoted
  have bounds := electing.acceptor
  have grows : Grows w i node node' := by
    apply Grows.quiet sent accepted
    · rw [mod]
      exact higher.le
    · rw [mod]
    · rw [mod]
      exact content.symm
  have said : Said w node' = Said w node := by
    funext type msg
    simp only [Said, sent]
  have nobody : ∀ b x, (w, b, x) ∉ node'.accepted := by
    intro b x member
    rw [accepted] at member
    rcases electing.last with ⟨-, nobody⟩ | ⟨voted, -⟩
    · exact nobody b x member
    · exact voted content
  have noProposal : ∀ msg, ¬ Said w node' .accept msg := by
    intro msg proposal
    rw [said] at proposal
    refine electing.ownLearner ⟨msg, proposal⟩ ?_
    rw [← nodeId]
    exact silent
  refine ⟨?_, ?_⟩
  · exact {
      nextView := by rw [mod]; exact electing.nextView
      nextPnum := by rw [mod]; exact electing.nextPnum
      acceptor := by
        rw [mod]
        exact ⟨bounds.1, bounds.2.trans higher.le⟩
      round := by
        rw [mod]
        exact electing.round.trans higher.le
      accepts := fun b x member => absurd member (nobody b x)
      last := .inl ⟨by rw [mod], nobody⟩
      fresh := by rw [mod]; exact fun _ _ _ _ => rfl
      said := by
        rw [said]
        exact fun type msg before => (electing.said type msg before).grows grows
      single := by rw [said]; exact electing.single
      learner := by rw [mod]; exact electing.learner
      ownLearner := by
        rintro ⟨msg, proposal⟩
        exact absurd proposal (noProposal msg)
      answers := by rw [mod]; exact electing.answers
      ownRound := by rw [mod]; exact electing.ownRound
      ownPromise := by
        intro round
        -- the round of the node's own has another number
        exfalso
        have origin : node.electionMod.origin n = b := by
          rw [mod] at round
          exact round.symm
        refine other (theirs.unique ?_)
        rw [← origin]
        exact electing.origin_mine (by omega)
      resent := by rw [mod]; exact electing.resent }
  · rintro b x (member | ⟨msg, proposal, -⟩)
    · exact nobody b x member
    · exact noProposal msg proposal

theorem Electing.handlePrepare (electing : Electing w i net node) (env : NodeEnv)
    (nodeId : node.nodeId = (i : ℕ)) (msg : LeleMsg) (type : msg.type = .prepare)
    (keeps : KeepsVotes node msg) (k : Fin n) (other : k ≠ i) (theirs : Mine n k msg.pnum)
    (nothing : msg.content = -1) : Electing w i net (node.handlePrepare env msg) := by
  simp only [Node.handlePrepare]
  have waits : Electing w i net (node.withMod (if msg.nodeId < node.nodeId then
      { node.electionMod with slientPeriod := .pending } else node.electionMod)) := by
    split
    next => exact electing.frame rfl rfl ⟨_, _, _, rfl⟩
    next => exact electing
  have same : (if msg.nodeId < node.nodeId then { node.electionMod with slientPeriod := .pending }
      else node.electionMod).acceptor = node.electionMod.acceptor ∧
      (if msg.nodeId < node.nodeId then { node.electionMod with slientPeriod := .pending }
      else node.electionMod).learnerArr = node.electionMod.learnerArr := by
    split <;> exact ⟨rfl, rfl⟩
  generalize (if msg.nodeId < node.nodeId then { node.electionMod with slientPeriod := .pending }
    else node.electionMod) = mod at waits same
  obtain ⟨acceptor, learner⟩ := same
  split
  next higher =>
    rw [acceptor] at higher
    have unvoted : Unvoted (node.withMod mod) := by
      have before := keeps.1 type higher
      rwa [Unvoted, ← acceptor, ← learner] at before
    have promised : Electing w i net ((node.withMod { mod with
        acceptor := { mod.acceptor with highestSeenPnum := msg.pnum, content := msg.content }
        }).acceptorUpdateRecord) ∧ ∀ b x, ¬ Vote w ((node.withMod { mod with
        acceptor := { mod.acceptor with highestSeenPnum := msg.pnum, content := msg.content }
        }).acceptorUpdateRecord) b x := by
      refine waits.promise nodeId unvoted msg.pnum k other theirs ?_ rfl rfl ?_
      · rw [withMod, acceptor]
        exact higher
      · rw [nothing]
        rfl
    obtain ⟨promised, none⟩ := promised
    refine promised.send _ _ [] LeleType.noConfusion fun _ => ?_
    have bounds := electing.acceptor
    exact {
      nodeId := nodeId
      nothing := nothing
      positive := bounds.1.trans_lt (bounds.2.trans_lt higher)
      seen := le_rfl
      before := fun b x vote => absurd vote (none b x) }
  next lower => exact waits

/-- The answer of a node that has not voted is entered. -/
theorem Electing.enterAnswer {node' : Node} (electing : Electing w i net node) (k : Fin n)
    (other : k ≠ i) (pnum : Int) (positive : 0 < node.electionMod.origin n)
    (promised : net.promised k (node.electionMod.origin n))
    (sent : node'.sent = node.sent) (accepted : node'.accepted = node.accepted)
    (mod : node'.electionMod = { node.electionMod with
      proposerArr := Function.update node.electionMod.proposerArr (k : ℕ)
        ⟨node.electionMod.origin n, pnum, -1⟩ }) :
    Electing w i net node' := by
  have grows : Grows w i node node' := by
    apply Grows.quiet sent accepted <;> rw [mod]
  have said : Said w node' = Said w node := by
    funext type msg
    simp only [Said, sent]
  have entry : node'.electionMod.proposerArr (k : ℕ) =
      ⟨node.electionMod.origin n, pnum, -1⟩ := by
    rw [mod]
    exact Function.update_self ..
  have others : ∀ k' : Fin n, k' ≠ k →
      node'.electionMod.proposerArr (k' : ℕ) = node.electionMod.proposerArr (k' : ℕ) := by
    intro k' different
    rw [mod]
    refine Function.update_of_ne ?_ _ _
    exact fun same => different (Fin.ext (Int.ofNat_inj.mp same))
  have own := others i other.symm
  -- only the entry of the sender changes, which is not the node's own
  have unchanged : node'.electionMod.Answered n (i : ℕ) ↔
      node.electionMod.Answered n (i : ℕ) := by
    rw [LeleMod.Answered, LeleMod.Answered, own, mod]
    rfl
  exact {
    nextView := by rw [mod]; exact electing.nextView
    nextPnum := by rw [mod]; exact electing.nextPnum
    acceptor := by rw [mod]; exact electing.acceptor
    round := by rw [mod]; exact electing.round
    accepts := by rw [mod, accepted]; exact electing.accepts
    last := by rw [mod, accepted]; exact electing.last
    fresh := by rw [mod]; exact electing.fresh
    said := by
      rw [said]
      exact fun type msg before => (electing.said type msg before).grows grows
    single := by rw [said]; exact electing.single
    learner := by rw [mod]; exact electing.learner
    ownLearner := by rw [said, mod]; exact electing.ownLearner
    answers := by
      intro k' other'
      by_cases same : k' = k
      · rw [same, entry, mod]
        refine fun _ => ⟨rfl, ⟨positive, ?_⟩, promised⟩
        have inGroup := i.isLt
        simp only [LeleMod.origin]
        omega
      · rw [others k' same, mod]
        exact electing.answers k' other'
    ownRound := by
      rw [own, mod]
      exact electing.ownRound
    ownPromise := by
      simp only [unchanged, own]
      rw [mod]
      exact electing.ownPromise
    resent := by rw [mod]; exact electing.resent }

theorem Electing.leaderElectionProposerDo (electing : Electing w i net node) (env : NodeEnv)
    (nodeId : node.nodeId = (i : ℕ)) (groupSize : node.groupSize = n) (msg : LeleMsg)
    (keeps : KeepsVotes node msg)
    (answer : msg.type = .prepareAck → ∃ k : Fin n, k ≠ i ∧ msg.nodeId = (k : ℕ) ∧
      msg.content = -1 ∧ 0 < msg.pPnum ∧ net.promised k msg.pPnum)
    (own : ∀ b x, Vote w (node.leaderElectionProposerDo env msg) b x → net.vote i b x) :
    Electing w i net (node.leaderElectionProposerDo env msg) := by
  simp only [Node.leaderElectionProposerDo] at own ⊢
  split
  next => exact electing.frame rfl rfl ⟨_, _, _, rfl⟩
  next isAck =>
    rw [if_neg isAck] at own
    split
    next current =>
      rw [if_pos current] at own
      split
      next inGroup =>
        rw [if_pos inGroup] at own
        have type := not_not.mp isAck
        obtain ⟨k, other, sender, nothing, positive, promised⟩ := answer type
        refine Electing.checkPrepare ?_ env nodeId groupSize ?_ own
        · rw [current.1, groupSize] at positive promised
          refine electing.enterAnswer k other msg.pnum positive promised rfl rfl ?_
          rw [nothing, sender, groupSize]
          rfl
        · rw [← groupSize]
          exact keeps.2 type current.1
      next outside => exact electing.frame rfl rfl ⟨_, _, _, rfl⟩
    next => exact electing

/-! ## Deciding -/

theorem Electing.fail (electing : Electing w i net node) (fault : Fault) :
    Electing w i net (node.fail fault) :=
  electing.frame rfl rfl ⟨_, _, _, rfl⟩

theorem Electing.leaderElectionCalEdge (electing : Electing w i net node) (env : NodeEnv) :
    Electing w i net (node.leaderElectionCalEdge env) := by
  simp only [Node.leaderElectionCalEdge]
  -- the acknowledgement is kept, and sent as it is kept
  have replies : ∀ (ack : LeleMsg) (data : List UInt32), ack.type = .announceAck →
      Electing w i net ((node.withMod { node.electionMod with
        announceAckMsg := some (.leaderElection ack data), slientPeriod := .pending }).sendToOneNode
          node.electionMod.newLeader (.leaderElection ack data)) := by
    intro ack data type
    have kept : Electing w i net (node.withMod { node.electionMod with
        announceAckMsg := some (.leaderElection ack data), slientPeriod := .pending }) :=
      { electing with
        said := by
          intro type' msg said
          refine (electing.said type' msg said).grows ?_
          apply Grows.quiet <;> rfl
        resent := by
          rintro msg ⟨⟩
          exact ⟨ack, data, rfl, type⟩ }
    refine kept.send _ ack data (by rw [type]; exact LeleType.noConfusion) fun _ => ?_
    rw [MsgOk, type]
    trivial
  split
  next seen =>
    split
    next huge => exact electing.fail _
    next sized =>
      split
      next fault _ => exact electing.fail fault
      next => exact replies _ _ rfl
  next nothing => exact replies _ _ rfl

theorem Electing.leaderElectionHandleAnnounce (electing : Electing w i net node) (env : NodeEnv)
    (msg : LeleMsg) : Electing w i net (node.leaderElectionHandleAnnounce env msg) := by
  have post : Electing w i net { node with
      state := .postLele
      electionMod := { node.electionMod with newLeader := msg.content } } :=
    electing.frame rfl rfl ⟨_, _, _, rfl⟩
  simp only [Node.leaderElectionHandleAnnounce]
  split
  next own =>
    simp only [leaderElectionInitializeEdgeMod]
    split
    next fault _ =>
      refine Electing.fail ?_ fault
      exact post.frame rfl rfl ⟨_, _, _, rfl⟩
    next => exact post.frame rfl rfl ⟨_, _, _, rfl⟩
  next other => exact post.leaderElectionCalEdge env

/-- A vote is entered by the learner. -/
theorem Electing.enterVote {node' : Node} (electing : Electing w i net node) (k : Fin n)
    (b : Int) (x : NodeId) (positive : 0 < b) (vote : net.vote k b x)
    (sent : node'.sent = node.sent) (accepted : node'.accepted = node.accepted)
    (mod : node'.electionMod = { node.electionMod with
      learnerArr := Function.update node.electionMod.learnerArr (k : ℕ) ⟨b, x⟩ }) :
    Electing w i net node' := by
  have grows : Grows w i node node' := by
    apply Grows.quiet sent accepted <;> rw [mod]
  have said : Said w node' = Said w node := by
    funext type msg
    simp only [Said, sent]
  have entry : node'.electionMod.learnerArr (k : ℕ) = ⟨b, x⟩ := by
    rw [mod]
    exact Function.update_self ..
  have others : ∀ k' : Fin n, k' ≠ k →
      node'.electionMod.learnerArr (k' : ℕ) = node.electionMod.learnerArr (k' : ℕ) := by
    intro k' different
    rw [mod]
    refine Function.update_of_ne ?_ _ _
    exact fun same => different (Fin.ext (Int.ofNat_inj.mp same))
  exact {
    nextView := by rw [mod]; exact electing.nextView
    nextPnum := by rw [mod]; exact electing.nextPnum
    acceptor := by rw [mod]; exact electing.acceptor
    round := by rw [mod]; exact electing.round
    accepts := by rw [mod, accepted]; exact electing.accepts
    last := by rw [mod, accepted]; exact electing.last
    fresh := by rw [mod]; exact electing.fresh
    said := by
      rw [said]
      exact fun type msg before => (electing.said type msg before).grows grows
    single := by rw [said]; exact electing.single
    learner := by
      intro k'
      by_cases same : k' = k
      · rw [same, entry]
        exact fun _ => vote
      · rw [others k' same]
        exact electing.learner k'
    ownLearner := by
      rw [said]
      intro proposed
      by_cases same : i = k
      · rw [same, entry]
        simp only
        omega
      · rw [others i same]
        exact electing.ownLearner proposed
    answers := by rw [mod]; exact electing.answers
    ownRound := by rw [mod]; exact electing.ownRound
    ownPromise := by rw [mod]; exact electing.ownPromise
    resent := by rw [mod]; exact electing.resent }

/-- A learner that finds a majority announces the content of one of its votes. -/
theorem Electing.decided (electing : Electing w i net node) (entry : AcceptedRecord)
    (found : node.electionMod.learnerCheckAccept n = some entry) :
    Decided net entry.pnum entry.content := by
  obtain ⟨set, ⟨k, same⟩, majority⟩ := LeleMod.learnerCheckAccept_majority n _ entry found
  refine ⟨⟨_, majority, ?_⟩, k, ?_⟩
  · intro k' member
    have number := (Finset.mem_filter.mp member).2
    refine ⟨(node.electionMod.learnerArr (k' : ℕ)).content, ?_⟩
    rw [← number]
    exact electing.learner k' (by rwa [number])
  · rw [← same]
    exact electing.learner k (by rwa [same])

theorem Electing.leaderElectionLearnerDo (electing : Electing w i net node) (env : NodeEnv)
    (groupSize : node.groupSize = n) (msg : LeleMsg) (k : Fin n)
    (sender : msg.nodeId = (k : ℕ)) (positive : 0 < msg.pnum)
    (vote : net.vote k msg.pnum msg.content) :
    Electing w i net (node.leaderElectionLearnerDo env msg) := by
  simp only [Node.leaderElectionLearnerDo]
  split
  next inGroup =>
    split
    next newer =>
      have entered : Electing w i net (node.withMod { node.electionMod with
          learnerArr := Function.update node.electionMod.learnerArr msg.nodeId
            ⟨msg.pnum, msg.content⟩ }) :=
        electing.enterVote k msg.pnum msg.content positive vote rfl rfl (by rw [sender]; rfl)
      split
      next undecided => exact entered
      next decided found =>
        replace found : LeleMod.learnerCheckAccept node.groupSize _ = some decided := found
        rw [groupSize] at found
        have majority := entered.decided decided found
        refine Electing.leaderElectionHandleAnnounce ?_ env _
        refine entered.send _ _ [] LeleType.noConfusion fun _ => ?_
        exact majority
    next older => exact electing
  next outside => exact electing.fail _

/-! ## Accepting -/

/-- A node accepts the proposal of another node. -/
theorem Electing.accept {node' : Node} (electing : Electing w i net node) (b : Int) (x : NodeId)
    (k : Fin n) (other : k ≠ i) (theirs : Mine n k b) (positive : 0 < b) (real : x ≠ -1)
    (proposed : net.proposed b x)
    (seen : node.electionMod.acceptor.highestSeenPnum ≤ b)
    (sent : node'.sent = node.sent) (accepted : node'.accepted = node.accepted ++ [(w, b, x)])
    (mod : node'.electionMod = { node.electionMod with acceptor := ⟨b, b, x⟩ }) :
    Electing w i net node' := by
  have bounds := electing.acceptor
  -- a ballot has one owner, so the accepted one is not the node's own
  have notMine : ¬ Mine n i b := fun mine => other (theirs.unique mine)
  have said : Said w node' = Said w node := by
    funext type msg
    simp only [Said, sent]
  have member : ∀ b' y, (w, b', y) ∈ node'.accepted ↔
      (w, b', y) ∈ node.accepted ∨ (b' = b ∧ y = x) := by
    intro b' y
    rw [accepted]
    simp
  -- everything said before stays true, as the record only grows
  have grows : Grows w i node node' := {
    seen := by rw [mod]; exact seen
    accepted := by rw [accepted]; exact List.subset_append_left _ _
    votes := by
      rintro b' y (old | proposal)
      · exact .inl ((member b' y).mpr (.inl old))
      · rw [← said] at proposal
        exact .inr proposal
    casts := by
      rintro b' y (new | proposal)
      · rcases (member b' y).mp new with old | ⟨rfl, -⟩
        · exact .inl (.inl old)
        · exact .inr seen
      · rw [said] at proposal
        exact .inl (.inr proposal)
    current := by
      intro b' y mine below _
      have earlier : b' ≠ b := by
        rintro rfl
        exact notMine mine
      rw [Current, mod]
      exact .inl ⟨real, lt_of_le_of_ne (below.trans seen) earlier⟩ }
  exact {
    nextView := by rw [mod]; exact electing.nextView
    nextPnum := by rw [mod]; exact electing.nextPnum
    acceptor := by rw [mod]; exact ⟨positive.le, le_rfl⟩
    round := by rw [mod]; exact electing.round.trans seen
    accepts := by
      intro b' y accepts
      rw [mod]
      rcases (member b' y).mp accepts with old | ⟨rfl, rfl⟩
      · obtain ⟨positive', below, others, proposed'⟩ := electing.accepts b' y old
        exact ⟨positive', (below.trans bounds.2).trans seen, others, proposed'⟩
      · exact ⟨positive, le_rfl, notMine, proposed⟩
    last := by
      rw [mod]
      exact .inr ⟨real, (member b x).mpr (.inr ⟨rfl, rfl⟩)⟩
    fresh := by
      rw [mod]
      rintro b' mine - same
      refine absurd ?_ notMine
      rwa [← same] at mine
    said := by
      rw [said]
      exact fun type msg before => (electing.said type msg before).grows grows
    single := by rw [said]; exact electing.single
    learner := by rw [mod]; exact electing.learner
    ownLearner := by rw [said, mod]; exact electing.ownLearner
    answers := by rw [mod]; exact electing.answers
    ownRound := by rw [mod]; exact electing.ownRound
    ownPromise := by
      intro round
      -- the node's own round would make the ballot its own
      exfalso
      have origin : node.electionMod.origin n = b := by
        rw [mod] at round
        exact round.symm
      refine notMine ?_
      rw [← origin]
      exact electing.origin_mine (by omega)
    resent := by rw [mod]; exact electing.resent }

/-- The acknowledgement of what was just accepted goes to the node's own learner first. -/
theorem Electing.acknowledge (electing : Electing w i net node) (env : NodeEnv)
    (nodeId : node.nodeId = (i : ℕ)) (groupSize : node.groupSize = n) (b : Int) (x : NodeId)
    (positive : 0 < b) (acceptor : node.electionMod.acceptor = ⟨b, b, x⟩)
    (member : (w, b, x) ∈ node.accepted)
    (own : let ack := node.electionMod.buildLeleMsg env node.nodeId .acceptAck (0, 0)
      ∀ b x, Vote w ((node.leaderElectionLearnerDo env ack).andThen fun node =>
        node.sendToOtherNodes (.leaderElection ack [])) b x → net.vote i b x) :
    let ack := node.electionMod.buildLeleMsg env node.nodeId .acceptAck (0, 0)
    Electing w i net ((node.leaderElectionLearnerDo env ack).andThen fun node =>
      node.sendToOtherNodes (.leaderElection ack [])) := by
  intro ack
  have content : ack.nodeId = (i : ℕ) ∧ ack.pnum = b ∧ ack.content = x := by
    refine ⟨nodeId, ?_, ?_⟩
    · exact congrArg AcceptorRecord.acceptedPnum acceptor
    · exact congrArg AcceptorRecord.content acceptor
  obtain ⟨sender, pnum, content⟩ := content
  have type : ack.type = .acceptAck := rfl
  simp only at own
  change ∀ b x, Vote w ((node.leaderElectionLearnerDo env ack).andThen fun node =>
    node.sendToOtherNodes (.leaderElection ack [])) b x → net.vote i b x at own
  clear_value ack
  have learns := elects_leaderElectionLearnerDo env node ack
  have vote : net.vote i b x := by
    refine own b x (.inl ?_)
    exact (learns.andThen fun _ => elects_sendToOtherNodes _ _).logs.2 member
  rw [← pnum] at positive
  have learned := electing.leaderElectionLearnerDo env groupSize ack i sender positive
    (by rwa [pnum, content])
  by_cases running : (node.leaderElectionLearnerDo env ack).comp.fault = none
  · rw [andThen_of_running _ _ running]
    refine learned.send _ ack [] (by rw [type]; exact LeleType.noConfusion) fun _ => ?_
    rw [MsgOk, type, pnum, content]
    exact ⟨sender, learns.logs.2 member⟩
  · rwa [andThen_of_fault _ _ running]

theorem Electing.handleAccept (electing : Electing w i net node) (env : NodeEnv)
    (nodeId : node.nodeId = (i : ℕ)) (groupSize : node.groupSize = n) (msg : LeleMsg)
    (k : Fin n) (other : k ≠ i) (theirs : Mine n k msg.pnum) (positive : 0 < msg.pnum)
    (real : msg.content ≠ -1) (proposed : net.proposed msg.pnum msg.content)
    (own : ∀ b x, Vote w (node.handleAccept env msg) b x → net.vote i b x) :
    Electing w i net (node.handleAccept env msg) := by
  simp only [Node.handleAccept] at own ⊢
  split
  next seen =>
    rw [if_pos seen] at own
    refine Electing.acknowledge ?_ env nodeId groupSize msg.pnum msg.content positive rfl ?_ own
    · refine electing.accept msg.pnum msg.content k other theirs positive real proposed seen rfl
        ?_ rfl
      rw [electing.nextView]
      rfl
    · rw [electing.nextView]
      exact List.mem_append_right _ (List.mem_singleton_self _)
  next refuses => exact electing

end Electing

end Node

end LibeventPaxos
