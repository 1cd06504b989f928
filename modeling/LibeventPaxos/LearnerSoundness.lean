import LibeventPaxos.NodeVotes
import LibeventPaxos.ElectionAgreement

/-!
What a learner decides on, a majority of the acceptors has accepted, as long as no node that has
only proposed completes the majority itself, and votes with one number are for one content.
-/
namespace LibeventPaxos

open Lib

namespace Voting

variable {n : ℕ} {i : Fin n}

/-- The other nodes whose entries carry a number. -/
def othersWith (i : Fin n) (v : Voting) (pnum : Int) : Finset (Fin n) :=
  Finset.univ.filter fun k => k ≠ i ∧ (v.mod.learnerArr ((k : ℕ) : Int)).pnum = pnum

/-- What node `i` itself has entered, its own acceptor has accepted. -/
def OwnAccepted (i : Fin n) (v : Voting) : Prop :=
  (v.mod.nextView, (v.mod.learnerArr ((i : ℕ) : Int)).pnum,
    (v.mod.learnerArr ((i : ℕ) : Int)).content) ∈ v.accepted

/-- An array that is checked: the entry of the node itself does not complete a majority unless its
own acceptor has accepted it, and entries with one number have one content. -/
structure Countable (i : Fin n) (v : Voting) : Prop where
  own : (v.mod.learnerArr ((i : ℕ) : Int)).pnum ≠ -1 → ¬ v.OwnAccepted i →
    (v.othersWith i (v.mod.learnerArr ((i : ℕ) : Int)).pnum).card ≠ n / 2
  content : ∀ j k : Fin n, (v.mod.learnerArr ((j : ℕ) : Int)).pnum ≠ -1 →
    (v.mod.learnerArr ((j : ℕ) : Int)).pnum = (v.mod.learnerArr ((k : ℕ) : Int)).pnum →
    (v.mod.learnerArr ((j : ℕ) : Int)).content = (v.mod.learnerArr ((k : ℕ) : Int)).content

instance (v : Voting) : Decidable (v.OwnAccepted i) := inferInstanceAs (Decidable (_ ∈ v.accepted))

instance (v : Voting) : Decidable (v.Countable i) :=
  decidable_of_iff (((v.mod.learnerArr ((i : ℕ) : Int)).pnum ≠ -1 → ¬ v.OwnAccepted i →
      (v.othersWith i (v.mod.learnerArr ((i : ℕ) : Int)).pnum).card ≠ n / 2) ∧
    ∀ j k : Fin n, (v.mod.learnerArr ((j : ℕ) : Int)).pnum ≠ -1 →
      (v.mod.learnerArr ((j : ℕ) : Int)).pnum = (v.mod.learnerArr ((k : ℕ) : Int)).pnum →
      (v.mod.learnerArr ((j : ℕ) : Int)).content = (v.mod.learnerArr ((k : ℕ) : Int)).content)
    ⟨fun ⟨own, content⟩ => ⟨own, content⟩, fun countable => ⟨countable.own, countable.content⟩⟩

/-- The acceptances of the group, with those of node `i` as they are in `v`. -/
def Accepted (i : Fin n) (others : Fin n → Proposal → Prop) (v : Voting) (k : Fin n)
    (proposal : Proposal) : Prop :=
  if k = i then proposal ∈ v.accepted else others k proposal

/-- Node `i` acknowledges what it has accepted, its learner knows of the others what they have
accepted, and what it announces a majority has accepted. -/
structure Learned (i : Fin n) (others : Fin n → Proposal → Prop) (v : Voting) : Prop where
  acks : ∀ msg ∈ v.said, msg.type = .acceptAck →
    msg.nodeId = (i : ℕ) ∧ (msg.nextView, msg.pnum, msg.content) ∈ v.accepted
  learner : v.begun = true → ∀ k : Fin n, k ≠ i →
    (v.mod.learnerArr ((k : ℕ) : Int)).pnum ≠ -1 →
    others k (v.mod.nextView, (v.mod.learnerArr ((k : ℕ) : Int)).pnum,
      (v.mod.learnerArr ((k : ℕ) : Int)).content)
  announced : ∀ msg ∈ v.said, msg.type = .announce → ∃ voters : Finset (Fin n), Majority voters ∧
    ∀ k ∈ voters, Accepted i others v k (msg.nextView, msg.pnum, msg.content)

theorem Accepted.mono {others others' : Fin n → Proposal → Prop} {v v' : Voting} {k : Fin n}
    {proposal : Proposal} (accepted : Accepted i others v k proposal)
    (kept : v.accepted ⊆ v'.accepted)
    (grow : ∀ k proposal, others k proposal → others' k proposal) :
    Accepted i others' v' k proposal := by
  simp only [Accepted] at accepted ⊢
  split
  next own =>
    rw [if_pos own] at accepted
    exact kept accepted
  next other =>
    rw [if_neg other] at accepted
    exact grow k proposal accepted

section Steps

variable {others : Fin n → Proposal → Prop} {v v' : Voting}

theorem Learned.mono {others' : Fin n → Proposal → Prop} (learned : Learned i others v)
    (grow : ∀ k proposal, others k proposal → others' k proposal) : Learned i others' v where
  acks := learned.acks
  learner begun k other set := grow k _ (learned.learner begun k other set)
  announced := by
    intro msg member isAnnounce
    obtain ⟨voters, majority, accepted⟩ := learned.announced msg member isAnnounce
    exact ⟨voters, majority, fun k voted => (accepted k voted).mono (fun _ => id) grow⟩

/-- Nothing is acknowledged or announced, and no entry of another node changes. -/
theorem Learned.frame (learned : Learned i others v) (accepted : v.accepted ⊆ v'.accepted)
    (said : ∀ msg ∈ v'.said, msg.type = .acceptAck ∨ msg.type = .announce → msg ∈ v.said)
    (learner : ∀ k : Fin n, k ≠ i → (v'.mod.learnerArr ((k : ℕ) : Int)).pnum = -1 ∨
      (v'.begun = v.begun ∧ v'.mod.nextView = v.mod.nextView ∧
        v'.mod.learnerArr ((k : ℕ) : Int) = v.mod.learnerArr ((k : ℕ) : Int))) :
    Learned i others v' where
  acks msg member isAck := by
    obtain ⟨nodeId, own⟩ := learned.acks msg (said msg member (.inl isAck)) isAck
    exact ⟨nodeId, accepted own⟩
  learner begun k other set := by
    rcases learner k other with unset | ⟨same, view, entry⟩
    · exact absurd unset set
    · rw [view, entry]
      rw [entry] at set
      exact learned.learner (same.symm.trans begun) k other set
  announced msg member isAnnounce := by
    obtain ⟨voters, majority, votes⟩ :=
      learned.announced msg (said msg member (.inr isAnnounce)) isAnnounce
    exact ⟨voters, majority, fun k voted => (votes k voted).mono accepted fun _ _ => id⟩

/-- A message that neither acknowledges nor announces is sent. -/
theorem Learned.say {msg : LeleMsg} (learned : Learned i others v)
    (other : msg.type ≠ .acceptAck ∧ msg.type ≠ .announce) : Learned i others (v.say msg) := by
  refine learned.frame (fun _ => id) ?_ fun k _ => .inr ⟨rfl, rfl, rfl⟩
  intro msg' member isLearned
  rcases mem_say member with old | rfl
  · exact old
  · rcases isLearned with isAck | isAnnounce
    · exact absurd isAck other.1
    · exact absurd isAnnounce other.2

private theorem learnerArr_other {k : Fin n} {arr : NodeId → AcceptedRecord}
    {entry : AcceptedRecord} (other : k ≠ i) :
    Function.update arr ((i : ℕ) : Int) entry ((k : ℕ) : Int) = arr ((k : ℕ) : Int) := by
  refine Function.update_of_ne (fun same => other (Fin.ext ?_)) _ _
  exact Int.ofNat_inj.mp same

/-- The node enters a proposal of its own. -/
theorem Learned.learnOwn (learned : Learned i others v) (pnum : Int) (content : NodeId) :
    Learned i others (v.learn (i : ℕ) pnum content) :=
  learned.frame (fun _ => id) (fun _ member _ => member)
    fun _ other => .inr ⟨rfl, rfl, learnerArr_other other⟩

/-- The entries with the number that is decided, without an entry of the node itself that its
acceptor has not accepted. -/
def voters (i : Fin n) (v : Voting) (pnum : Int) : Finset (Fin n) :=
  Finset.univ.filter fun k =>
    (v.mod.learnerArr ((k : ℕ) : Int)).pnum = pnum ∧ (k = i → v.OwnAccepted i)

/-- They are a majority, if the own entry did not complete it. -/
theorem Countable.majority_voters (countable : v.Countable i) (entry : AcceptedRecord)
    (found : v.mod.learnerCheckAccept n = some entry) : Majority (v.voters i entry.pnum) := by
  obtain ⟨set, -, majority⟩ := LeleMod.learnerCheckAccept_majority n v.mod entry found
  rw [Majority, Fintype.card_fin] at majority ⊢
  by_cases counts : (v.mod.learnerArr ((i : ℕ) : Int)).pnum = entry.pnum → v.OwnAccepted i
  · -- every entry with the number counts
    refine majority.trans (Finset.card_le_card fun k member => ?_)
    have same := (Finset.mem_filter.mp member).2
    refine Finset.mem_filter.mpr ⟨Finset.mem_univ k, same, ?_⟩
    rintro rfl
    exact counts same
  · obtain ⟨same, unaccepted⟩ := Classical.not_imp.mp counts
    -- all but the node itself, which are more than it needs
    have others := countable.own (by rw [same]; exact set) unaccepted
    rw [same] at others
    have split : Finset.univ.filter (fun k : Fin n =>
        (v.mod.learnerArr ((k : ℕ) : Int)).pnum = entry.pnum) ⊆
        insert i (v.othersWith i entry.pnum) := by
      intro k member
      have carries := (Finset.mem_filter.mp member).2
      by_cases own : k = i
      · exact own ▸ Finset.mem_insert_self ..
      · exact Finset.mem_insert_of_mem
          (Finset.mem_filter.mpr ⟨Finset.mem_univ k, own, carries⟩)
    have enough : n / 2 + 1 ≤ (v.othersWith i entry.pnum).card + 1 :=
      majority.trans ((Finset.card_le_card split).trans (Finset.card_insert_le ..))
    have more : n / 2 + 1 ≤ (v.othersWith i entry.pnum).card := by omega
    refine more.trans (Finset.card_le_card fun k member => ?_)
    obtain ⟨other, carries⟩ := (Finset.mem_filter.mp member).2
    exact Finset.mem_filter.mpr ⟨Finset.mem_univ k, carries, fun own => absurd own other⟩

/-- A majority of entries stands for a majority of acceptances. -/
theorem Learned.majority (learned : Learned i others v) (begun : v.begun = true)
    (countable : v.Countable i) (entry : AcceptedRecord)
    (found : v.mod.learnerCheckAccept n = some entry) :
    ∃ voters : Finset (Fin n), Majority voters ∧
      ∀ k ∈ voters, Accepted i others v k (v.mod.nextView, entry.pnum, entry.content) := by
  obtain ⟨set, ⟨first, isEntry⟩, -⟩ := LeleMod.learnerCheckAccept_majority n v.mod entry found
  refine ⟨v.voters i entry.pnum, countable.majority_voters entry found, fun k member => ?_⟩
  obtain ⟨same, own⟩ := (Finset.mem_filter.mp member).2
  have content : (v.mod.learnerArr ((k : ℕ) : Int)).content = entry.content := by
    rw [← isEntry] at same ⊢
    refine countable.content k first ?_ same
    rw [same, isEntry]
    exact set
  rw [← content, ← same]
  simp only [Accepted]
  split
  next isOwn =>
    subst isOwn
    exact own rfl
  next other => exact learned.learner begun k other (by rw [same]; exact set)

/-- Every atomic step keeps what the learner knows. -/
theorem Learned.step {heard : LeleMsg → Prop} {checks : Voting → Prop}
    (learned : Learned i others v)
    (hears : ∀ msg, heard msg → msg.type = .acceptAck → ∃ k : Fin n, k ≠ i ∧
      msg.nodeId = ((k : ℕ) : Int) ∧ others k (msg.nextView, msg.pnum, msg.content))
    (step : Step n (i : ℕ) True heard checks (Countable i) v v') : Learned i others v' := by
  cases step with
  | start nextView learnerArr proposerArr cleared =>
    -- a new election has cleared the votes of every node of the group
    refine learned.frame (fun _ => id) (fun _ member _ => member) fun k _ => .inl ?_
    exact cleared _ ⟨Int.natCast_nonneg _, Int.ofNat_lt.mpr k.isLt⟩
  | propose due msg vote =>
    refine Learned.say ?_ (by simp [vote.type])
    exact learned.frame (fun _ => id) (fun _ member _ => member) fun k _ => .inr ⟨rfl, rfl, rfl⟩
  | promiseOwn =>
    exact learned.frame (fun _ => id) (fun _ member _ => member) fun k _ => .inr ⟨rfl, rfl, rfl⟩
  | proposeAlone due begun higher content msg vote =>
    refine Learned.say (Learned.learnOwn ?_ _ _) (by simp [vote.type])
    exact learned.frame (fun _ => id) (fun _ member _ => member) fun k _ => .inr ⟨rfl, rfl, rfl⟩
  | answer msg =>
    exact learned.frame (fun _ => id) (fun _ member _ => member) fun k _ => .inr ⟨rfl, rfl, rfl⟩
  | phaseTwo begun content msg vote => exact (learned.learnOwn _ _).say (by simp [vote.type])
  | promise msg ack hears higher vote =>
    refine Learned.say ?_ (by simp [vote.type])
    exact learned.frame (fun _ => id) (fun _ member _ => member) fun k _ => .inr ⟨rfl, rfl, rfl⟩
  | accept msg =>
    exact learned.frame (List.subset_append_left _ _) (fun _ member _ => member)
      fun k _ => .inr ⟨rfl, rfl, rfl⟩
  | learn msg source =>
    rcases source with heard | ⟨own, -⟩
    · -- the vote of another node, which has accepted the proposal
      obtain ⟨sender, other, nodeId, accepted⟩ := hears msg heard.heard heard.type
      refine ⟨learned.acks, fun begun k others_k set => ?_, learned.announced⟩
      simp only [Voting.learn, nodeId] at set ⊢
      by_cases same : k = sender
      · subst same
        rw [Function.update_self, ← heard.nextView]
        exact accepted
      · rw [learnerArr_other same] at set ⊢
        exact learned.learner begun k others_k set
    · rw [own]
      exact learned.learnOwn _ _
  | announce begun entry msg vote decided found pnum content =>
    refine ⟨?_, learned.learner, ?_⟩
    · intro msg' member isAck
      rcases mem_say member with old | rfl
      · exact learned.acks msg' old isAck
      · rw [vote.type] at isAck
        cases isAck
    · intro msg' member isAnnounce
      rcases mem_say member with old | rfl
      · exact learned.announced msg' old isAnnounce
      · rw [vote.nextView, pnum, content]
        exact learned.majority begun decided entry found
  -- the ack is sent after the acceptance it tells of
  | acknowledge msg vote accepted =>
    refine ⟨?_, learned.learner, ?_⟩
    · intro msg' member isAck
      rcases mem_say member with old | rfl
      · exact learned.acks msg' old isAck
      · rw [vote.nextView]
        exact ⟨vote.nodeId, accepted⟩
    · intro msg' member isAnnounce
      rcases mem_say member with old | rfl
      · exact learned.announced msg' old isAnnounce
      · rw [vote.type] at isAnnounce
        cases isAnnounce

end Steps

end Voting

namespace Cluster

open Node Voting

variable {n : ℕ}

/-! ## Runs -/

/-- Learners check countable arrays. -/
def votesCountable (g : Cluster n) (e : ClusterEvent n) : Prop :=
  ∀ v ∈ (g e.1).checksAccept e.2.2, v.Countable e.1

instance (g : Cluster n) (e : ClusterEvent n) : Decidable (votesCountable g e) :=
  inferInstanceAs (Decidable (∀ v ∈ (g e.1).checksAccept e.2.2, v.Countable e.1))

/-- What node `k` of the cluster has accepted. -/
def Accepts (g : Cluster n) (k : Fin n) (proposal : Proposal) : Prop :=
  proposal ∈ (g k).accepted

theorem learned_act {g : Cluster n} {e : ClusterEvent n}
    (member : (g e.1).Member n ((e.1 : ℕ) : Int))
    (learned : ∀ i, Learned i (Accepts g) (g i).voting) (allowed : votesCountable g e)
    (enabled : (machine Booted).enabled g e) (i : Fin n) :
    Learned i (Accepts (act g e)) (act g e i).voting := by
  have steps : Steps n ((e.1 : ℕ) : Int) True (Hear g e.1) (fun _ => True) (Countable e.1)
      (g e.1).voting (act g e e.1).voting := steps_act member enabled (fun _ _ => trivial) allowed
  have hears : ∀ msg, Hear g e.1 msg → msg.type = .acceptAck → ∃ k : Fin n, k ≠ e.1 ∧
      msg.nodeId = ((k : ℕ) : Int) ∧ Accepts g k (msg.nextView, msg.pnum, msg.content) := by
    intro msg heard isAck
    obtain ⟨k, other, said⟩ := heard (by rw [isAck]; rfl)
    obtain ⟨nodeId, accepted⟩ := (learned k).acks msg said isAck
    exact ⟨k, other, nodeId, accepted⟩
  have self : Learned e.1 (Accepts g) (act g e e.1).voting ∧
      (g e.1).accepted ⊆ (act g e e.1).voting.accepted := by
    apply steps.invariant (I := fun v => Learned e.1 (Accepts g) v ∧
      (g e.1).accepted ⊆ v.accepted)
    · rintro v v' ⟨known, kept⟩ step
      refine ⟨known.step hears step, ?_⟩
      cases step with
      | accept => exact List.subset_append_of_subset_left _ kept
      | _ => exact kept
    · exact ⟨learned e.1, fun _ => id⟩
  -- what has been accepted stays accepted
  have grow : ∀ k proposal, Accepts g k proposal → Accepts (act g e) k proposal := by
    intro k proposal accepted
    by_cases actor : k = e.1
    · subst actor
      exact self.2 accepted
    · rw [Accepts, act_other g e k actor]
      exact accepted
  by_cases actor : i = e.1
  · subst actor
    exact self.1.mono grow
  · rw [act_other g e i actor]
    exact (learned i).mono grow

theorem learned_of_reaches (g : Cluster n) (reached : (machine Booted).Reaches votesCountable g)
    (i : Fin n) : Learned i (Accepts g) (g i).voting := by
  revert i
  apply reached.invariant_using
  · intro g booted i
    obtain ⟨seed, expectPingTimeval, now, env, same⟩ := booted i
    rw [same]
    exact {
      acks := fun msg member => by cases member
      learner := fun begun => by cases begun
      announced := fun msg member => by cases member }
  · intro g e reached learned allowed enabled i
    exact learned_act (member_of_reaches g reached e.1) learned allowed enabled i

/-- The learner of node `k` has decided on the entry in the election for view `w`: a learner that
decides announces what it has decided. -/
def Decides (w : UInt32) (g : Cluster n) (k : Fin n) (entry : AcceptedRecord) : Prop :=
  ∃ msg, Said w (g k) .announce msg ∧ msg.pnum = entry.pnum ∧ msg.content = entry.content

/-- What a learner has decided on, a majority of the acceptors has accepted under its number. -/
def AcceptedByMajority (w : UInt32) (g : Cluster n) (entry : AcceptedRecord) : Prop :=
  ∃ voters : Finset (Fin n), Majority voters ∧
    ∀ k ∈ voters, (w, entry.pnum, entry.content) ∈ (g k).accepted

/-- In every run in which learners check countable arrays, what they decide on a majority has
accepted. -/
theorem learner_sound (n : ℕ) (g : Cluster n) (reached : (machine Booted).Reaches votesCountable g)
    (w : UInt32) (k : Fin n) (entry : AcceptedRecord) (decided : Decides w g k entry) :
    AcceptedByMajority w g entry := by
  obtain ⟨msg, said, pnum, content⟩ := decided
  obtain ⟨member, type, view⟩ := (mem_said (by rfl)).mp said
  obtain ⟨voters, majority, accepted⟩ := (learned_of_reaches g reached k).announced msg member type
  refine ⟨voters, majority, fun j voted => ?_⟩
  have vote := accepted j voted
  rw [view, pnum, content] at vote
  simp only [Voting.Accepted] at vote
  split at vote
  next own =>
    subst own
    exact vote
  next other => exact vote

/-! ## Runs on fixed events -/

theorem booted_starts : Booted booted := fun _ => ⟨_, _, _, _, rfl⟩

/-- The three nodes join view 1. -/
def joins : List (ClusterEvent 3) := [(0, lateEnv, .leaderPing), (1, joinPing), (2, joinPing)]

/-- Three nodes that start without a seed. -/
def unseeded : Cluster 3 := fun i => Node.init false i 3 ⟨8, 0⟩ ⟨0, 0⟩ Node.lateEnv

/-- A message of the election for view 1, as the nodes send it. -/
def firstElection (receiver sender : Fin 3) (type : LeleType) (pnum pPnum : Int)
    (content : NodeId) : ClusterEvent 3 :=
  let lastReq := if type = .acceptAck then 4294967295 else 0
  (receiver, lateEnv, .message
    (.leaderElection ⟨type, (sender : ℕ), 1, pnum, pPnum, content, lastReq, 0⟩ []))

/-- Nodes 0 and 2 accept node 1, and node 0 learns of both. -/
def learnedByZero : List (ClusterEvent 3) :=
  [(0, lateEnv, .expectPing), (1, lateEnv, .expectPing), (2, lateEnv, .expectPing),
    (1, lateEnv, .electionTimeout), firstElection 2 1 .prepare 1 (-1) (-1),
    firstElection 1 2 .prepareAck 0 1 (-1), firstElection 2 1 .accept 1 (-1) 1,
    firstElection 0 1 .accept 1 (-1) 1, firstElection 0 2 .acceptAck 1 0 1]

theorem accepted_by_two :
    AcceptedByMajority 1 (learnedByZero.foldl act unseeded) ⟨1, 1⟩ := by
  have accepted : (machine Booted).Accepts votesCountable unseeded learnedByZero := by decide
  refine learner_sound 3 _ ⟨unseeded, fun _ => ⟨_, _, _, _, rfl⟩, accepted.run⟩ 1 0 ⟨1, 1⟩ ?_
  exact ⟨⟨.announce, 0, 1, 1, 0, 1, 0, 0⟩, ⟨rfl, rfl, -1, [], by decide⟩, rfl, rfl⟩

theorem booted_reaches (guard : Cluster 3 → ClusterEvent 3 → Prop)
    (run : List (ClusterEvent 3)) (accepted : (machine Booted).Accepts guard booted run) :
    (machine Booted).Reaches guard (run.foldl act booted) :=
  ⟨booted, booted_starts, accepted.run⟩

/-- Node 1 proposes itself, node 2 alone accepts it, and node 1 decides. -/
theorem decided_with_one_acceptance :
    ¬ ∀ (n : ℕ) (g : Cluster n), (machine Booted).Reaches Machine.anything g →
      ∀ (w : UInt32) (k : Fin n) (entry : AcceptedRecord), Decides w g k entry →
      AcceptedByMajority w g entry := by
  intro claim
  have reached := booted_reaches Machine.anything (joins ++ decides) (by decide)
  obtain ⟨voters, majority, accepted⟩ := claim 3 _ reached 2 1 ⟨1, 1⟩
    ⟨announcement 1 1, ⟨rfl, rfl, -1, [], by decide⟩, rfl, rfl⟩
  -- nodes 0 and 1 have accepted nothing
  have only : ∀ k : Fin 3,
      (2, 1, 1) ∈ (((joins ++ decides).foldl act booted) k).accepted → k = 2 := by
    decide
  have single : voters ⊆ {2} := fun k voted => Finset.mem_singleton.mpr (only k (accepted k voted))
  have few := Finset.card_le_card single
  rw [Finset.card_singleton] at few
  have enough : 2 ≤ voters.card := majority
  omega

end Cluster

end LibeventPaxos
