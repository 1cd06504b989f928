import Mathlib.Data.Fintype.Card
import Mathlib.Order.WellFounded
import Mathlib.Data.Finset.Range
import Mathlib.Data.Finset.Dedup

/-!
Voting on one value by numbered ballots: when the proposal of a ballot is backed by a majority,
no two ballots choose different values.
-/
namespace LibeventPaxos.Lib

variable {Node Ballot Value : Type*} [Fintype Node]

/-- Counting indices below `n` is counting the elements of `Fin n`. -/
theorem length_filter_range (n : ℕ) (p : ℕ → Bool) :
    ((List.range n).filter p).length = (Finset.univ.filter fun k : Fin n => p k).card := by
  have mapped : (Finset.univ.filter fun k : Fin n => p k).map Fin.valEmbedding =
      (Finset.range n).filter fun k => p k := by
    ext k
    simp only [Finset.mem_map, Finset.mem_filter, Finset.mem_univ, true_and, Finset.mem_range,
      Fin.valEmbedding_apply]
    constructor
    · rintro ⟨i, holds, rfl⟩
      exact ⟨i.isLt, holds⟩
    · rintro ⟨inside, holds⟩
      exact ⟨⟨k, inside⟩, holds, rfl⟩
  have listed : ((List.range n).filter p).toFinset = (Finset.range n).filter fun k => p k := by
    ext k
    simp
  rw [← Finset.card_map Fin.valEmbedding, mapped, ← listed,
    List.toFinset_card_of_nodup (List.nodup_range.filter _)]

/-- More than half of the nodes. -/
def Majority (nodes : Finset Node) : Prop := Fintype.card Node / 2 + 1 ≤ nodes.card

theorem Majority.meet {s t : Finset Node} (left : Majority s) (right : Majority t) :
    ∃ i ∈ s, i ∈ t := by
  classical
  by_contra apart
  have disjoint : Disjoint s t := by
    rw [Finset.disjoint_left]
    intro i inLeft inRight
    exact apart ⟨i, inLeft, inRight⟩
  have together : s.card + t.card ≤ Fintype.card Node := by
    rw [← Finset.card_union_of_disjoint disjoint]
    exact Finset.card_le_univ _
  have enough : Fintype.card Node / 2 + 1 + (Fintype.card Node / 2 + 1) ≤ Fintype.card Node :=
    (Nat.add_le_add left right).trans together
  omega

/-- A majority has voted for the value in the ballot. -/
def Chosen (vote : Node → Ballot → Value → Prop) (b : Ballot) (x : Value) : Prop :=
  ∃ voters : Finset Node, Majority voters ∧ ∀ i ∈ voters, vote i b x

theorem Chosen.mono {vote vote' : Node → Ballot → Value → Prop} {b : Ballot} {x : Value}
    (kept : ∀ i, vote i b x → vote' i b x) (chosen : Chosen vote b x) : Chosen vote' b x := by
  obtain ⟨voters, majority, votes⟩ := chosen
  exact ⟨voters, majority, fun i member => kept i (votes i member)⟩

/-- The discipline of the ballots. A proposal is backed by a majority none of which has voted in
an earlier ballot, the proposer excepted: it may have, if it last voted for what it proposes. -/
structure Ballots [LT Ballot] [LE Ballot] (vote : Node → Ballot → Value → Prop)
    (propose : Ballot → Value → Prop) : Prop where
  single : ∀ b x y, propose b x → propose b y → x = y
  proposed : ∀ i b x, vote i b x → propose b x
  backed : ∀ b x, propose b x → ∃ (backers : Finset Node) (proposer : Node), Majority backers ∧
    (∀ k ∈ backers, k ≠ proposer → ∀ b' y, vote k b' y → b ≤ b') ∧
    ∀ b' y, vote proposer b' y → b' < b → ∃ b'', b' ≤ b'' ∧ b'' < b ∧ vote proposer b'' x

namespace Ballots

variable [LinearOrder Ballot] [WellFoundedLT Ballot] {vote : Node → Ballot → Value → Prop}
  {propose : Ballot → Value → Prop}

/-- What one ballot has chosen every later ballot proposes. -/
theorem safe (ballots : Ballots vote propose) (b : Ballot) (x : Value) (chosen : Chosen vote b x) :
    ∀ b' y, b ≤ b' → propose b' y → y = x := by
  obtain ⟨voters, majority, votes⟩ := chosen
  intro b'
  -- the proposer's own last vote lies in an earlier ballot
  induction b' using WellFoundedLT.induction with
  | ind b' ih =>
    intro y order proposed
    rcases order.eq_or_lt with same | later
    · subst same
      obtain ⟨i, member, -⟩ := majority.meet majority
      exact ballots.single b y x proposed (ballots.proposed i b x (votes i member))
    · obtain ⟨backers, proposer, majority', fresh, last⟩ := ballots.backed b' y proposed
      obtain ⟨k, voted, backs⟩ := majority.meet majority'
      by_cases same : k = proposer
      · subst same
        obtain ⟨b'', above, below, again⟩ := last b x (votes k voted) later
        exact ih b'' below y above (ballots.proposed k b'' y again)
      · exact absurd (fresh k backs same b x (votes k voted)) (not_le.mpr later)

/-- All ballots choose the same value. -/
theorem agreement (ballots : Ballots vote propose) (b b' : Ballot) (x y : Value)
    (first : Chosen vote b x) (second : Chosen vote b' y) : x = y := by
  have proposed : ∀ b x, Chosen vote b x → propose b x := by
    rintro b x ⟨voters, majority, votes⟩
    obtain ⟨i, member, -⟩ := majority.meet majority
    exact ballots.proposed i b x (votes i member)
  rcases le_total b b' with order | order
  · exact (ballots.safe b x first b' y order (proposed b' y second)).symm
  · exact ballots.safe b' y second b x order (proposed b x first)

end Ballots

end LibeventPaxos.Lib
