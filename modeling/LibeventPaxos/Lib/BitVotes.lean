import Mathlib.Data.Finset.Card
import Mathlib.Data.Fintype.Basic

/-!
Sets of voters kept as the bits of a machine word: the population count against the number of
voters.
-/
namespace LibeventPaxos.Lib

theorem cpopNatRec_eq_card {w : ℕ} (word : BitVec w) (n : ℕ) :
    word.cpopNatRec n 0 = ((Finset.range n).filter fun i => word.getLsbD i = true).card := by
  induction n with
  | zero => simp
  | succ n ih =>
    rw [BitVec.cpopNatRec_succ, BitVec.cpopNatRec_eq, ih, Finset.range_add_one,
      Finset.filter_insert]
    cases word.getLsbD n with
    | false => simp
    | true => simp [Finset.card_insert_of_notMem]

/-- The population count of a word whose bits all belong to voters of a set. -/
theorem cpop_le_card {w : ℕ} (word : BitVec w) {α : Type*} (position : α → ℕ) (voters : Finset α)
    (cast : ∀ b, word.getLsbD b = true → ∃ voter ∈ voters, position voter = b) :
    word.cpop.toNat ≤ voters.card := by
  classical
  rw [BitVec.toNat_cpop, cpopNatRec_eq_card]
  refine le_trans (Finset.card_le_card ?_) (Finset.card_image_le (s := voters) (f := position))
  intro b member
  obtain ⟨voter, known, at_b⟩ := cast b (Finset.mem_filter.mp member).2
  exact Finset.mem_image.mpr ⟨voter, known, at_b⟩

/-- The population count of a word whose bits are the positions of the voters of a set. -/
theorem cpop_eq_card {w : ℕ} (word : BitVec w) {α : Type*} (position : α → ℕ) (voters : Finset α)
    (apart : Function.Injective position)
    (cast : ∀ b, word.getLsbD b = true ↔ ∃ voter ∈ voters, position voter = b) :
    word.cpop.toNat = voters.card := by
  classical
  rw [BitVec.toNat_cpop, cpopNatRec_eq_card, ← Finset.card_image_of_injective voters apart]
  congr 1
  ext b
  rw [Finset.mem_filter, Finset.mem_image, ← cast]
  constructor
  · rintro ⟨-, set⟩
    exact set
  · intro set
    exact ⟨Finset.mem_range.mpr (BitVec.lt_of_getLsbD set), set⟩

end LibeventPaxos.Lib
