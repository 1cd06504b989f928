import Mathlib.Data.List.Count
import Mathlib.Tactic.Common

/-!
A wrapping counter beside a clock that does not go back: as long as the clock does not stand still
for a whole turn of the counter, time and counter together never repeat.
-/
namespace LibeventPaxos.Lib

/-- Between two equal entries of a sorted list lie only entries equal to both. -/
theorem le_count_of_getElem_eq {ticks : List ℕ} (sorted : ticks.Pairwise (· ≤ ·)) {k l : ℕ}
    (order : k ≤ l) (bound : l < ticks.length) (same : ticks[k] = ticks[l]) :
    l - k + 1 ≤ ticks.count ticks[k] := by
  have constant : (ticks.drop k).take (l - k + 1) = List.replicate (l - k + 1) ticks[k] := by
    rw [List.eq_replicate_iff]
    constructor
    · rw [List.length_take, List.length_drop]
      omega
    · intro tick member
      obtain ⟨i, inside, rfl⟩ := List.getElem_of_mem member
      rw [List.length_take, List.length_drop] at inside
      rw [List.getElem_take, List.getElem_drop]
      have later : ticks[k] ≤ ticks[k + i] := by
        rcases Nat.eq_zero_or_pos i with rfl | positive
        · exact Nat.le_refl _
        · exact List.pairwise_iff_getElem.mp sorted k (k + i) (by omega) (by omega) (by omega)
      have earlier : ticks[k + i] ≤ ticks[l] := by
        rcases Nat.lt_or_ge (k + i) l with before | last
        · exact List.pairwise_iff_getElem.mp sorted (k + i) l (by omega) bound before
        · have equal : k + i = l := by omega
          simp only [equal, Nat.le_refl]
      omega
  have inside : ((ticks.drop k).take (l - k + 1)).Sublist ticks :=
    (List.take_sublist _ _).trans (List.drop_sublist _ _)
  have counted := inside.count_le ticks[k]
  rwa [constant, List.count_replicate_self] at counted

/-- The place of an entry is known from its time and its place modulo the turn of the counter. -/
theorem index_eq_of_tick {ticks : List ℕ} {turn : ℕ} (sorted : ticks.Pairwise (· ≤ ·))
    (few : ∀ tick, ticks.count tick < turn) {k l : ℕ} (hk : k < ticks.length)
    (hl : l < ticks.length) (same : ticks[k] = ticks[l]) (counters : k % turn = l % turn) :
    k = l := by
  have apart : ∀ {k l : ℕ}, (hk : k < ticks.length) → (hl : l < ticks.length) → k < l →
      ticks[k] = ticks[l] → k % turn = l % turn → False := by
    intro k l hk hl order same counters
    have often := le_count_of_getElem_eq sorted (Nat.le_of_lt order) hl same
    have rare := few ticks[k]
    -- two places with one counter are a turn apart
    have turns : (l - k) % turn = 0 := Nat.sub_mod_eq_zero_of_mod_eq counters.symm
    have dvd := Nat.le_of_dvd (by omega) (Nat.dvd_of_mod_eq_zero turns)
    omega
  rcases Nat.lt_trichotomy k l with before | equal | after
  · exact (apart hk hl before same counters).elim
  · exact equal
  · exact (apart hl hk after same.symm counters.symm).elim

end LibeventPaxos.Lib
