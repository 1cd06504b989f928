import Mathlib.Algebra.BigOperators.Fin
import Mathlib.Algebra.Order.BigOperators.Group.Finset
import Mathlib.Algebra.Order.Group.Multiset

/-!
Accounts that are kept in parts: what is added to one part is added to the sum, and the entries of a
log, sorted by the part they belong to, are all of them.
-/
namespace LibeventPaxos.Lib

open Finset

/-- One part grows. -/
theorem sum_update {ι β M : Type*} [Fintype ι] [DecidableEq ι] [AddCommMonoid M] (parts : ι → β)
    (i : ι) (part : β) (value : β → M) (more : M) (grows : value part = value (parts i) + more) :
    ∑ k, value (Function.update parts i part k) = ∑ k, value (parts k) + more := by
  have others : ∑ k ∈ univ \ {i}, value (Function.update parts i part k) =
      ∑ k ∈ univ \ {i}, value (parts k) := by
    apply sum_congr rfl
    intro k member
    have other : k ≠ i := fun same => (mem_sdiff.mp member).2 (mem_singleton.mpr same)
    rw [Function.update_of_ne other]
  rw [sum_eq_add_sum_sdiff_singleton_of_mem (mem_univ i), others, Function.update_self, grows,
    sum_eq_add_sum_sdiff_singleton_of_mem (mem_univ i) fun k => value (parts k)]
  exact add_right_comm _ _ _

section Sorted

variable {α β : Type*}

theorem coe_flatMap_range (m : ℕ) (f : ℕ → List α) :
    (((List.range m).flatMap f : List α) : Multiset α) = ∑ k ∈ range m, (f k : Multiset α) := by
  induction m with
  | zero => rfl
  | succ m ih =>
    rw [List.range_succ, List.flatMap_append, List.flatMap_singleton, ← Multiset.coe_add, ih,
      sum_range_succ]

/-- The entries of a log, sorted by two keys, of which the second is bounded. -/
theorem sum_sorted {ι : Type*} [Fintype ι] [DecidableEq ι] (key : α → ι × ℕ) (bound : ι → ℕ)
    (f : α → Option β) (log : List α)
    (inside : ∀ a ∈ log, f a ≠ none → (key a).2 < bound (key a).1) :
    ∑ i, ∑ k ∈ range (bound i),
      ((log.filter fun a => decide (key a = (i, k))).filterMap f : Multiset β) =
      (log.filterMap f : Multiset β) := by
  induction log with
  | nil => simp
  | cons a log ih =>
    have rest := ih fun b member => inside b (List.mem_cons_of_mem _ member)
    cases value : f a with
    | none =>
      have skip (i : ι) (k : ℕ) : ((a :: log).filter fun a => decide (key a = (i, k))).filterMap f =
          (log.filter fun a => decide (key a = (i, k))).filterMap f := by
        rw [List.filter_cons]
        split
        next => rw [List.filterMap_cons_none value]
        next => rfl
      simp only [skip, rest, List.filterMap_cons_none value]
    | some b =>
      have taken (i : ι) (k : ℕ) :
          (((a :: log).filter fun a => decide (key a = (i, k))).filterMap f : Multiset β) =
          (if key a = (i, k) then {b} else 0) +
            ((log.filter fun a => decide (key a = (i, k))).filterMap f : Multiset β) := by
        rw [List.filter_cons]
        by_cases here : key a = (i, k)
        · rw [if_pos (decide_eq_true here), if_pos here, List.filterMap_cons_some value]
          rfl
        · rw [if_neg (by simp [here]), if_neg here, zero_add]
      -- it belongs to one part
      have single : ∑ i, ∑ k ∈ range (bound i), (if key a = (i, k) then ({b} : Multiset β) else 0) =
          {b} := by
        rw [sum_eq_single (key a).1, sum_eq_single (key a).2, if_pos rfl]
        · intro k _ other
          exact if_neg fun same => other (congrArg Prod.snd same).symm
        · intro outside
          have within := inside a List.mem_cons_self (by rw [value]; exact Option.some_ne_none b)
          exact absurd (mem_range.mpr within) outside
        · intro i _ other
          apply sum_eq_zero
          intro k _
          exact if_neg fun same => other (congrArg Prod.fst same).symm
        · intro outside
          exact absurd (mem_univ _) outside
      simp only [taken, sum_add_distrib, single, rest, List.filterMap_cons_some value]
      rfl

end Sorted

end LibeventPaxos.Lib
