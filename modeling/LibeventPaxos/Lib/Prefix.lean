import Mathlib.Data.List.Basic
import Mathlib.Order.Lattice
import Mathlib.Tactic.Common

/-!
The longest prefix `1 … k` of a set of numbers below a bound, which depends on the set and the
bound only.
-/
namespace LibeventPaxos.Lib

/-- All of `1 … k` are present and `k` cannot be larger. -/
structure LongestPrefix (present : ℕ → Prop) (bound k : ℕ) : Prop where
  le : k ≤ bound
  filled : ∀ i, 1 ≤ i → i ≤ k → present i
  maximal : k < bound → ¬ present (k + 1)

namespace LongestPrefix

variable {present present' : ℕ → Prop} {bound k k' : ℕ}

theorem le_of (first : LongestPrefix present bound k) (second : LongestPrefix present bound k') :
    k ≤ k' := by
  by_contra above
  have le := first.le
  exact second.maximal (by omega) (first.filled (k' + 1) (by omega) (by omega))

theorem unique (first : LongestPrefix present bound k)
    (second : LongestPrefix present bound k') : k = k' :=
  Nat.le_antisymm (first.le_of second) (second.le_of first)

theorem congr (longest : LongestPrefix present bound k)
    (same : ∀ i, 1 ≤ i → i ≤ bound → (present i ↔ present' i)) :
    LongestPrefix present' bound k where
  le := longest.le
  filled i low high := (same i low (high.trans longest.le)).mp (longest.filled i low high)
  maximal below there := longest.maximal below ((same (k + 1) (by omega) below).mpr there)

end LongestPrefix

/-! ## Prefixes of increasing lists -/

/-- A list numbered `start + 1, start + 2, …` whose members all belong to an increasing list above
`start` is a prefix of it. -/
theorem prefix_of_consecutive {α : Type*} (number : α → ℕ) (short long : List α) (start : ℕ)
    (consecutive : short.map number = (List.range short.length).map fun i => start + (i + 1))
    (increasing : long.Pairwise fun a b => number a < number b)
    (above : ∀ a ∈ long, start < number a) (contained : ∀ a ∈ short, a ∈ long) : short <+: long := by
  induction short generalizing long start with
  | nil => exact List.nil_prefix
  | cons first rest ih =>
    rw [List.map_cons, List.length_cons, List.range_succ_eq_map, List.map_cons, List.map_map,
      List.cons.injEq] at consecutive
    obtain ⟨head, tail⟩ := consecutive
    cases long with
    | nil => exact absurd (contained first List.mem_cons_self) List.not_mem_nil
    | cons least others =>
      rw [List.pairwise_cons] at increasing
      -- nothing of the long list lies between `start` and its least entry
      have same : first = least := by
        rcases List.mem_cons.mp (contained first List.mem_cons_self) with same | later
        · exact same
        · have order := increasing.1 first later
          have low := above least List.mem_cons_self
          omega
      subst same
      refine List.cons_prefix_cons.mpr ⟨rfl, ih others (start + 1) ?_ increasing.2 ?_ ?_⟩
      · rw [tail]
        apply List.map_congr_left
        intro i _
        simp only [Function.comp_apply]
        omega
      · intro a member
        have order := increasing.1 a member
        omega
      · intro a member
        rcases List.mem_cons.mp (contained a (List.mem_cons_of_mem first member)) with same | later
        · -- a later entry of the short list has a larger number
          obtain ⟨i, -, number_a⟩ := List.mem_map.mp (tail ▸ List.mem_map_of_mem member)
          simp only [Function.comp_apply] at number_a
          rw [← same] at head
          omega
        · exact later

/-- Members of an increasing list stand in it in the order of their keys. -/
theorem pair_sublist_of_increasing {α : Type*} (key : α → ℕ) {list : List α}
    (increasing : list.Pairwise fun a b => key a < key b) {a b : α} (a_member : a ∈ list)
    (b_member : b ∈ list) (less : key a < key b) : [a, b].Sublist list := by
  induction list with
  | nil => cases a_member
  | cons first rest ih =>
    rw [List.pairwise_cons] at increasing
    obtain ⟨least, increasing'⟩ := increasing
    rcases List.mem_cons.mp b_member with rfl | b_later
    · -- nothing stands before the first entry
      rcases List.mem_cons.mp a_member with rfl | a_later
      · exact absurd less (Nat.lt_irrefl _)
      · exact absurd less (Nat.lt_asymm (least a a_later))
    · rcases List.mem_cons.mp a_member with rfl | a_later
      · exact (List.singleton_sublist.mpr b_later).cons_cons a
      · exact (ih increasing' a_later b_later).cons first

/-- Of two increasing lists that leave out nothing the other has up to a common key, one is a
prefix of the other. -/
theorem prefix_or_prefix_of_closed {α : Type*} (key : α → ℕ) (short long : List α)
    (increasing : short.Pairwise fun a b => key a < key b)
    (increasing' : long.Pairwise fun a b => key a < key b)
    (closed : ∀ a ∈ short, ∀ b ∈ long, key b ≤ key a → b ∈ short)
    (closed' : ∀ b ∈ long, ∀ a ∈ short, key a ≤ key b → a ∈ long) :
    short <+: long ∨ long <+: short := by
  induction short generalizing long with
  | nil => exact .inl List.nil_prefix
  | cons first rest ih =>
    cases long with
    | nil => exact .inr List.nil_prefix
    | cons least others =>
      rw [List.pairwise_cons] at increasing increasing'
      have first_mem : first ∈ first :: rest := List.mem_cons_self
      have least_mem : least ∈ least :: others := List.mem_cons_self
      -- each first entry is a member of the other list, so neither key is below the other
      have same : first = least := by
        rcases Nat.le_total (key first) (key least) with low | high
        · rcases List.mem_cons.mp (closed' least least_mem first first_mem low) with same | later
          · exact same
          · exact absurd (increasing'.1 first later) (Nat.not_lt.mpr low)
        · rcases List.mem_cons.mp (closed first first_mem least least_mem high) with same | later
          · exact same.symm
          · exact absurd (increasing.1 least later) (Nat.not_lt.mpr high)
      subst same
      have rest_closed : ∀ a ∈ rest, ∀ b ∈ others, key b ≤ key a → b ∈ rest := by
        intro a a_member b b_member order
        rcases List.mem_cons.mp (closed a (List.mem_cons_of_mem _ a_member) b
          (List.mem_cons_of_mem _ b_member) order) with same | later
        · exact absurd (increasing'.1 b b_member) (same ▸ Nat.lt_irrefl _)
        · exact later
      have rest_closed' : ∀ b ∈ others, ∀ a ∈ rest, key a ≤ key b → a ∈ others := by
        intro b b_member a a_member order
        rcases List.mem_cons.mp (closed' b (List.mem_cons_of_mem _ b_member) a
          (List.mem_cons_of_mem _ a_member) order) with same | later
        · exact absurd (increasing.1 a a_member) (same ▸ Nat.lt_irrefl _)
        · exact later
      rcases ih others increasing.2 increasing'.2 rest_closed rest_closed' with before | after
      · exact .inl (List.cons_prefix_cons.mpr ⟨rfl, before⟩)
      · exact .inr (List.cons_prefix_cons.mpr ⟨rfl, after⟩)

end LibeventPaxos.Lib
