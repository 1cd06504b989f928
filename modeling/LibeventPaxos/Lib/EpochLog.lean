import Mathlib.Data.List.Basic
import Mathlib.Data.Prod.Lex
import Mathlib.Order.Basic

/-!
Logs whose entries are numbered from 1 without gaps inside each epoch, while epochs only grow.
The log is built by two moves: append the next number of the current epoch, or enter a later
epoch.
-/
namespace LibeventPaxos.Lib

variable {ε : Type*} [LinearOrder ε]

/-- `Numbered log e k`: the log is numbered, and its writer is in epoch `e` after entry `k`. -/
inductive Numbered : List (ε × ℕ) → ε → ℕ → Prop
  | empty (e : ε) : Numbered [] e 0
  | append {log : List (ε × ℕ)} {e : ε} {k : ℕ} (before : Numbered log e k) :
      Numbered (log ++ [(e, k + 1)]) e (k + 1)
  | enter {log : List (ε × ℕ)} {e later : ε} {k : ℕ} (before : Numbered log e k)
      (above : e < later) : Numbered log later 0

namespace Numbered

variable {log : List (ε × ℕ)} {e : ε} {k : ℕ}

/-- Every entry is at or below the writer's position, and numbers start at 1. -/
theorem at_most (numbered : Numbered log e k) (entry : ε × ℕ) (member : entry ∈ log) :
    (entry.1 < e ∨ entry.1 = e ∧ entry.2 ≤ k) ∧ 1 ≤ entry.2 := by
  induction numbered with
  | empty => simp at member
  | append _ ih =>
    rcases List.mem_append.mp member with old | new
    · obtain ⟨position, positive⟩ := ih old
      refine ⟨position.imp_right fun same => ⟨same.1, by omega⟩, positive⟩
    · obtain rfl := List.mem_singleton.mp new
      exact ⟨.inr ⟨rfl, le_rfl⟩, by omega⟩
  | enter _ above ih =>
    obtain ⟨position, positive⟩ := ih member
    refine ⟨.inl ?_, positive⟩
    rcases position with lower | ⟨same, -⟩
    · exact lower.trans above
    · exact same ▸ above

/-- Several numbers of the current epoch appended at once. -/
theorem extend (numbered : Numbered log e k) (n : ℕ) :
    Numbered (log ++ (List.range n).map fun i => (e, k + (i + 1))) e (k + n) := by
  induction n with
  | zero => simpa using numbered
  | succ n ih =>
    rw [List.range_succ, List.map_append, List.map_singleton, ← List.append_assoc]
    exact ih.append

/-- Entries are strictly increasing in the lexicographic order. -/
theorem increasing (numbered : Numbered log e k) :
    log.Pairwise fun a b => a.1 < b.1 ∨ a.1 = b.1 ∧ a.2 < b.2 := by
  induction numbered with
  | empty => exact .nil
  | append before ih =>
    refine List.pairwise_append.mpr ⟨ih, List.pairwise_singleton _ _, ?_⟩
    intro a old b new
    obtain rfl := List.mem_singleton.mp new
    exact (before.at_most a old).1.imp_right fun same => ⟨same.1, by omega⟩
  | enter _ _ ih => exact ih

/-- The entries of the current epoch are exactly `1 … k`, in this order. -/
theorem current (numbered : Numbered log e k) :
    log.filter (fun entry => decide (entry.1 = e)) =
      (List.range k).map fun i => (e, i + 1) := by
  induction numbered with
  | empty => rfl
  | append _ ih =>
    rw [List.filter_append, ih, List.range_succ, List.map_append]
    simp
  | @enter log e later k before above _ =>
    rw [List.range_zero, List.map_nil, List.filter_eq_nil_iff]
    intro entry member
    have position := (before.at_most entry member).1
    simp only [decide_eq_true_eq]
    rintro rfl
    rcases position with lower | ⟨same, -⟩
    · exact absurd (lower.trans above) (lt_irrefl _)
    · exact absurd (same ▸ above) (lt_irrefl _)

/-- The entries of any epoch are `1 … n` for some `n`, in this order. -/
theorem every_epoch (numbered : Numbered log e k) (epoch : ε) :
    ∃ n, log.filter (fun entry => decide (entry.1 = epoch)) =
      (List.range n).map fun i => (epoch, i + 1) := by
  induction numbered with
  | empty => exact ⟨0, rfl⟩
  | @append log e k before ih =>
    by_cases same : e = epoch
    · subst same
      exact ⟨k + 1, before.append.current⟩
    · obtain ⟨n, entries⟩ := ih
      refine ⟨n, ?_⟩
      rw [List.filter_append, entries]
      simp [same]
  | enter _ _ ih => exact ih

/-- Nothing up to the writer's position is left out. -/
theorem complete (numbered : Numbered log e k) (i : ℕ) (positive : 1 ≤ i) (reached : i ≤ k) :
    (e, i) ∈ log := by
  have entries := numbered.current
  have member : (e, i) ∈ (List.range k).map fun i => (e, i + 1) :=
    List.mem_map.mpr ⟨i - 1, List.mem_range.mpr (by omega), by simp; omega⟩
  rw [← entries] at member
  exact List.mem_of_mem_filter member

/-- No entry is delivered before those of its epoch with lower numbers. -/
theorem lower (numbered : Numbered log e k) {epoch : ε} {number i : ℕ}
    (member : (epoch, number) ∈ log) (positive : 1 ≤ i) (below : i ≤ number) :
    (epoch, i) ∈ log := by
  obtain ⟨n, entries⟩ := numbered.every_epoch epoch
  have inEpoch : (epoch, number) ∈ log.filter fun entry => decide (entry.1 = epoch) :=
    List.mem_filter.mpr ⟨member, decide_eq_true rfl⟩
  rw [entries, List.mem_map] at inEpoch
  obtain ⟨last, less, same⟩ := inEpoch
  have bound := List.mem_range.mp less
  have number_eq := congrArg Prod.snd same
  have lower : (epoch, i) ∈ (List.range n).map fun i => (epoch, i + 1) :=
    List.mem_map.mpr ⟨i - 1, List.mem_range.mpr (by omega), by simp; omega⟩
  rw [← entries] at lower
  exact List.mem_of_mem_filter lower

/-- The writer stands behind the last entry, or at the start of an epoch without entries. -/
theorem position (numbered : Numbered log e k) :
    (∃ before, log = before ++ [(e, k)]) ∨ k = 0 ∧ ∀ entry ∈ log, entry.1 < e := by
  cases numbered with
  | empty => exact .inr ⟨rfl, by simp⟩
  | append before => exact .inl ⟨_, rfl⟩
  | enter before above =>
    refine .inr ⟨rfl, fun entry member => ?_⟩
    rcases (before.at_most entry member).1 with lower | ⟨same, -⟩
    · exact lower.trans above
    · exact same ▸ above

/-- An entry follows the one before it, or is the first of its epoch. -/
theorem successor {before after : List (ε × ℕ)} {entry : ε × ℕ}
    (numbered : Numbered (before ++ entry :: after) e k) :
    (∃ earlier count, before = earlier ++ [(entry.1, count)] ∧ entry.2 = count + 1) ∨
      entry.2 = 1 ∧ ∀ other ∈ before, other.1 < entry.1 := by
  generalize same : before ++ entry :: after = log at numbered
  induction numbered generalizing after with
  | empty => exact absurd same (by simp)
  | @append log e k inner ih =>
    rcases List.eq_nil_or_concat after with rfl | ⟨rest, last, rfl⟩
    · -- the entry is the one just appended
      obtain ⟨rfl, rfl⟩ := List.append_inj' same rfl |>.imp_right List.head_eq_of_cons_eq
      rcases inner.position with ⟨earlier, rfl⟩ | ⟨rfl, lower⟩
      · exact .inl ⟨earlier, k, rfl, rfl⟩
      · exact .inr ⟨rfl, lower⟩
    · rw [List.concat_eq_append, ← List.cons_append, ← List.append_assoc] at same
      exact ih (List.append_inj' same rfl).1
  | enter _ _ ih => exact ih same

end Numbered

end LibeventPaxos.Lib
