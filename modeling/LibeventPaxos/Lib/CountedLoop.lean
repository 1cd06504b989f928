import Mathlib.Algebra.Group.Nat.Defs
import Mathlib.Tactic.Common

/-!
C loops `for (i = start; i <= stop; i++)` over an unsigned counter of `w` bits whose body may
leave the enclosing function. The bound is inclusive, so a loop up to the largest counter
value does not stop there: the counter wraps and the test still holds.
-/
namespace LibeventPaxos.Lib

/-- What one execution of a loop body does: go on, or return from the function. -/
inductive LoopStep (σ : Type*) where
  | next (s : σ)
  | ret (s : σ)

/-- How the first pass over the counter ends. -/
inductive LoopExit (σ : Type*) where
  | finished (s : σ)
  | returned (s : σ)
  | wrapped (s : σ)

variable {σ : Type*}

def LoopExit.state : LoopExit σ → σ
  | .finished s => s
  | .returned s => s
  | .wrapped s => s

def countedLoop (body : ℕ → σ → LoopStep σ) : ℕ → ℕ → σ → LoopExit σ
  | 0, _, s => .finished s
  | count + 1, i, s =>
    match body i s with
    | .next s' => countedLoop body count (i + 1) s'
    | .ret s' => .returned s'

def forInclusive (w : ℕ) (start stop : ℕ) (body : ℕ → σ → LoopStep σ) (s : σ) : LoopExit σ :=
  match countedLoop body (stop + 1 - start) start s with
  | .finished s' => if start ≤ stop ∧ stop + 1 = 2 ^ w then .wrapped s' else .finished s'
  | exit => exit

/-! ## Agreement with the loop of the language -/

/-- The loop as the language runs it, cut off after `fuel` tests of its condition. -/
def cLoop (w stop : ℕ) (body : ℕ → σ → LoopStep σ) : ℕ → ℕ → σ → Option (LoopExit σ)
  | 0, _, _ => none
  | fuel + 1, i, s =>
    if i ≤ stop then
      match body i s with
      | .next s' => cLoop w stop body fuel ((i + 1) % 2 ^ w) s'
      | .ret s' => some (.returned s')
    else some (.finished s)

private theorem cLoop_pass (w stop : ℕ) (body : ℕ → σ → LoopStep σ) (count i : ℕ) (s : σ)
    (inside : stop < 2 ^ w) (counted : i + count = stop + 1) :
    match countedLoop body count i s with
    | .finished s' => ∀ fuel, cLoop w stop body (count + fuel) i s =
        cLoop w stop body fuel (if count = 0 then i else (stop + 1) % 2 ^ w) s'
    | .returned s' => cLoop w stop body count i s = some (.returned s')
    | .wrapped _ => False := by
  induction count generalizing i s with
  | zero => simp [countedLoop]
  | succ count ih =>
    have test : i ≤ stop := by omega
    cases stepped : body i s with
    | ret s' => simp [countedLoop, cLoop, stepped, test]
    | next s' =>
      simp only [countedLoop, stepped]
      have rest := ih (i + 1) s' (by omega)
      cases exit : countedLoop body count (i + 1) s' with
      | wrapped s'' => simp [exit] at rest
      | returned s'' =>
        simp only [exit] at rest ⊢
        have positive : count ≠ 0 := by
          rintro rfl
          simp [countedLoop] at exit
        simp only [cLoop, test, if_true, stepped]
        rwa [Nat.mod_eq_of_lt (by omega)]
      | finished s'' =>
        simp only [exit] at rest ⊢
        intro fuel
        rw [Nat.succ_add]
        simp only [cLoop, test, if_true, stepped, Nat.succ_ne_zero, if_false]
        by_cases last : count = 0
        · subst last
          simp only [countedLoop, LoopExit.finished.injEq] at exit
          subst exit
          rw [show i + 1 = stop + 1 by omega, Nat.zero_add]
        · rw [Nat.mod_eq_of_lt (by omega : i + 1 < 2 ^ w)]
          simpa only [last, if_false] using rest fuel

/-- `finished` and `returned` are what the loop of the language ends with. -/
theorem forInclusive_halts (w start stop : ℕ) (body : ℕ → σ → LoopStep σ) (s : σ)
    (exit : LoopExit σ) (inside : stop < 2 ^ w) (bounded : start < 2 ^ w)
    (result : forInclusive w start stop body s = exit) (halts : ∀ s', exit ≠ .wrapped s') :
    ∃ fuel, cLoop w stop body fuel start s = some exit := by
  subst result
  rcases Nat.lt_or_ge stop start with empty | nonempty
  · refine ⟨1, ?_⟩
    have none_left : stop + 1 - start = 0 := by omega
    have failed : ¬ start ≤ stop := by omega
    simp [forInclusive, none_left, countedLoop, cLoop, failed]
  · have pass := cLoop_pass w stop body (stop + 1 - start) start s inside (by omega)
    simp only [forInclusive] at halts ⊢
    cases run : countedLoop body (stop + 1 - start) start s with
    | wrapped s' => simp [run] at pass
    | returned s' =>
      simp only [run] at pass
      exact ⟨_, pass⟩
    | finished s' =>
      simp only [run] at pass halts ⊢
      by_cases largest : start ≤ stop ∧ stop + 1 = 2 ^ w
      · simp [largest] at halts
      · rw [if_neg largest]
        have left : stop + 1 - start ≠ 0 := by omega
        have room : stop + 1 < 2 ^ w := by omega
        refine ⟨stop + 1 - start + 1, ?_⟩
        rw [pass 1, if_neg left, Nat.mod_eq_of_lt room]
        simp only [cLoop, Nat.not_succ_le_self, if_false]

/-- `wrapped` means that the loop goes on from counter value 0. -/
theorem forInclusive_wraps (w start stop : ℕ) (body : ℕ → σ → LoopStep σ) (s s' : σ)
    (inside : stop < 2 ^ w) (result : forInclusive w start stop body s = .wrapped s') :
    ∃ spent, ∀ fuel, cLoop w stop body (spent + fuel) start s = cLoop w stop body fuel 0 s' := by
  simp only [forInclusive] at result
  cases run : countedLoop body (stop + 1 - start) start s with
  | returned s'' => simp [run] at result
  | wrapped s'' =>
    rcases Nat.lt_or_ge stop start with empty | nonempty
    · have none_left : stop + 1 - start = 0 := by omega
      simp [none_left, countedLoop] at run
    · have pass := cLoop_pass w stop body (stop + 1 - start) start s inside (by omega)
      simp [run] at pass
  | finished s'' =>
    simp only [run] at result
    split at result
    next largest =>
      simp only [LoopExit.wrapped.injEq] at result
      subst result
      have pass := cLoop_pass w stop body (stop + 1 - start) start s inside (by omega)
      simp only [run] at pass
      have left : stop + 1 - start ≠ 0 := by omega
      refine ⟨stop + 1 - start, fun fuel => ?_⟩
      rw [pass fuel, if_neg left, largest.2, Nat.mod_self]
    · simp at result

/-! ## Single iterations -/

/-- The iterations of the loop of the language: its test holds for counter `i` in state `s`, and
the body runs next. The counter may have wrapped on the way. -/
inductive Iterates (w start stop : ℕ) (body : ℕ → σ → LoopStep σ) (s₀ : σ) : ℕ → σ → Prop
  | first (enters : start ≤ stop) : Iterates w start stop body s₀ start s₀
  | again (i : ℕ) (s s' : σ) (earlier : Iterates w start stop body s₀ i s)
      (goes : body i s = .next s') (test : (i + 1) % 2 ^ w ≤ stop) :
      Iterates w start stop body s₀ ((i + 1) % 2 ^ w) s'

theorem Iterates.le_stop {w start stop i : ℕ} {body : ℕ → σ → LoopStep σ} {s₀ s : σ}
    (reached : Iterates w start stop body s₀ i s) : i ≤ stop := by
  cases reached with
  | first enters => exact enters
  | again i s s' earlier goes test => exact test

/-- An iteration is where the loop of the language is after that many tests. -/
theorem Iterates.cLoop {w start stop i : ℕ} {body : ℕ → σ → LoopStep σ} {s₀ s : σ}
    (reached : Iterates w start stop body s₀ i s) :
    ∃ spent, ∀ fuel, cLoop w stop body (spent + fuel) start s₀ = cLoop w stop body fuel i s := by
  induction reached with
  | first enters => exact ⟨0, fun fuel => by rw [Nat.zero_add]⟩
  | again i s s' earlier goes test ih =>
    obtain ⟨spent, same⟩ := ih
    refine ⟨spent + 1, fun fuel => ?_⟩
    have once := same (1 + fuel)
    rw [← Nat.add_assoc] at once
    rw [once, Nat.add_comm 1 fuel]
    simp only [Lib.cLoop, if_pos earlier.le_stop, goes]

/-! ## Rules -/

/-- The invariant rule: `I i` holds before the body runs for `i`, and a body that leaves the
function establishes `R`. -/
theorem countedLoop_rule (I : ℕ → σ → Prop) (R : σ → Prop) (body : ℕ → σ → LoopStep σ)
    (count i : ℕ) (s : σ) (start : I i s)
    (steps : ∀ k s, i ≤ k → k < i + count → I k s →
      match body k s with | .next s' => I (k + 1) s' | .ret s' => R s') :
    match countedLoop body count i s with
    | .finished s' => I (i + count) s'
    | .returned s' => R s'
    | .wrapped _ => False := by
  induction count generalizing i s with
  | zero => exact start
  | succ count ih =>
    have once := steps i s (Nat.le_refl i) (by omega) start
    simp only [countedLoop]
    cases stepped : body i s with
    | ret s' => simpa only [stepped] using once
    | next s' =>
      simp only [stepped] at once
      have rest := ih (i + 1) s' once (fun k s low high => steps k s (by omega) (by omega))
      rwa [show i + 1 + count = i + (count + 1) by omega] at rest

/-- The invariant rule for the inclusive loop; a wrapped counter has passed `stop` too. -/
theorem forInclusive_rule (I : ℕ → σ → Prop) (R : σ → Prop) (w start stop : ℕ)
    (body : ℕ → σ → LoopStep σ) (s : σ) (nonempty : start ≤ stop + 1) (initial : I start s)
    (steps : ∀ k s, start ≤ k → k ≤ stop → I k s →
      (∀ s', body k s = .next s' → I (k + 1) s') ∧ (∀ s', body k s = .ret s' → R s')) :
    (∀ s', forInclusive w start stop body s = .finished s' →
      I (stop + 1) s' ∧ (start ≤ stop → stop + 1 ≠ 2 ^ w)) ∧
    (∀ s', forInclusive w start stop body s = .returned s' → R s') ∧
    (∀ s', forInclusive w start stop body s = .wrapped s' →
      I (stop + 1) s' ∧ start ≤ stop ∧ stop + 1 = 2 ^ w) := by
  have pass := countedLoop_rule I R body (stop + 1 - start) start s initial
    (fun k s low high held => by
      obtain ⟨next, ret⟩ := steps k s low (by omega) held
      cases stepped : body k s with
      | next s' => exact next s' stepped
      | ret s' => exact ret s' stepped)
  rw [show start + (stop + 1 - start) = stop + 1 by omega] at pass
  simp only [forInclusive]
  cases run : countedLoop body (stop + 1 - start) start s with
  | wrapped s' => simp [run] at pass
  | returned s' =>
    simp only [run] at pass
    refine ⟨by simp, ?_, by simp⟩
    intro s'' same
    exact LoopExit.returned.inj same ▸ pass
  | finished s' =>
    simp only [run] at pass
    by_cases largest : start ≤ stop ∧ stop + 1 = 2 ^ w
    · simp only [if_pos largest]
      refine ⟨by simp, by simp, ?_⟩
      intro s'' same
      exact ⟨LoopExit.wrapped.inj same ▸ pass, largest⟩
    · simp only [if_neg largest]
      refine ⟨?_, by simp, by simp⟩
      intro s'' same
      exact ⟨LoopExit.finished.inj same ▸ pass, fun inside top => largest ⟨inside, top⟩⟩

/-- A fact kept by every execution of the body inside the range holds however the loop ends. -/
theorem forInclusive_kept (I : σ → Prop) (w start stop : ℕ) (body : ℕ → σ → LoopStep σ)
    (s : σ) (initial : I s)
    (kept : ∀ k s s', start ≤ k → k ≤ stop → I s →
      body k s = .next s' ∨ body k s = .ret s' → I s') :
    I (forInclusive w start stop body s).state := by
  have pass := countedLoop_rule (fun _ => I) I body (stop + 1 - start) start s initial
    (fun k s low high held => by
      cases stepped : body k s with
      | next s' => exact kept k s s' low (by omega) held (.inl stepped)
      | ret s' => exact kept k s s' low (by omega) held (.inr stepped))
  simp only [forInclusive]
  cases run : countedLoop body (stop + 1 - start) start s with
  | wrapped s' => simp [run] at pass
  | returned s' =>
    simp only [run] at pass
    exact pass
  | finished s' =>
    simp only [run] at pass ⊢
    split <;> exact pass

/-- A fact kept by every execution of the body holds however the loop ends. -/
theorem forInclusive_invariant (I : σ → Prop) (w start stop : ℕ) (body : ℕ → σ → LoopStep σ)
    (s : σ) (initial : I s)
    (kept : ∀ k s s', I s → body k s = .next s' ∨ body k s = .ret s' → I s') :
    I (forInclusive w start stop body s).state :=
  forInclusive_kept I w start stop body s initial fun k s s' _ _ => kept k s s'

/-- Two bodies that do the same wherever the loop can take them. -/
theorem countedLoop_congr (I : σ → Prop) (body body' : ℕ → σ → LoopStep σ) (count i : ℕ) (s : σ)
    (start : I s) (same : ∀ k s, i ≤ k → k < i + count → I s → body k s = body' k s)
    (kept : ∀ k s s', i ≤ k → k < i + count → I s → body k s = .next s' → I s') :
    countedLoop body count i s = countedLoop body' count i s := by
  induction count generalizing i s with
  | zero => rfl
  | succ count ih =>
    have once := same i s (Nat.le_refl i) (by omega) start
    simp only [countedLoop, ← once]
    cases stepped : body i s with
    | ret s' => rfl
    | next s' =>
      have next := kept i s s' (Nat.le_refl i) (by omega) start stepped
      exact ih (i + 1) s' next (fun k s low high => same k s (by omega) (by omega))
        (fun k s s' low high => kept k s s' (by omega) (by omega))

theorem forInclusive_congr (I : σ → Prop) (w start stop : ℕ) (body body' : ℕ → σ → LoopStep σ)
    (s : σ) (initial : I s)
    (same : ∀ k s, start ≤ k → k ≤ stop → I s → body k s = body' k s)
    (kept : ∀ k s s', start ≤ k → k ≤ stop → I s → body k s = .next s' → I s') :
    forInclusive w start stop body s = forInclusive w start stop body' s := by
  have runs := countedLoop_congr I body body' (stop + 1 - start) start s initial
    (fun k s low high => same k s low (by omega)) (fun k s s' low high => kept k s s' low (by omega))
  simp only [forInclusive, runs]

/-- A loop whose counter starts above the bound does nothing. -/
theorem forInclusive_empty (w start stop : ℕ) (body : ℕ → σ → LoopStep σ) (s : σ)
    (empty : stop < start) : forInclusive w start stop body s = .finished s := by
  have none_left : stop + 1 - start = 0 := by omega
  have failed : ¬ (start ≤ stop ∧ stop + 1 = 2 ^ w) := by omega
  simp only [forInclusive, none_left, countedLoop, if_neg failed]

/-- A body that leaves the function at once. -/
theorem forInclusive_returned (w start stop : ℕ) (body : ℕ → σ → LoopStep σ) (s s' : σ)
    (nonempty : start ≤ stop) (leaves : body start s = .ret s') :
    forInclusive w start stop body s = .returned s' := by
  have positive : stop + 1 - start = stop - start + 1 := by omega
  simp only [forInclusive, positive, countedLoop, leaves]

/-! ## Loops that collect counters -/

/-- A loop that collects the counters with a property ends with all of them, or leaves the
function at the first one there is no room for. -/
theorem countedLoop_collect (p : ℕ → Bool) (room : ℕ) (held full : List ℕ → σ)
    (body : ℕ → σ → LoopStep σ) (count i : ℕ) (found : List ℕ) (fits : found.length ≤ room)
    (steps : ∀ k found, i ≤ k → k < i + count → found.length ≤ room → body k (held found) =
      if p k then
        if found.length < room then .next (held (found ++ [k])) else .ret (full found)
      else .next (held found)) :
    countedLoop body count i (held found) =
      if (found ++ (List.range' i count).filter p).length ≤ room then
        .finished (held (found ++ (List.range' i count).filter p))
      else .returned (full ((found ++ (List.range' i count).filter p).take room)) := by
  induction count generalizing i found with
  | zero =>
    simp only [countedLoop, List.range'_zero, List.filter_nil, List.append_nil]
    rw [if_pos fits]
  | succ count ih =>
    have once := steps i found (Nat.le_refl i) (by omega) fits
    have later : ∀ k found, i + 1 ≤ k → k < i + 1 + count → found.length ≤ room →
        body k (held found) = if p k then
          if found.length < room then .next (held (found ++ [k])) else .ret (full found)
        else .next (held found) := by
      intro k found low high
      exact steps k found (by omega) (by omega)
    simp only [countedLoop, List.range'_succ, once]
    by_cases collected : p i = true
    · simp only [if_pos collected, List.filter_cons]
      by_cases more : found.length < room
      · rw [if_pos more]
        simp only
        rw [ih (i + 1) (found ++ [i]) (by rw [List.length_append, List.length_singleton]; omega)
          later, List.append_assoc, List.singleton_append]
      · -- the counter there is no room for comes right behind the ones that were collected
        have last : found.length = room := by omega
        have longer : ¬ (found ++ i :: (List.range' (i + 1) count).filter p).length ≤ room := by
          rw [List.length_append, List.length_cons]
          omega
        rw [if_neg more, if_neg longer, ← last, List.take_left]
    · simp only [if_neg collected, List.filter_cons]
      exact ih (i + 1) found fits later

/-- The inclusive loop that collects counters. -/
theorem forInclusive_collect (p : ℕ → Bool) (room : ℕ) (held full : List ℕ → σ) (w start stop : ℕ)
    (body : ℕ → σ → LoopStep σ)
    (steps : ∀ k found, start ≤ k → k ≤ stop → found.length ≤ room → body k (held found) =
      if p k then
        if found.length < room then .next (held (found ++ [k])) else .ret (full found)
      else .next (held found)) :
    forInclusive w start stop body (held []) =
      if ((List.range' start (stop + 1 - start)).filter p).length ≤ room then
        if start ≤ stop ∧ stop + 1 = 2 ^ w then
          .wrapped (held ((List.range' start (stop + 1 - start)).filter p))
        else .finished (held ((List.range' start (stop + 1 - start)).filter p))
      else .returned (full (((List.range' start (stop + 1 - start)).filter p).take room)) := by
  have pass := countedLoop_collect p room held full body (stop + 1 - start) start []
    (Nat.zero_le room) (fun k found low high => steps k found low (by omega))
  rw [List.nil_append] at pass
  by_cases fits : ((List.range' start (stop + 1 - start)).filter p).length ≤ room
  · simp only [forInclusive, pass, if_pos fits]
  · simp only [forInclusive, pass, if_neg fits]

end LibeventPaxos.Lib
