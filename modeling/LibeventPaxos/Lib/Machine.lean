import Mathlib.Tactic.TypeStar

/-!
State machines driven by events, and the invariant rule for runs whose every step meets a
guard.
-/
namespace LibeventPaxos.Lib

/-- A machine whose successor is determined by the event; `enabled` says which events the
environment may offer in which state. -/
structure Machine (State Event : Type*) where
  initial : State → Prop
  enabled : State → Event → Prop
  apply : State → Event → State

namespace Machine

variable {State Event : Type*} (m : Machine State Event)

/-- `Run guard s t`: a finite run from `s` to `t` all of whose steps meet `guard`. -/
inductive Run (guard : State → Event → Prop) (s : State) : State → Prop
  | refl : Run guard s s
  | step {t : State} {e : Event} (before : Run guard s t) (allowed : guard t e)
      (enabled : m.enabled t e) : Run guard s (m.apply t e)

/-- Reachable by a run all of whose steps meet `guard`. -/
def Reaches (guard : State → Event → Prop) (t : State) : Prop :=
  ∃ s, m.initial s ∧ m.Run guard s t

/-- Every step is allowed: plain reachability. -/
def anything : State → Event → Prop := fun _ _ => True

instance (s : State) (e : Event) : Decidable (anything s e) := .isTrue trivial

variable {m}

theorem Run.trans {guard : State → Event → Prop} {s t u : State}
    (left : m.Run guard s t) (right : m.Run guard t u) : m.Run guard s u := by
  induction right with
  | refl => exact left
  | step _ allowed enabled ih => exact .step ih allowed enabled

theorem Run.mono {guard weaker : State → Event → Prop} {s t : State}
    (implies : ∀ s e, guard s e → weaker s e) (run : m.Run guard s t) : m.Run weaker s t := by
  induction run with
  | refl => exact .refl
  | step _ allowed enabled ih => exact .step ih (implies _ _ allowed) enabled

theorem Reaches.extend {guard : State → Event → Prop} {s t : State}
    (reached : m.Reaches guard s) (run : m.Run guard s t) : m.Reaches guard t := by
  obtain ⟨start, initial, before⟩ := reached
  exact ⟨start, initial, before.trans run⟩

theorem Reaches.mono {guard weaker : State → Event → Prop} {t : State}
    (implies : ∀ s e, guard s e → weaker s e) (reached : m.Reaches guard t) :
    m.Reaches weaker t := by
  obtain ⟨start, initial, run⟩ := reached
  exact ⟨start, initial, run.mono implies⟩

theorem Reaches.step {guard : State → Event → Prop} {s : State} {e : Event}
    (reached : m.Reaches guard s) (allowed : guard s e) (enabled : m.enabled s e) :
    m.Reaches guard (m.apply s e) :=
  reached.extend (.step .refl allowed enabled)

/-- What every guarded step preserves, every guarded run preserves. -/
theorem Run.invariant {guard : State → Event → Prop} {I : State → Prop} {s t : State}
    (run : m.Run guard s t)
    (preserved : ∀ s e, I s → guard s e → m.enabled s e → I (m.apply s e)) (start : I s) :
    I t := by
  induction run with
  | refl => exact start
  | step _ allowed enabled ih => exact preserved _ _ ih allowed enabled

/-- The invariant rule. -/
theorem Reaches.invariant {guard : State → Event → Prop} {I : State → Prop} {t : State}
    (reached : m.Reaches guard t) (start : ∀ s, m.initial s → I s)
    (preserved : ∀ s e, I s → guard s e → m.enabled s e → I (m.apply s e)) : I t := by
  obtain ⟨s, initial, run⟩ := reached
  exact run.invariant preserved (start s initial)

/-- The invariant rule on top of facts already known of every reachable state. -/
theorem Reaches.invariant_using {guard : State → Event → Prop} {I : State → Prop} {t : State}
    (reached : m.Reaches guard t) (start : ∀ s, m.initial s → I s)
    (preserved : ∀ s e, m.Reaches guard s → I s → guard s e → m.enabled s e →
      I (m.apply s e)) : I t := by
  have both : m.Reaches guard t ∧ I t :=
    reached.invariant (I := fun s => m.Reaches guard s ∧ I s)
      (fun s initial => ⟨⟨s, initial, .refl⟩, start s initial⟩)
      (fun s e known allowed enabled =>
        ⟨known.1.step allowed enabled, preserved s e known.1 known.2 allowed enabled⟩)
  exact both.2

/-- All events of a list are enabled and allowed, one after the other. -/
def Accepts (m : Machine State Event) (guard : State → Event → Prop) :
    State → List Event → Prop
  | _, [] => True
  | s, e :: es => guard s e ∧ m.enabled s e ∧ Accepts m guard (m.apply s e) es

instance Accepts.decidable (m : Machine State Event) (guard : State → Event → Prop)
    [∀ s e, Decidable (guard s e)] [∀ s e, Decidable (m.enabled s e)] :
    ∀ s es, Decidable (m.Accepts guard s es)
  | _, [] => .isTrue trivial
  | s, e :: es =>
    have := Accepts.decidable m guard (m.apply s e) es
    inferInstanceAs (Decidable (guard s e ∧ m.enabled s e ∧ m.Accepts guard (m.apply s e) es))

theorem Accepts.snoc {guard : State → Event → Prop} {s : State} {es : List Event} {e : Event}
    (accepted : m.Accepts guard s es) (allowed : guard (es.foldl m.apply s) e)
    (enabled : m.enabled (es.foldl m.apply s) e) : m.Accepts guard s (es ++ [e]) := by
  induction es generalizing s with
  | nil => exact ⟨allowed, enabled, trivial⟩
  | cons first es ih =>
    obtain ⟨allowed', enabled', rest⟩ := accepted
    exact ⟨allowed', enabled', ih rest allowed enabled⟩

/-- Every event of a list meets the guard where it happens. -/
def Meets (m : Machine State Event) (guard : State → Event → Prop) : State → List Event → Prop
  | _, [] => True
  | s, e :: es => guard s e ∧ Meets m guard (m.apply s e) es

instance Meets.decidable (m : Machine State Event) (guard : State → Event → Prop)
    [∀ s e, Decidable (guard s e)] : ∀ s es, Decidable (m.Meets guard s es)
  | _, [] => .isTrue trivial
  | s, e :: es =>
    have := Meets.decidable m guard (m.apply s e) es
    inferInstanceAs (Decidable (guard s e ∧ m.Meets guard (m.apply s e) es))

theorem Accepts.both {guard guard' : State → Event → Prop} {s : State} {es : List Event}
    (accepted : m.Accepts guard s es) (meets : m.Meets guard' s es) :
    m.Accepts (fun s e => guard s e ∧ guard' s e) s es := by
  induction es generalizing s with
  | nil => trivial
  | cons first es ih =>
    obtain ⟨allowed, enabled, rest⟩ := accepted
    exact ⟨⟨allowed, meets.1⟩, enabled, ih rest meets.2⟩

theorem accepts_append {guard : State → Event → Prop} {s : State} {es es' : List Event} :
    m.Accepts guard s (es ++ es') ↔
      m.Accepts guard s es ∧ m.Accepts guard (es.foldl m.apply s) es' := by
  induction es generalizing s with
  | nil => exact ⟨fun rest => ⟨trivial, rest⟩, And.right⟩
  | cons first es ih =>
    rw [List.cons_append, Accepts, Accepts, ih, List.foldl_cons, and_assoc, and_assoc]

theorem meets_append {guard : State → Event → Prop} {s : State} {es es' : List Event} :
    m.Meets guard s (es ++ es') ↔
      m.Meets guard s es ∧ m.Meets guard (es.foldl m.apply s) es' := by
  induction es generalizing s with
  | nil => exact ⟨fun rest => ⟨trivial, rest⟩, And.right⟩
  | cons first es ih => rw [List.cons_append, Meets, Meets, ih, List.foldl_cons, and_assoc]

/-- An accepted list of events is a run. -/
theorem Accepts.run {guard : State → Event → Prop} {s : State} {es : List Event}
    (accepted : m.Accepts guard s es) : m.Run guard s (es.foldl m.apply s) := by
  induction es generalizing s with
  | nil => exact .refl
  | cons e es ih =>
    obtain ⟨allowed, enabled, rest⟩ := accepted
    have first : m.Run guard s (m.apply s e) := .step .refl allowed enabled
    exact first.trans (ih rest)

end Machine

end LibeventPaxos.Lib
