import LibeventPaxos.Lib.Machine

/-!
Forward simulation between two machines: every guarded step of the one, from a reachable state, is
a guarded run of the other. What holds of the reachable states of the second then holds of the
states they stand for.
-/
namespace LibeventPaxos.Lib

namespace Machine

variable {State Event State' Event' : Type*}

/-- Steps of `low` that meet `guard` are matched by runs of `high` that meet `guard'`. -/
def Simulates (low : Machine State Event) (guard : State → Event → Prop)
    (high : Machine State' Event') (guard' : State' → Event' → Prop)
    (stands : State → State' → Prop) : Prop :=
  ∀ s t e, low.Reaches guard s → stands s t → guard s e → low.enabled s e →
    ∃ t', high.Run guard' t t' ∧ stands (low.apply s e) t'

variable {low : Machine State Event} {guard : State → Event → Prop}
  {high : Machine State' Event'} {guard' : State' → Event' → Prop}
  {stands : State → State' → Prop}

/-- A whole run is matched by a run. -/
theorem Simulates.run (simulates : low.Simulates guard high guard' stands) {s s' : State}
    {t : State'} (reached : low.Reaches guard s) (start : stands s t) (run : low.Run guard s s') :
    ∃ t', high.Run guard' t t' ∧ stands s' t' := by
  induction run with
  | refl => exact ⟨t, .refl, start⟩
  | step before allowed enabled ih =>
    obtain ⟨t', matched, stands'⟩ := ih
    obtain ⟨t'', more, stands''⟩ :=
      simulates _ t' _ (reached.extend before) stands' allowed enabled
    exact ⟨t'', matched.trans more, stands''⟩

/-- Reachable states stand for reachable states, if initial ones do. -/
theorem Simulates.reaches (simulates : low.Simulates guard high guard' stands)
    (initial : ∀ s, low.initial s → ∃ t, high.initial t ∧ stands s t) {s : State}
    (reached : low.Reaches guard s) : ∃ t, high.Reaches guard' t ∧ stands s t := by
  obtain ⟨start, starts, run⟩ := reached
  obtain ⟨t, starts', stands'⟩ := initial start starts
  obtain ⟨t', matched, stands''⟩ := simulates.run ⟨start, starts, .refl⟩ stands' run
  exact ⟨t', ⟨t, starts', matched⟩, stands''⟩

end Machine

end LibeventPaxos.Lib
