/-!
# Runs driven by events

A system that reacts to events is a total step function, and a run is a fold over
the events that happen.  A condition on what may happen in which state is asked of
every event along the run; what each event that meets it preserves, the run preserves.
-/

namespace EventRun

universe u v

variable {State : Type u} {Event : Type v}

/-- Every event of a run meets a condition in the state it happens in. -/
def Guarded (step : State → Event → State) (guard : State → Event → Prop) :
    State → List Event → Prop
  | _, [] => True
  | state, event :: events => guard state event ∧ Guarded step guard (step state event) events

instance Guarded.decidable (step : State → Event → State) (guard : State → Event → Prop)
    [∀ state event, Decidable (guard state event)] :
    (state : State) → (events : List Event) → Decidable (Guarded step guard state events)
  | _, [] => .isTrue trivial
  | state, event :: events =>
    @instDecidableAnd _ _ _ (Guarded.decidable step guard (step state event) events)

theorem Guarded.invariant {step : State → Event → State} {guard : State → Event → Prop}
    (invariant : State → Prop)
    (preserved : ∀ state event, guard state event → invariant state → invariant (step state event))
    {state : State} {events : List Event} (guarded : Guarded step guard state events)
    (holds : invariant state) : invariant (events.foldl step state) := by
  induction events generalizing state with
  | nil => exact holds
  | cons event events ih => exact ih guarded.2 (preserved state event guarded.1 holds)

end EventRun
