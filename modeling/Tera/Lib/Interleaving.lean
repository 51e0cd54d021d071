import Mathlib

/-! # Runs of atomic steps

A component whose threads share a state, each thread's code cut into atomic steps. An action names
the step to take next, and `step` gives the state after it, or `none` where no thread is at that
step. A run is a list of actions taken in order, so every interleaving of the threads, with any
thread stopping after any step, is a run. A property kept by every step holds after every run.
Nothing here names a particular component.
-/

namespace Tera.Lib

variable {σ α : Type}

/-- The state after a list of actions, or `none` where one of them cannot be taken. -/
def runSteps (step : σ → α → Option σ) : σ → List α → Option σ
  | state, [] => some state
  | state, action :: rest => (step state action).bind fun next => runSteps step next rest

variable (step : σ → α → Option σ)

@[simp] theorem runSteps_cons (state : σ) (action : α) (rest : List α) :
    runSteps step state (action :: rest) =
      (step state action).bind fun next => runSteps step next rest := rfl

/-- Invariant rule: what every step keeps holds after every run. -/
theorem runSteps_invariant (inv : σ → Prop)
    (keeps : ∀ state action next, inv state → step state action = some next → inv next) :
    ∀ (actions : List α) (state final : σ), inv state →
      runSteps step state actions = some final → inv final
  | [], state, final, holds, ran => by
    cases ran
    exact holds
  | action :: rest, state, final, holds, ran => by
    obtain ⟨next, stepped, ranRest⟩ := Option.bind_eq_some_iff.mp ran
    exact runSteps_invariant inv keeps rest next final (keeps state action next holds stepped)
      ranRest

/-- Invariant rule for the runs whose actions are all of an allowed kind: what every allowed step
keeps holds after every such run. -/
theorem runSteps_invariant_of_allowed (allowed : α → Prop) (inv : σ → Prop)
    (keeps : ∀ state action next, allowed action → inv state → step state action = some next →
      inv next) :
    ∀ (actions : List α) (state final : σ), (∀ action ∈ actions, allowed action) → inv state →
      runSteps step state actions = some final → inv final
  | [], state, final, _, holds, ran => by
    cases ran
    exact holds
  | action :: rest, state, final, onlyAllowed, holds, ran => by
    obtain ⟨next, stepped, ranRest⟩ := Option.bind_eq_some_iff.mp ran
    have allowedHere : allowed action := onlyAllowed action List.mem_cons_self
    exact runSteps_invariant_of_allowed allowed inv keeps rest next final
      (fun other mem => onlyAllowed other (List.mem_cons_of_mem _ mem))
      (keeps state action next allowedHere holds stepped) ranRest

/-- Progress rule: where every allowed step from a state of the invariant can be taken and keeps the
invariant, every run of allowed steps can be taken to its end, and ends in the invariant. -/
theorem runSteps_progress (allowed : α → Prop) (inv : σ → Prop)
    (progress : ∀ state action, allowed action → inv state →
      ∃ next, step state action = some next ∧ inv next) :
    ∀ (actions : List α) (state : σ), (∀ action ∈ actions, allowed action) → inv state →
      ∃ final, runSteps step state actions = some final ∧ inv final
  | [], state, _, holds => ⟨state, rfl, holds⟩
  | action :: rest, state, onlyAllowed, holds => by
    obtain ⟨next, stepped, nextHolds⟩ :=
      progress state action (onlyAllowed action List.mem_cons_self) holds
    obtain ⟨final, ran, finalHolds⟩ := runSteps_progress allowed inv progress rest next
      (fun other mem => onlyAllowed other (List.mem_cons_of_mem _ mem)) nextHolds
    exact ⟨final, by rw [runSteps_cons, stepped, Option.bind_some, ran], finalHolds⟩

end Tera.Lib
