import Mathlib

/-! # Stateful stream filters

A stateful filter sees the items of a stream one at a time; for each one it answers whether to drop
it and moves to a new state. This module runs such a filter over a list, keeps the items it does not
drop, and gives the invariant rule the rest of the development reasons with: what every step keeps
true of the states bounds every item a run keeps. Nothing here names a particular filter.
-/

namespace Tera.Lib

variable {σ α : Type}

/-- The items of a stream that a filter keeps, fed in order from the given state. -/
def keptBy (step : σ → α → Bool × σ) : σ → List α → List α
  | _, [] => []
  | state, item :: rest =>
    let (dropped, next) := step state item
    (if dropped then [] else [item]) ++ keptBy step next rest

variable (step : σ → α → Bool × σ)

@[simp] theorem keptBy_nil (state : σ) : keptBy step state [] = [] := rfl

@[simp] theorem keptBy_cons (state : σ) (item : α) (rest : List α) :
    keptBy step state (item :: rest) =
      (if (step state item).1 then [] else [item]) ++ keptBy step (step state item).2 rest := rfl

/-- Every kept item passes a test when, from every state of an invariant, a step that keeps an
item only does so for items passing the test. -/
theorem keptBy_forall (invariant : σ → Prop) (test : α → Prop)
    (preserved : ∀ state item, invariant state → invariant (step state item).2)
    (sound : ∀ state item, invariant state → (step state item).1 = false → test item) :
    ∀ state items, invariant state → ∀ item ∈ keptBy step state items, test item := by
  intro state items holds
  induction items generalizing state with
  | nil => simp
  | cons item rest ih =>
    intro kept member
    rw [keptBy_cons, List.mem_append] at member
    rcases member with here | later
    · cases decided : (step state item).1 with
      | true => simp [decided] at here
      | false =>
        rw [decided, if_neg Bool.false_ne_true, List.mem_singleton] at here
        exact here ▸ sound state item holds decided
    · exact ih _ (preserved state item holds) kept later

end Tera.Lib
