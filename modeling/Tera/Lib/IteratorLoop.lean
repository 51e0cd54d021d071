import Mathlib

/-! # Loops over an iterator

A loop `for (; it->Valid();) { ... }` over a forward iterator runs its body at the iterator's
entry; the body either moves the iterator on (by one entry, or past several it consumed) and goes
on, or breaks. The iterator is the list of the entries from its position on. The loop runs with one
unit of fuel a pass, and this module gives its two rules: a body that always moves forward needs
no more fuel than the iterator has entries, and a property every pass keeps holds when the loop
ends. Nothing here names a particular loop.
-/

namespace Tera.Lib

/-- What one pass of a loop over an iterator does: go on with a new state from the position the
pass leaves the iterator at, or break with a new state. -/
inductive Pass (σ α : Type) where
  | next (state : σ) (it : List α)
  | stop (state : σ)

variable {σ α : Type}

/-- The state a pass ends with. -/
def Pass.state : Pass σ α → σ
  | .next state _ => state
  | .stop state => state

/-- Run a loop body over an iterator: the loop ends when the iterator is exhausted, when a pass
breaks, or when the fuel runs out. -/
def iterate (body : σ → α → List α → Pass σ α) : Nat → σ → List α → σ
  | 0, state, _ => state
  | _ + 1, state, [] => state
  | fuel + 1, state, item :: rest =>
    match body state item rest with
    | .next state it => iterate body fuel state it
    | .stop state => state

/-- A body that moves forward: a pass that goes on leaves the iterator at a suffix of the entries
after the one it ran at. -/
def Advances (body : σ → α → List α → Pass σ α) : Prop :=
  ∀ state item rest state' it, body state item rest = .next state' it → it <:+ rest

variable (body : σ → α → List α → Pass σ α)

@[simp] theorem iterate_nil (fuel : Nat) (state : σ) : iterate body fuel state [] = state := by
  cases fuel <;> rfl

theorem iterate_cons (fuel : Nat) (state : σ) (item : α) (rest : List α) :
    iterate body (fuel + 1) state (item :: rest) =
      match body state item rest with
      | .next state it => iterate body fuel state it
      | .stop state => state := rfl

/-- Fuel rule: a loop whose body moves forward gives the same result with any fuel at least the
number of entries left. -/
theorem iterate_fuel_eq (advances : Advances body) :
    ∀ (fuel fuel' : Nat) (state : σ) (it : List α), it.length ≤ fuel → it.length ≤ fuel' →
      iterate body fuel state it = iterate body fuel' state it := by
  intro fuel
  induction fuel with
  | zero =>
    intro fuel' state it enough _
    rw [List.eq_nil_of_length_eq_zero (Nat.le_zero.mp enough), iterate_nil, iterate_nil]
  | succ fuel ih =>
    intro fuel' state it enough enough'
    cases it with
    | nil => rw [iterate_nil, iterate_nil]
    | cons item rest =>
      obtain ⟨fuel', rfl⟩ : ∃ smaller, fuel' = smaller + 1 :=
        Nat.exists_eq_add_one.mpr (by simp at enough'; omega)
      rw [iterate_cons, iterate_cons]
      cases pass : body state item rest with
      | next state' it' =>
        -- the pass left at most the entries after the current one
        have shorter := (advances state item rest state' it' pass).length_le
        simp only [List.length_cons] at enough enough'
        exact ih fuel' state' it' (by omega) (by omega)
      | stop state' => rfl

/-- Invariant rule: a property of the state that every pass keeps holds when the loop ends. -/
theorem iterate_invariant (invariant : σ → Prop)
    (preserved : ∀ state item rest, invariant state → invariant (body state item rest).state) :
    ∀ (fuel : Nat) (state : σ) (it : List α), invariant state →
      invariant (iterate body fuel state it) := by
  intro fuel
  induction fuel with
  | zero => intro state it holds; exact holds
  | succ fuel ih =>
    intro state it holds
    cases it with
    | nil => rwa [iterate_nil]
    | cons item rest =>
      have kept := preserved state item rest holds
      rw [iterate_cons]
      cases pass : body state item rest with
      | next state' it' =>
        rw [pass] at kept
        exact ih state' it' kept
      | stop state' =>
        rw [pass] at kept
        exact kept

/-- Chunk rule with look-ahead: over the concatenated encodings of some items, a loop whose pass
at an item's first entry consumes exactly that item's encoding, whatever valid items follow it, runs
the items' steps in order. -/
theorem iterate_flatMap_of_lookahead {β : Type} (encode : β → List α) (valid : β → Prop)
    (step : σ → β → σ) (nonempty : ∀ item, valid item → encode item ≠ [])
    (pass : ∀ (state : σ) (item : β) (later : List β) (first : α) (rest : List α), valid item →
      (∀ other ∈ later, valid other) → encode item = first :: rest →
      body state first (rest ++ later.flatMap encode) = .next (step state item) (later.flatMap encode)) :
    ∀ (items : List β) (fuel : Nat) (state : σ), (∀ item ∈ items, valid item) →
      (items.flatMap encode).length ≤ fuel →
      iterate body fuel state (items.flatMap encode) = items.foldl step state := by
  intro items
  induction items with
  | nil => intro fuel state _ _; rw [List.flatMap_nil, iterate_nil, List.foldl_nil]
  | cons item later ih =>
    intro fuel state allValid enough
    have itemValid := allValid item List.mem_cons_self
    have laterValid : ∀ other ∈ later, valid other :=
      fun other member => allValid other (List.mem_cons_of_mem item member)
    obtain ⟨first, rest, encoded⟩ := List.exists_cons_of_ne_nil (nonempty item itemValid)
    rw [List.flatMap_cons, encoded, List.length_append, List.length_cons] at enough
    obtain ⟨fuel, rfl⟩ : ∃ smaller, fuel = smaller + 1 := Nat.exists_eq_add_one.mpr (by omega)
    rw [List.flatMap_cons, encoded, List.cons_append, iterate_cons,
      pass state item later first rest itemValid laterValid encoded, List.foldl_cons]
    exact ih fuel _ laterValid (by omega)

/-- Chunk rule: over the concatenated encodings of some items, a loop whose pass at an item's first
byte consumes exactly that item's encoding runs the items' steps in order. -/
theorem iterate_flatMap {β : Type} (encode : β → α × List α) (valid : β → Prop)
    (step : σ → β → σ)
    (pass : ∀ state item more, valid item →
      body state (encode item).1 ((encode item).2 ++ more) = .next (step state item) more) :
    ∀ (items : List β) (fuel : Nat) (state : σ), (∀ item ∈ items, valid item) →
      (items.flatMap fun item => (encode item).1 :: (encode item).2).length ≤ fuel →
      iterate body fuel state (items.flatMap fun item => (encode item).1 :: (encode item).2) =
        items.foldl step state :=
  iterate_flatMap_of_lookahead body _ valid step (fun _ _ => List.cons_ne_nil _ _)
    (fun state item later _ _ itemValid _ encoded => by
      obtain ⟨rfl, rfl⟩ := List.cons.inj encoded
      exact pass state item _ itemValid)

end Tera.Lib
