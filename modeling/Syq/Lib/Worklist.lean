import Mathlib

/-!
# Draining a stack of work

A loop takes the newest item off a stack, visits it, and pushes what the visit finds.  A visit
may fail, and the loop then ends with its error.  The loop ends by itself if some potential of
the state pays for everything that visits push.
-/

namespace Syq.Lib

variable {σ α ε : Type}

/-- Visit items until the stack is empty.  The first item of the list is the newest. -/
def drain (visit : σ → α → Except ε (σ × List α)) : Nat → σ → List α → Option (Except ε σ)
  | _, state, [] => some (.ok state)
  | 0, _, _ :: _ => none
  | fuel + 1, state, item :: rest =>
    match visit state item with
    | .error error => some (.error error)
    | .ok (next, pushed) => drain visit fuel next (pushed ++ rest)

variable {visit : σ → α → Except ε (σ × List α)}

/-- A potential that pays for the pushed items bounds the number of visits. -/
theorem drain_isSome {potential : σ → Nat}
    (pays : ∀ {state item next pushed}, visit state item = .ok (next, pushed) →
      potential next + pushed.length ≤ potential state)
    {fuel : Nat} {state : σ} {stack : List α}
    (enough : potential state + stack.length ≤ fuel) :
    (drain visit fuel state stack).isSome = true := by
  induction fuel generalizing state stack with
  | zero =>
    have empty : stack = [] := List.length_eq_zero_iff.mp (by omega)
    subst empty
    rfl
  | succ fuel ih =>
    cases stack with
    | nil => rfl
    | cons item rest =>
      rw [drain]
      rcases visited : visit state item with error | ⟨next, pushed⟩
      · rfl
      · apply ih
        have paid := pays visited
        rw [List.length_cons] at enough
        rw [List.length_append]
        omega

/-- What every visit preserves of the state and the stack holds when the stack is empty. -/
theorem drain_invariant {Inv : σ → List α → Prop}
    (preserved : ∀ {state item rest next pushed}, Inv state (item :: rest) →
      visit state item = .ok (next, pushed) → Inv next (pushed ++ rest))
    {fuel : Nat} {state final : σ} {stack : List α} (initial : Inv state stack)
    (drained : drain visit fuel state stack = some (.ok final)) : Inv final [] := by
  induction fuel generalizing state stack with
  | zero =>
    cases stack with
    | nil =>
      cases drained
      exact initial
    | cons item rest => cases drained
  | succ fuel ih =>
    cases stack with
    | nil =>
      cases drained
      exact initial
    | cons item rest =>
      rw [drain] at drained
      rcases visited : visit state item with error | ⟨next, pushed⟩
      · rw [visited] at drained
        cases drained
      · rw [visited] at drained
        exact ih (preserved initial visited) drained

end Syq.Lib
