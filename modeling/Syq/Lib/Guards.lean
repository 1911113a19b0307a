import Mathlib

/-!
# What a successful check establishes

A program of checks succeeds exactly when each of its steps does.  These equivalences
turn such a program into the conjunction of what it checks.
-/

namespace Syq.Lib

universe u v

variable {ε ε' : Type u} {α β : Type v} {result : α}

@[simp]
theorem bind_eq_ok_iff {first : Except ε α} {next : α → Except ε β} {result : β} :
    (first >>= next) = .ok result ↔ ∃ value, first = .ok value ∧ next value = .ok result := by
  cases first <;> simp [bind, Except.bind]

@[simp]
theorem pure_eq_ok_iff {value : α} :
    (pure value : Except ε α) = .ok result ↔ value = result := by
  simp [pure, Except.pure]

@[simp]
theorem mapError_eq_ok_iff {first : Except ε α} {rename : ε → ε'} :
    first.mapError rename = .ok result ↔ first = .ok result := by
  cases first <;> simp [Except.mapError]

/-- A check refuses when its condition holds. -/
@[simp]
theorem guard_eq_ok_iff {refuse : Prop} [Decidable refuse] {error : ε} {next : Except ε α} :
    (if refuse then .error error else next) = .ok result ↔ ¬ refuse ∧ next = .ok result := by
  by_cases refused : refuse <;> simp [refused]

/-- A loop of checks succeeds when every one does. -/
theorem forM_eq_ok_iff {items : List α} {check : α → Except ε PUnit} :
    items.forM check = .ok ⟨⟩ ↔ ∀ item ∈ items, check item = .ok ⟨⟩ := by
  induction items with
  | nil => simp [pure, Except.pure]
  | cons item rest ih =>
    change (check item >>= fun _ => rest.forM check) = _ ↔ _
    rw [bind_eq_ok_iff, List.forall_mem_cons]
    constructor
    · rintro ⟨⟨⟩, first, later⟩
      exact ⟨first, ih.mp later⟩
    · rintro ⟨first, later⟩
      exact ⟨⟨⟩, first, ih.mpr later⟩

/-- A loop that ends with one more item takes the items before it first. -/
theorem foldlM_concat_eq_ok_iff {step : β → α → Except ε β} {state result : β}
    {items : List α} {item : α} :
    (items ++ [item]).foldlM step state = .ok result ↔
      ∃ before, items.foldlM step state = .ok before ∧ step before item = .ok result := by
  simp

section Loops

variable {P : List α → β → Prop} {start : β} {items : List α}

/-- The rule for a loop: what holds of the items gone through and the state at the start,
and after one more item, holds at the end. -/
theorem foldl_rule {step : β → α → β} (initial : P [] start)
    (preserved : ∀ {done item state}, done ++ [item] <+: items → P done state →
      P (done ++ [item]) (step state item)) : P items (items.foldl step start) := by
  induction items using List.reverseRecOn with
  | nil => exact initial
  | append_singleton done item ih =>
    rw [List.foldl_concat]
    exact preserved (List.prefix_refl _)
      (ih fun before => preserved (before.trans (List.prefix_append ..)))

/-- The same for a loop that may be left with an error. -/
@[elab_as_elim]
theorem foldlM_rule {step : β → α → Except ε β} {last : β}
    (ran : items.foldlM step start = .ok last) (initial : P [] start)
    (preserved : ∀ {done item state next}, done ++ [item] <+: items → P done state →
      step state item = .ok next → P (done ++ [item]) next) : P items last := by
  induction items using List.reverseRecOn generalizing last with
  | nil =>
    cases ran
    exact initial
  | append_singleton done item ih =>
    rcases foldlM_concat_eq_ok_iff.mp ran with ⟨middle, earlier, stepped⟩
    refine preserved (List.prefix_refl _) (ih earlier fun before => ?_) stepped
    exact preserved (before.trans (List.prefix_append ..))

end Loops

end Syq.Lib
