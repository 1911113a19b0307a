import Mathlib

/-!
# Guarded partial transition systems

A system has a guard and an option-valued step.  The guard `enabled` says which
events the parties of a protocol may issue in a state.  The step says what the
event does, and its failure `none` stands for a run-time failure of the modelled
program (a failed assertion, an arithmetic underflow).  Keeping the two apart
lets a development state that no permitted event ever fails.
-/

namespace Syq.Lib

universe u v

/-- A labelled transition system whose events are guarded and whose steps may
fail. -/
structure System (σ : Type u) (ε : Type v) where
  enabled : σ → ε → Prop
  decidableEnabled : ∀ state event, Decidable (enabled state event)
  step : σ → ε → Option σ

namespace System

variable {σ : Type u} {ε : Type v} (sys : System σ ε)

instance (state : σ) (event : ε) : Decidable (sys.enabled state event) :=
  sys.decidableEnabled state event

/-- Perform a list of events.  The run stops as soon as an event is not
permitted or fails. -/
def exec : σ → List ε → Option σ
  | state, [] => some state
  | state, event :: rest =>
    if sys.enabled state event then
      (sys.step state event).bind fun next => exec next rest
    else none

@[simp]
theorem exec_nil (state : σ) : sys.exec state [] = some state :=
  rfl

theorem exec_cons_eq_some_iff {state target : σ} {event : ε} {rest : List ε} :
    sys.exec state (event :: rest) = some target ↔
      sys.enabled state event ∧
        ∃ next, sys.step state event = some next ∧ sys.exec next rest = some target := by
  by_cases permitted : sys.enabled state event
  · simp [exec, permitted, Option.bind_eq_some_iff]
  · simp [exec, permitted]

theorem exec_append (state : σ) (first second : List ε) :
    sys.exec state (first ++ second) =
      (sys.exec state first).bind fun middle => sys.exec middle second := by
  induction first generalizing state with
  | nil => simp
  | cons event rest ih =>
    by_cases permitted : sys.enabled state event
    · cases stepEq : sys.step state event with
      | none => simp [exec, permitted, stepEq]
      | some next => simp [exec, permitted, stepEq, ih]
    · simp [exec, permitted]

/-- The invariant rule: what every permitted successful step preserves holds at
the end of every run that starts in it. -/
theorem exec_invariant {Inv : σ → Prop}
    (preserved : ∀ {state event next}, Inv state → sys.enabled state event →
      sys.step state event = some next → Inv next)
    {source target : σ} {events : List ε} (initial : Inv source)
    (run : sys.exec source events = some target) : Inv target := by
  induction events generalizing source with
  | nil =>
    obtain rfl : source = target := by simpa using run
    exact initial
  | cons event rest ih =>
    obtain ⟨permitted, next, stepEq, tail⟩ := sys.exec_cons_eq_some_iff.mp run
    exact ih (preserved initial permitted stepEq) tail

/-- What every step takes backwards held at the start of a run that ends in it. -/
theorem exec_backward {Past : σ → Prop}
    (backward : ∀ {state event next}, sys.step state event = some next → Past next → Past state)
    {source target : σ} {events : List ε} (final : Past target)
    (run : sys.exec source events = some target) : Past source := by
  induction events generalizing source with
  | nil =>
    obtain rfl : source = target := by simpa using run
    exact final
  | cons event rest ih =>
    obtain ⟨-, next, stepEq, tail⟩ := sys.exec_cons_eq_some_iff.mp run
    exact backward stepEq (ih tail)

/-- The erasure rule: when the steps of `own` events do not show in `view` and every
other step commutes with it, erasing the own events of a run leaves a run of the
views.  The steps may be looked at with an invariant and with what the end of the
run says about its past. -/
theorem exec_erase {Inv Past : σ → Prop} {view : σ → σ} {own : ε → Bool}
    (preserved : ∀ {state event next}, Inv state → sys.enabled state event →
      sys.step state event = some next → Inv next)
    (backward : ∀ {state event next}, sys.step state event = some next → Past next → Past state)
    (hidden : ∀ {state event next}, Inv state → Past next → own event = true →
      sys.enabled state event → sys.step state event = some next → view next = view state)
    (commutes : ∀ {state event next}, Inv state → own event = false → sys.enabled state event →
      sys.step state event = some next →
        sys.enabled (view state) event ∧ sys.step (view state) event = some (view next))
    {source target : σ} {events : List ε} (initial : Inv source) (final : Past target)
    (run : sys.exec source events = some target) :
    sys.exec (view source) (events.filter fun event => !own event) = some (view target) := by
  induction events generalizing source with
  | nil =>
    obtain rfl : source = target := by simpa using run
    simp
  | cons event rest ih =>
    obtain ⟨permitted, next, stepEq, tail⟩ := sys.exec_cons_eq_some_iff.mp run
    have later := ih (preserved initial permitted stepEq) tail
    cases isOwn : own event with
    | true =>
      have past := sys.exec_backward backward final tail
      rw [List.filter_cons_of_neg (by simp [isOwn]),
        ← hidden initial past isOwn permitted stepEq]
      exact later
    | false =>
      rw [List.filter_cons_of_pos (by simp [isOwn])]
      have seen := commutes initial isOwn permitted stepEq
      exact sys.exec_cons_eq_some_iff.mpr ⟨seen.1, _, seen.2, later⟩

/-- The runs of `sys` whose steps all meet `condition`, which may look at the
state before the step and at the event. -/
def restrict (condition : σ → ε → Prop)
    [decidable : ∀ state event, Decidable (condition state event)] : System σ ε where
  enabled state event := sys.enabled state event ∧ condition state event
  decidableEnabled _ _ := inferInstance
  step := sys.step

theorem exec_of_restrict {condition : σ → ε → Prop}
    [decidable : ∀ state event, Decidable (condition state event)]
    {source target : σ} {events : List ε}
    (run : (sys.restrict condition).exec source events = some target) :
    sys.exec source events = some target := by
  induction events generalizing source with
  | nil => exact run
  | cons event rest ih =>
    obtain ⟨permitted, next, stepEq, tail⟩ :=
      (sys.restrict condition).exec_cons_eq_some_iff.mp run
    exact sys.exec_cons_eq_some_iff.mpr
      ⟨permitted.1, next, stepEq, ih tail⟩

end System

end Syq.Lib
