import Syq.Lib.Collections

/-!
# Work budgets

A worker's budget grows with replies that come in time and shrinks with late ones.  An estimate
that would overflow saturates; `none` is a panic.
-/

namespace Syq.Transfer

open Syq.Lib

structure WorkSize where
  bytes : Nat
  files : Nat
  deriving DecidableEq

/-- The limits and the time in nanoseconds that a reply may take. -/
structure WorkBudget where
  limit : WorkSize
  maxBytes : Nat
  target : Nat
  recheckLatency : Bool
  everSlow : Bool
  deriving DecidableEq

/-- A value between two bounds, which must be in order. -/
def clamp (value low high : Nat) : Option Nat :=
  if high < low then none else some (min (max value low) high)

/-- The least 64-bit power of two that is not below a number. -/
def nextPowerOfTwo (value : Nat) : Option Nat :=
  if 2 ^ Nat.clog 2 value ≤ u64Max then some (2 ^ Nat.clog 2 value) else none

/-- A limit after some amount took some time. -/
def resized (current amount elapsed target : Nat) : Option Nat :=
  if amount = 0 then some current
  else if elapsed = 0 then none
  else do
    -- A late reply says nothing about how little would have been in time.
    let measured := if target < elapsed then max amount current else amount
    let estimate ← clamp (min (measured * target) (2 ^ 128 - 1) / elapsed) 1
      (min (current * 4) u64Max)
    some (if elapsed ≤ target then max estimate current else min estimate current)

namespace WorkBudget

def default : WorkBudget where
  limit := ⟨65536, 64⟩
  maxBytes := 1048576
  target := 250000000
  recheckLatency := false
  everSlow := false

def ranges (maxBytes target : Nat) (startingBytes : Option Nat) : WorkBudget :=
  { WorkBudget.default with
    limit := ⟨min (max (startingBytes.getD 1048576) 512) maxBytes, 0⟩
    maxBytes
    target }

def requestBytes (budget : WorkBudget) : Option Nat :=
  (nextPowerOfTwo (max budget.limit.bytes 512)).map (min · budget.maxBytes)

/-- The time of a reply as it is compared with the target: a microsecond at least. -/
def counted (elapsed : Nat) : Nat :=
  max elapsed 1000

def observe (budget : WorkBudget) (work : WorkSize) (elapsed : Nat) : Option WorkBudget := do
  let recheckLatency := budget.recheckLatency || decide (budget.target < elapsed)
  let bytes ← resized budget.limit.bytes work.bytes (counted elapsed) budget.target
  let files ← resized budget.limit.files work.files (counted elapsed) budget.target
  some { budget with
    limit := ⟨min bytes budget.maxBytes, min files 2048⟩
    recheckLatency
    everSlow := budget.everSlow || recheckLatency }

/-- The longest duration in nanoseconds. -/
def durationMax : Nat :=
  (u64Max + 1) * 1000000000 - 1

/-- A full window of round trips is allowed, and a quarter of a second at least. -/
def setLatency (budget : WorkBudget) (roundTrip : Nat) : WorkBudget :=
  { budget with target := max 250000000 (min (roundTrip * 4) durationMax) }

/-- `periodic` is whether the time of the next check has come; only then may the target fall. -/
def refreshedLatency (budget : WorkBudget) (roundTrip : Nat) (periodic : Bool) : WorkBudget :=
  let measured := (budget.setLatency roundTrip).target
  { budget with
    target := if periodic then measured else max measured budget.target
    recheckLatency := false }

end WorkBudget

/-- What a worker does to its budget. -/
inductive BudgetEvent where
  | observe (work : WorkSize) (elapsed : Nat)
  | setLatency (roundTrip : Nat)
  | refreshedLatency (roundTrip : Nat) (periodic : Bool)
  deriving DecidableEq

/-- The files that an event counts. -/
def BudgetEvent.files : BudgetEvent → Nat
  | .observe work _ => work.files
  | _ => 0

namespace WorkBudget

def step (budget : WorkBudget) : BudgetEvent → Option WorkBudget
  | .observe work elapsed => budget.observe work elapsed
  | .setLatency roundTrip => some (budget.setLatency roundTrip)
  | .refreshedLatency roundTrip periodic => some (budget.refreshedLatency roundTrip periodic)

def run (budget : WorkBudget) (events : List BudgetEvent) : Option WorkBudget :=
  events.foldlM step budget

end WorkBudget

/-! ## One observation -/

/-- What an observation may do to a limit. -/
structure Reacts (onTime : Prop) (amount before after : Nat) : Prop where
  unused : amount = 0 → after = before
  kept : onTime → before ≤ after
  fourfold : onTime → after ≤ 4 * before
  lowered : ¬ onTime → after ≤ before
  positive : 0 < before → 0 < after

/-- A limit within its ceiling reacts, and does not panic, unless something is counted against
no limit at all. -/
theorem exists_resized {current amount elapsed ceiling : Nat} (target : Nat) (timed : 0 < elapsed)
    (within : current ≤ ceiling) (small : ceiling ≤ u64Max) (some : 0 < current ∨ amount = 0) :
    ∃ next, resized current amount elapsed target = .some next ∧
      Reacts (elapsed ≤ target) amount current (min next ceiling) := by
  unfold resized
  by_cases nothing : amount = 0
  · rw [if_pos nothing]
    refine ⟨current, rfl, ?_⟩
    rw [min_eq_left within]
    exact ⟨fun _ => rfl, fun _ => le_rfl, fun _ => by omega, fun _ => le_rfl, id⟩
  · have positive : 0 < current := some.resolve_right nothing
    have ordered : ¬ min (current * 4) u64Max < 1 := by omega
    simp only [clamp]
    rw [if_neg nothing, if_neg timed.ne', if_neg ordered]
    generalize min (_ * target) _ / elapsed = quotient
    refine ⟨_, rfl, fun unused => absurd unused nothing, ?_, ?_, ?_, ?_⟩
    · intro onTime
      rw [if_pos onTime]
      omega
    · intro onTime
      rw [if_pos onTime]
      omega
    · intro late
      rw [if_neg late]
      omega
    · split <;> omega

namespace WorkBudget

variable {start budget : WorkBudget}

/-- What a budget keeps of its start, where those for ranges have no limit for files.  The
target is free. -/
structure InBounds (start budget : WorkBudget) : Prop where
  ceiling : budget.maxBytes = start.maxBytes
  positive : 0 < budget.limit.bytes
  bytes : budget.limit.bytes ≤ start.maxBytes
  files : budget.limit.files ≤ 2048
  counts : budget.limit.files = 0 ↔ start.limit.files = 0

theorem InBounds.observe {work : WorkSize} (inBounds : InBounds start budget)
    (small : start.maxBytes ≤ u64Max) (fits : start.limit.files = 0 → work.files = 0)
    (elapsed : Nat) :
    ∃ next, budget.observe work elapsed = some next ∧ InBounds start next ∧
      Reacts (counted elapsed ≤ budget.target) work.bytes budget.limit.bytes next.limit.bytes ∧
      Reacts (counted elapsed ≤ budget.target) work.files budget.limit.files next.limit.files := by
  have timed : 0 < counted elapsed := by
    unfold counted
    omega
  have counts : 0 < budget.limit.files ∨ work.files = 0 := by
    rw [Nat.pos_iff_ne_zero, ne_eq, inBounds.counts]
    exact (em _).symm.imp_right fits
  rcases exists_resized budget.target timed inBounds.bytes small (.inl inBounds.positive) with
    ⟨bytes, bytesEq, bytesReact⟩
  rcases exists_resized budget.target timed inBounds.files (by decide) counts with
    ⟨files, filesEq, filesReact⟩
  refine ⟨_, by rw [WorkBudget.observe, bytesEq, filesEq]; rfl, ?_, ?_, filesReact⟩
  · rw [inBounds.ceiling]
    refine ⟨rfl, bytesReact.positive inBounds.positive, min_le_right _ _, min_le_right _ _, ?_⟩
    rw [← inBounds.counts]
    constructor
    · intro none
      by_contra some
      exact (filesReact.positive (Nat.pos_of_ne_zero some)).ne' none
    · intro none
      exact (filesReact.unused (fits (inBounds.counts.mp none))).trans none
  · rw [inBounds.ceiling]
    exact bytesReact

/-- A new target leaves the bounds alone. -/
theorem InBounds.step {event : BudgetEvent} (inBounds : InBounds start budget)
    (small : start.maxBytes ≤ u64Max) (fits : start.limit.files = 0 → event.files = 0) :
    ∃ next, budget.step event = some next ∧ InBounds start next := by
  cases event with
  | observe work elapsed =>
    rcases inBounds.observe small fits elapsed with ⟨next, nextEq, nextInBounds, -⟩
    exact ⟨next, nextEq, nextInBounds⟩
  | setLatency | refreshedLatency => exact ⟨_, rfl, { inBounds with }⟩

theorem InBounds.run {events : List BudgetEvent} (inBounds : InBounds start budget)
    (small : start.maxBytes ≤ u64Max)
    (fits : ∀ event ∈ events, start.limit.files = 0 → event.files = 0) :
    ∃ last, budget.run events = some last ∧ InBounds start last := by
  induction events generalizing budget with
  | nil => exact ⟨budget, rfl, inBounds⟩
  | cons event rest ih =>
    rw [List.forall_mem_cons] at fits
    rcases inBounds.step small fits.1 with ⟨next, nextEq, nextInBounds⟩
    rcases ih nextInBounds fits.2 with ⟨last, lastEq, lastInBounds⟩
    refine ⟨last, ?_, lastInBounds⟩
    rw [WorkBudget.run, List.foldlM_cons, nextEq]
    exact lastEq

theorem InBounds.requestBytes (inBounds : InBounds start budget)
    (small : start.maxBytes ≤ 2 ^ 63) :
    ∃ request, budget.requestBytes = some request ∧ min 512 start.maxBytes ≤ request ∧
      request ≤ start.maxBytes := by
  have least : max budget.limit.bytes 512 ≤ 2 ^ Nat.clog 2 (max budget.limit.bytes 512) :=
    Nat.le_pow_clog (by decide) _
  have most : 2 ^ Nat.clog 2 (max budget.limit.bytes 512) ≤ 2 ^ 63 := by
    apply Nat.pow_le_pow_right (by decide)
    apply Nat.clog_le_of_le_pow
    exact max_le (inBounds.bytes.trans small) (by decide)
  rw [WorkBudget.requestBytes, nextPowerOfTwo, if_pos (most.trans (by decide)), inBounds.ceiling]
  exact ⟨_, rfl, le_min (by omega) (min_le_right _ _), min_le_right _ _⟩

theorem inBounds_default : InBounds .default .default :=
  ⟨rfl, by decide, by decide, by decide, Iff.rfl⟩

theorem inBounds_ranges {maxBytes : Nat} (some : 0 < maxBytes) (target : Nat)
    (startingBytes : Option Nat) :
    InBounds (.ranges maxBytes target startingBytes) (.ranges maxBytes target startingBytes) := by
  refine ⟨rfl, ?_, min_le_right _ _, Nat.zero_le _, Iff.rfl⟩
  dsimp only [ranges]
  omega

/-- Both ways to make a budget make one in its bounds.  From any budget in its bounds, whatever
its target is and however latency checks change it, the limits and the requests stay within
bounds, and the next observation raises a limit at most fourfold if it is in time, counted as a
microsecond at least, and does not raise it otherwise. -/
theorem work_budget_reacts_in_bounds :
    InBounds .default .default ∧
    (∀ maxBytes target startingBytes, 0 < maxBytes →
      InBounds (.ranges maxBytes target startingBytes) (.ranges maxBytes target startingBytes)) ∧
    ∀ (start : WorkBudget) (events : List BudgetEvent), start.InBounds start →
      start.maxBytes ≤ 2 ^ 63 →
      (∀ event ∈ events, start.limit.files = 0 → event.files = 0) →
      ∃ budget, start.run events = some budget ∧ start.InBounds budget ∧
        (∃ request, budget.requestBytes = some request ∧ min 512 start.maxBytes ≤ request ∧
          request ≤ start.maxBytes) ∧
        ∀ work elapsed, (start.limit.files = 0 → work.files = 0) →
          ∃ next, budget.observe work elapsed = some next ∧
            Reacts (counted elapsed ≤ budget.target) work.bytes budget.limit.bytes
              next.limit.bytes ∧
            Reacts (counted elapsed ≤ budget.target) work.files budget.limit.files
              next.limit.files := by
  refine ⟨inBounds_default, fun _ target startingBytes some => inBounds_ranges some target _, ?_⟩
  intro start events starts small noFiles
  have wide : start.maxBytes ≤ u64Max := small.trans (by decide)
  rcases starts.run wide noFiles with ⟨budget, budgetEq, inBounds⟩
  refine ⟨budget, budgetEq, inBounds, inBounds.requestBytes small, ?_⟩
  intro work elapsed fits
  rcases inBounds.observe wide fits elapsed with ⟨next, nextEq, -, reacts⟩
  exact ⟨next, nextEq, reacts⟩

/-- A late reply for a budget of ranges whose target a latency check has raised. -/
theorem work_budget_reacts_to_a_late_reply :
    let start := ranges 1048576 250000000 none
    let events := [.setLatency 500000000, .observe ⟨65536, 0⟩ 4000000000]
    start.run events = some ⟨⟨524288, 0⟩, 1048576, 2000000000, true, true⟩ ∧
      ∃ budget, start.run events = some budget ∧ start.InBounds budget := by
  intro start events
  rcases work_budget_reacts_in_bounds.2.2 start events
    (work_budget_reacts_in_bounds.2.1 1048576 250000000 none (by decide)) (by decide) (by decide)
    with ⟨budget, budgetEq, inBounds, -⟩
  exact ⟨by decide, budget, budgetEq, inBounds⟩

/-- A target below a microsecond is always missed, and a ceiling above the last 64-bit power of
two lets a request overflow. -/
theorem short_target_is_missed_and_large_ceiling_overflows :
    (ranges 1048576 0 none).observe ⟨1, 0⟩ 0 = some ⟨⟨1, 0⟩, 1048576, 0, false, false⟩ ∧
      (ranges u64Max 0 (some u64Max)).requestBytes = none := by
  constructor
  · decide
  · norm_num [requestBytes, nextPowerOfTwo, ranges, u64Max]

end WorkBudget

end Syq.Transfer
