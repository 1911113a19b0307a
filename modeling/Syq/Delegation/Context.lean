import Syq.Delegation.Directive

/-!
# What a receiver expects of a directive

A receiver compares a directive with its own enrollment, generation, account and build, and
with the time.  It knows the time from one paired observation of its clocks, to the second,
so it carries the earliest and the latest the time can be.
-/

namespace Syq.Delegation

open Syq.Lib

def maxClockSkewSecs : Int := 5 * 60

/-- Two lowercase hexadecimal digits for each byte. -/
def hex (bytes : Bytes) : String :=
  String.ofList (bytes.flatMap fun byte =>
    [Nat.digitChar (byte.toNat / 16), Nat.digitChar (byte.toNat % 16)])

/-- A monotonic time, in nanoseconds.  The platforms count its seconds in 63 bits; a clock that
started with its machine stays so far below that sums of instants do not overflow here. -/
abbrev Instant := Nat

/-- A signed 64-bit number, where it is one. -/
def checkedI64 (value : Int) (message : String) : Except String Int :=
  if -2 ^ 63 ≤ value ∧ value < 2 ^ 63 then .ok value else .error message

structure ClockObservation where
  unixSeconds : Int
  monotonic : Instant

structure ReceiverContext where
  enrollmentId : EnrollmentId
  generation : Nat
  targetLogin : String
  build : String
  clock : ClockObservation
  clockSkewSeconds : Int

namespace ReceiverContext

variable (context : ReceiverContext)

/-- The earliest and the latest the time can be. -/
def wallTimeBoundsAt (observedAt : Instant) : Except String (Int × Int) :=
  if observedAt < context.clock.monotonic then
    .error "receiver monotonic clock moved backwards"
  else do
    let elapsed := observedAt - context.clock.monotonic
    let seconds := elapsed / 1000000000
    let elapsedFloor ← checkedI64 seconds "receiver observation duration is out of range"
    let elapsedCeil ← checkedI64 (seconds + if elapsed % 1000000000 = 0 then 0 else 1)
      "receiver observation duration is out of range"
    let earliest ← checkedI64 (context.clock.unixSeconds + elapsedFloor) "receiver time overflow"
    let latest ← checkedI64 (context.clock.unixSeconds + elapsedCeil) "receiver time overflow"
    pure (earliest, latest)

/-- A time that directives can name. -/
def InRange (time : Int) : Prop :=
  0 ≤ time ∧ time ≤ maxUnixTimestamp

instance (time : Int) : Decidable (InRange time) :=
  inferInstanceAs (Decidable (_ ∧ _))

/-- What a directive is bound to. -/
def validateBinding (directive : Directive) : Except String Unit :=
  let binding := directive.binding
  if directive.build ≠ context.build then
    .error (s!"the copy was approved for a receiver of syq {directive.build}, " ++
      s!"and this receiver runs {context.build}")
  else if binding.enrollment ≠ context.enrollmentId then
    .error "the directive is for a different enrollment"
  else if binding.generation ≠ context.generation then
    .error (s!"the directive is for generation {binding.generation} of enrollment " ++
      hex context.enrollmentId.bytes.1 ++
      s!", which is now at generation {context.generation}")
  else if binding.account ≠ context.targetLogin then
    .error "the directive is for a different account"
  else .ok ()

/-- When a directive may be used. -/
def validateTimes (directive : Directive) (earliestNow latestNow : Int) : Except String Unit := do
  let latestAcceptable ← checkedI64 (earliestNow + context.clockSkewSeconds)
    "receiver time overflow"
  if latestAcceptable < directive.issuedAt then
    .error "the directive was issued too far in the future"
  else if latestAcceptable < directive.notBefore then .error "the directive is not yet valid"
  else do
    let earliestForExpiry ← checkedI64 (latestNow - context.clockSkewSeconds)
      "receiver time overflow"
    if directive.startBy < earliestForExpiry then
      .error "the directive's start-by time has passed"
    else .ok ()

/-- Check the directive's binding and times, and return the latest the time can be now. -/
def validateAt (directive : Directive) (observedAt : Instant) : Except String Int := do
  let (earliestNow, latestNow) ← context.wallTimeBoundsAt observedAt
  context.enrollmentId.validate
  validateIdentity "expected account" context.targetLogin
  if ¬ InRange earliestNow ∨ ¬ InRange latestNow then
    .error "receiver clock is outside the supported range"
  else if ¬ (0 ≤ context.clockSkewSeconds ∧ context.clockSkewSeconds ≤ maxClockSkewSecs) then
    .error "receiver clock skew allowance is outside the supported range"
  else do
    context.validateBinding directive
    context.validateTimes directive earliestNow latestNow
    pure latestNow

end ReceiverContext

/-- When the copy must have finished.  The last sum is one of instants, whose overflow error is
left out. -/
def executionDeadline (finishBy clockSkewSeconds currentWallTime : Int) (verifiedAt : Instant) :
    Except String Instant := do
  let finishBy ← checkedI64 (finishBy + clockSkewSeconds) "directive finish-by overflow"
  let remaining ← checkedI64 (finishBy - currentWallTime)
    "directive remaining finish window overflow"
  if remaining ≤ 0 then
    .error "the directive's finish-by time passed while it was being verified"
  else pure (verifiedAt + remaining.toNat * 1000000000)

/-! ## Times and true time -/

theorem checkedI64_eq_ok_iff {value result : Int} {msg : String} :
    checkedI64 value msg = .ok result ↔ (-2 ^ 63 ≤ value ∧ value < 2 ^ 63) ∧ value = result := by
  unfold checkedI64
  split_ifs with fits
  · exact ⟨fun same => ⟨fits, Except.ok.inj same⟩, fun same => congrArg _ same.2⟩
  · exact ⟨nofun, fun same => absurd same.1 fits⟩

theorem checkedI64_of_fits {value : Int} (fits : -2 ^ 63 ≤ value ∧ value < 2 ^ 63)
    (msg : String) : checkedI64 value msg = .ok value :=
  checkedI64_eq_ok_iff.mpr ⟨fits, rfl⟩

namespace ReceiverContext

variable {context : ReceiverContext}

/-- The true time at an instant, in whole seconds, where the clocks were observed together
at `wall` nanoseconds. -/
def trueSeconds (context : ReceiverContext) (wall : Int) (instant : Instant) : Int :=
  (wall + (instant - context.clock.monotonic)) / 1000000000

/-- A sum of times lies between the sum of their whole seconds and, unless the second time
is whole, one second more. -/
theorem seconds_bounds (wall : Int) (elapsed : Nat) :
    wall / 1000000000 + (elapsed / 1000000000 : Nat) ≤ (wall + elapsed) / 1000000000 ∧
    (wall + elapsed) / 1000000000 ≤ wall / 1000000000 +
      ((elapsed / 1000000000 : Nat) + if elapsed % 1000000000 = 0 then 0 else 1) := by
  split_ifs <;> omega

theorem trueSeconds_bounds {wall : Int} {observedAt : Instant} {bounds : Int × Int}
    (observed : context.clock.unixSeconds = wall / 1000000000)
    (known : context.wallTimeBoundsAt observedAt = .ok bounds) :
    bounds.1 ≤ context.trueSeconds wall observedAt ∧
      context.trueSeconds wall observedAt ≤ bounds.2 := by
  unfold wallTimeBoundsAt at known
  simp only [guard_eq_ok_iff, bind_eq_ok_iff, pure_eq_ok_iff, checkedI64_eq_ok_iff] at known
  rcases known with ⟨forward, _, ⟨-, rfl⟩, _, ⟨-, rfl⟩, _, ⟨-, rfl⟩, _, ⟨-, rfl⟩, rfl⟩
  have elapsed : (observedAt : Int) - context.clock.monotonic =
      (observedAt - context.clock.monotonic : Nat) := (Nat.cast_sub (Nat.not_lt.mp forward)).symm
  unfold trueSeconds
  rw [observed, elapsed]
  exact seconds_bounds wall _

/-- What an accepted directive's times are, from the bounds they were compared with. -/
theorem validateAt_eq_ok {directive : Directive} {observedAt : Instant} {latest : Int}
    (accepted : context.validateAt directive observedAt = .ok latest) :
    ∃ earliest, context.wallTimeBoundsAt observedAt = .ok (earliest, latest) ∧
      InRange latest ∧
      (0 ≤ context.clockSkewSeconds ∧ context.clockSkewSeconds ≤ maxClockSkewSecs) ∧
      directive.issuedAt ≤ earliest + context.clockSkewSeconds ∧
      directive.notBefore ≤ earliest + context.clockSkewSeconds ∧
      latest - context.clockSkewSeconds ≤ directive.startBy := by
  unfold validateAt validateTimes at accepted
  simp only [bind_eq_ok_iff, guard_eq_ok_iff, pure_eq_ok_iff,
    checkedI64_eq_ok_iff, not_or, not_not, not_lt] at accepted
  rcases accepted with ⟨⟨earliest, _⟩, known, -, -, -, -, inRange, skew, -, -, -,
    ⟨_, ⟨-, rfl⟩, issued, notBefore, _, ⟨-, rfl⟩, startBy, -⟩, rfl⟩
  exact ⟨earliest, known, inRange.2, skew, issued, notBefore, startBy⟩

/-- The times of a valid directive are in range. -/
theorem inRange_of_validate {directive : Directive} (valid : directive.validate = .ok ()) :
    InRange directive.finishBy := by
  unfold Directive.validate at valid
  simp only [guard_eq_ok_iff, bind_eq_ok_iff] at valid
  rcases valid with ⟨-, _, -, _, -, _, -, _, times, -⟩
  have finish := forM_eq_ok_iff.mp times ("finish-by", directive.finishBy) (by simp)
  simpa [InRange, Directive.validateTime] using (guard_eq_ok_iff.mp finish).1

end ReceiverContext

end Syq.Delegation
