import Syq.Lib.Collections
import Syq.Lib.Transition

/-!
# A bandwidth budget shared by many writers

The budget is one counter, a time up to which the rate is spent.  A writer moves it forward by
the time its bytes cost and waits until the counter's time.  The counter is changed by a
compare-and-exchange loop, so reservations of any number of writers follow each other in slots
that do not overlap; every slot of a reservation that is released in a window of time lies in
that window, prolonged by one burst.
-/

namespace Syq.Bwlimit

open Syq.Lib List Option

/-- The nanoseconds of one second. -/
def second : Nat := 1000000000

def u64Max : Nat := 2 ^ 64 - 1

def maxChunk : Nat := 1024 * 1024

/-! ## The budget -/

/-- A budget of so many bytes each second. -/
structure Budget where
  rate : Nat
  positive : 0 < rate
  fits : rate ≤ u64Max

namespace Budget

variable (budget : Budget)

def burst : Nat :=
  max 1 (min (budget.rate / 100) maxChunk)

/-- The time that some bytes cost, rounded up. -/
def nanos (bytes : Nat) : Nat :=
  (bytes * second + budget.rate - 1) / budget.rate % 2 ^ 64

/-- Where the slot of a reservation starts. -/
def start (now old : Nat) : Nat :=
  max old (now - budget.nanos budget.burst)

/-- The counter after a reservation. -/
def next (now bytes old : Nat) : Nat :=
  min (budget.start now old + budget.nanos bytes) u64Max

end Budget

/-- A reservation that moved the counter. -/
structure Reservation where
  now : Nat
  bytes : Nat
  old : Nat
  next : Nat

/-- How long the writer waits. -/
def Reservation.delay (reservation : Reservation) : Nat :=
  reservation.next - reservation.now

/-- When the bytes may be written. -/
def Reservation.release (reservation : Reservation) : Nat :=
  reservation.now + reservation.delay

/-! ## Interleaved reservations -/

/-- A writer in the exchange loop, with the counter's value as it last saw it. -/
structure Attempt where
  now : Nat
  bytes : Nat
  old : Nat

structure State (ι : Type) where
  counter : Nat
  attempts : Table ι Attempt
  log : List Reservation

/-- What the writers do: load the counter, fail to exchange it and load it again, or exchange
it.  A load may see any value. -/
inductive Event (ι : Type) where
  | load (writer : ι) (now bytes seen : Nat)
  | retry (writer : ι) (seen : Nat)
  | exchange (writer : ι)

section Steps

variable {ι : Type} [DecidableEq ι]

def step (budget : Budget) (state : State ι) : Event ι → Option (State ι)
  | .load writer now bytes seen =>
    if writer ∈ state.attempts ∨ budget.burst < bytes then none
    else some { state with attempts := state.attempts.insert writer ⟨now, bytes, seen⟩ }
  | .retry writer seen =>
    (state.attempts.lookup writer).map fun attempt =>
      { state with attempts := state.attempts.insert writer { attempt with old := seen } }
  | .exchange writer =>
    (state.attempts.lookup writer).bind fun attempt =>
      if attempt.old ≠ state.counter then none
      else
        let next := budget.next attempt.now attempt.bytes attempt.old
        some
          ⟨next, state.attempts.erase writer,
            state.log ++ [⟨attempt.now, attempt.bytes, attempt.old, next⟩]⟩

def system (budget : Budget) : System (State ι) (Event ι) where
  enabled _ _ := True
  decidableEnabled _ _ := instDecidableTrue
  step := step budget

end Steps

/-! ## Costs -/

namespace Budget

variable {budget : Budget} {bytes : Nat}

theorem burst_le (budget : Budget) : budget.burst * 100 ≤ max 100 budget.rate := by
  unfold burst
  omega

variable (small : bytes ≤ budget.burst)

include small

theorem nanos_eq :
    budget.nanos bytes = (bytes * second + budget.rate - 1) / budget.rate := by
  apply Nat.mod_eq_of_lt
  have positive := budget.positive
  have bounded := budget.burst_le
  rw [Nat.div_lt_iff_lt_mul positive]
  have scaled : bytes * second ≤ max 100 budget.rate * second := by
    refine Nat.mul_le_mul_right _ ?_
    omega
  unfold second at *
  rcases Nat.le_total budget.rate 100 with slow | fast
  · omega
  · omega

/-- The bytes do not exceed what their cost pays for. -/
theorem bytes_le_cost :
    bytes * second ≤ budget.nanos bytes * budget.rate := by
  rw [nanos_eq small]
  have positive := budget.positive
  have division := Nat.div_add_mod (bytes * second + budget.rate - 1) budget.rate
  have remainder := Nat.mod_lt (bytes * second + budget.rate - 1) positive
  rw [Nat.mul_comm] at division
  omega

/-- A cost exceeds what the bytes need by less than one nanosecond. -/
theorem cost_lt_bytes :
    budget.nanos bytes * budget.rate < bytes * second + budget.rate := by
  rw [nanos_eq small]
  have positive := budget.positive
  have division := Nat.div_add_mod (bytes * second + budget.rate - 1) budget.rate
  rw [Nat.mul_comm] at division
  omega

theorem nanos_mono :
    budget.nanos bytes ≤ budget.nanos budget.burst := by
  rw [nanos_eq small, nanos_eq le_rfl]
  apply Nat.div_le_div_right
  have scaled : bytes * second ≤ budget.burst * second := Nat.mul_le_mul_right _ small
  omega

end Budget

/-! ## Slots -/

section Slots

variable {ι : Type} [DecidableEq ι] {budget : Budget} {counter : Nat} {log : List Reservation}

/-- The reservations made so far: each by the rule, one after the other. -/
structure Slots (budget : Budget) (counter : Nat) (log : List Reservation) : Prop where
  small : ∀ reservation ∈ log, reservation.bytes ≤ budget.burst
  ruled : ∀ reservation ∈ log, reservation.next =
    budget.next reservation.now reservation.bytes reservation.old
  ordered : log.Pairwise fun first second => first.next ≤ second.old
  spent : ∀ reservation ∈ log, reservation.next ≤ counter

/-- What holds in every state: the slots, and that every attempt is of at most one burst. -/
structure Invariant (budget : Budget) (state : State ι) : Prop where
  bounded : state.counter ≤ u64Max
  slots : Slots budget state.counter state.log
  attempts : ∀ writer attempt, state.attempts.lookup writer = some attempt →
    attempt.bytes ≤ budget.burst

theorem Slots.exchange {now bytes : Nat} (slots : Slots budget counter log)
    (small : bytes ≤ budget.burst) (inRange : counter ≤ u64Max) :
    Slots budget (budget.next now bytes counter)
      (log ++ [⟨now, bytes, counter, budget.next now bytes counter⟩]) := by
  have grows : counter ≤ budget.next now bytes counter := by
    unfold Budget.next Budget.start
    omega
  refine ⟨?_, ?_, ?_, ?_⟩
  · rw [forall_mem_append, forall_mem_singleton]
    exact ⟨slots.small, small⟩
  · rw [forall_mem_append, forall_mem_singleton]
    exact ⟨slots.ruled, rfl⟩
  · rw [pairwise_append]
    refine ⟨slots.ordered, pairwise_singleton _ _, ?_⟩
    intro first mem last lastMem
    rw [mem_singleton.mp lastMem]
    exact slots.spent first mem
  · rw [forall_mem_append, forall_mem_singleton]
    exact ⟨fun resv mem => (slots.spent resv mem).trans grows, le_rfl⟩

theorem Invariant.step {state target : State ι} {event : Event ι}
    (inv : Invariant budget state) (stepped : step budget state event = some target) :
    Invariant budget target := by
  cases event with
  | load writer now bytes seen =>
    unfold Bwlimit.step at stepped
    dsimp only at stepped
    split_ifs at stepped with refused
    cases stepped
    refine ⟨inv.bounded, inv.slots, ?_⟩
    refine fun _ _ => forall_of_insert (inv.attempts _ _) ?_
    dsimp only
    omega
  | retry writer seen =>
    rcases map_eq_some_iff.mp stepped with ⟨attempt, tried, rfl⟩
    refine ⟨inv.bounded, inv.slots, fun _ _ => forall_of_insert (inv.attempts _ _) ?_⟩
    exact inv.attempts writer attempt tried
  | exchange writer =>
    rcases bind_eq_some_iff.mp stepped with ⟨attempt, tried, exchanged⟩
    split_ifs at exchanged with stale
    cases exchanged
    rw [ne_eq, not_not] at stale
    rw [stale]
    refine ⟨min_le_right _ _, ?_, ?_⟩
    · exact inv.slots.exchange (inv.attempts writer attempt tried) inv.bounded
    · exact fun other otherAttempt found =>
        inv.attempts other otherAttempt (lookup_of_erase found)

/-- Every run keeps the invariant. -/
theorem slots_of_exec {events : List (Event ι)} {state : State ι} (bounded : counter ≤ u64Max)
    (ran : (system budget).exec ⟨counter, ∅, []⟩ events = some state) :
    Slots budget state.counter state.log := by
  have start : Invariant budget (⟨counter, ∅, []⟩ : State ι) := by
    refine ⟨bounded, ⟨by simp, by simp, List.Pairwise.nil, by simp⟩, ?_⟩
    intro writer attempt found
    cases found
  exact (System.exec_invariant (system budget) (fun inv _ stepped =>
    Invariant.step inv stepped) start ran).slots

/-! ## Windows -/

/-- Intervals in order inside a range are together no longer than it. -/
theorem sum_lengths_le {α : Type} {first last : α → Nat} {items : List α} {low high : Nat}
    (ordered : items.Pairwise fun early late => last early ≤ first late)
    (proper : ∀ item ∈ items, first item ≤ last item)
    (inside : ∀ item ∈ items, low ≤ first item ∧ last item ≤ high) (range : low ≤ high) :
    (items.map fun item => last item - first item).sum ≤ high - low := by
  induction items generalizing low with
  | nil => simp
  | cons item rest ih =>
    rw [pairwise_cons] at ordered
    rw [forall_mem_cons] at proper inside
    have later := @ih (last item) ordered.2 proper.2
      (fun other mem => ⟨ordered.1 other mem, (inside.2 other mem).2⟩) inside.1.2
    rw [map_cons, sum_cons]
    omega

/-- The bytes that are released in a window of time. -/
def releasedIn (log : List Reservation) (from' length : Nat) : Nat :=
  ((log.filter fun reservation => decide (from' ≤ reservation.release) &&
    decide (reservation.release ≤ from' + length)).map Reservation.bytes).sum

/-- No reservation reached the end of the clock's range. -/
def InRange (log : List Reservation) : Prop :=
  ∀ reservation ∈ log, reservation.next < u64Max

variable (slots : Slots budget counter log)

include slots

variable (inRange : InRange log)

include inRange

theorem slot_of_inRange {resv : Reservation} (mem : resv ∈ log) :
    resv.next = budget.start resv.now resv.old +
      budget.nanos resv.bytes := by
  have ruled := slots.ruled resv mem
  have below := inRange resv mem
  unfold Budget.next at ruled
  omega

/-- The slot of a reservation that is released in a window lies in the window, prolonged by the
cost of a burst. -/
theorem slot_in_window {from' length : Nat} {resv : Reservation} (mem : resv ∈ log)
    (lower : from' ≤ resv.release) (upper : resv.release ≤ from' + length) :
    from' - budget.nanos budget.burst ≤ budget.start resv.now resv.old ∧
      resv.next ≤ from' + length := by
  have slot := slot_of_inRange slots inRange mem
  have cheap := Budget.nanos_mono (slots.small resv mem)
  unfold Reservation.release Reservation.delay at lower upper
  refine ⟨?_, by omega⟩
  by_cases waits : resv.now < resv.next
  · omega
  · unfold Budget.start
    omega

theorem cost_in_window (from' length : Nat) :
    releasedIn log from' length * second ≤
      budget.rate * (length + budget.nanos budget.burst) := by
  let released := log.filter fun resv => decide (from' ≤ resv.release) &&
    decide (resv.release ≤ from' + length)
  have members : ∀ resv ∈ released, resv ∈ log ∧ from' ≤ resv.release ∧
      resv.release ≤ from' + length := by
    intro resv mem
    rw [mem_filter, Bool.and_eq_true, decide_eq_true_eq, decide_eq_true_eq] at mem
    exact mem
  have ordered : released.Pairwise fun early late =>
      early.next ≤ budget.start late.now late.old := by
    refine (slots.ordered.sublist filter_sublist).imp ?_
    intro early late before
    exact before.trans (le_max_left _ _)
  have lengths := @sum_lengths_le _ (fun resv => budget.start resv.now resv.old)
    Reservation.next released (from' - budget.nanos budget.burst) (from' + length) ordered
    (fun resv mem => by
      have slot := slot_of_inRange slots inRange (members resv mem).1
      omega)
    (fun resv mem => by
      rcases members resv mem with ⟨inLog, lower, upper⟩
      exact slot_in_window slots inRange inLog lower upper)
    (by omega)
  have paid : ∀ list : List Reservation, (∀ resv ∈ list, resv ∈ log) →
      (list.map Reservation.bytes).sum * second ≤ budget.rate *
        (list.map fun resv =>
          resv.next - budget.start resv.now resv.old).sum := by
    intro list inLog
    induction list with
    | nil => simp
    | cons resv rest ih =>
      rw [forall_mem_cons] at inLog
      have slot := slot_of_inRange slots inRange inLog.1
      have cost := Budget.bytes_le_cost (slots.small resv inLog.1)
      have later := ih inLog.2
      have here : resv.next - budget.start resv.now resv.old =
          budget.nanos resv.bytes := by
        omega
      rw [map_cons, map_cons, sum_cons, sum_cons, here, Nat.add_mul,
        Nat.mul_add, Nat.mul_comm budget.rate (budget.nanos _)]
      exact Nat.add_le_add cost later
  calc releasedIn log from' length * second
      _ ≤ budget.rate * (released.map fun resv =>
          resv.next - budget.start resv.now resv.old).sum :=
        paid released fun resv mem => (members resv mem).1
      _ ≤ budget.rate * (length + budget.nanos budget.burst) := by
        apply Nat.mul_le_mul_left
        omega

/-- In every window the released bytes stay below the rate times its length, one burst and one
nanosecond of the rate. -/
theorem releasedIn_lt (from' length : Nat) :
    releasedIn log from' length * second <
      budget.rate * length + budget.burst * second + budget.rate := by
  have cost := cost_in_window slots inRange from' length
  have burst := @Budget.cost_lt_bytes budget budget.burst le_rfl
  rw [Nat.mul_add, Nat.mul_comm budget.rate (budget.nanos _)] at cost
  omega

end Slots

/-! ## Waiting -/

section Waiting

variable {ι : Type} [DecidableEq ι] {budget : Budget} {initial : Nat}

/-- The counter is paid for: it has not moved beyond the costs of the last reservations, counted
from the counter's first value or from one burst before the first of them was made. -/
def PaidFor (budget : Budget) (initial : Nat) (state : State ι) : Prop :=
  ∃ idle busy from', state.log = idle ++ busy ∧
    state.counter ≤ from' + (busy.map fun reservation => budget.nanos reservation.bytes).sum ∧
    (idle = [] ∧ from' = initial ∨
      ∃ first rest, busy = first :: rest ∧ from' = first.now - budget.nanos budget.burst)

theorem PaidFor.step {state target : State ι} {event : Event ι}
    (paid : PaidFor budget initial state) (stepped : step budget state event = some target) :
    PaidFor budget initial target := by
  cases event with
  | load writer now bytes seen =>
    unfold Bwlimit.step at stepped
    dsimp only at stepped
    split_ifs at stepped
    cases stepped
    exact paid
  | retry writer seen =>
    rcases map_eq_some_iff.mp stepped with ⟨attempt, -, rfl⟩
    exact paid
  | exchange writer =>
    rcases bind_eq_some_iff.mp stepped with ⟨attempt, -, exchanged⟩
    split_ifs at exchanged with stale
    cases exchanged
    rw [ne_eq, not_not] at stale
    rcases paid with ⟨idle, busy, from', split, within, origin⟩
    rcases le_total state.counter (attempt.now - budget.nanos budget.burst) with idles | waits
    -- The budget was idle, so the costs count from here.
    · refine ⟨state.log, [_], _, rfl, (min_le_left _ _).trans ?_, .inr ⟨_, [], rfl, rfl⟩⟩
      rw [Budget.start, stale, max_eq_right idles, map_singleton, sum_singleton]
    · refine ⟨idle, busy ++ [_], from', by rw [split, append_assoc], (min_le_left _ _).trans ?_, ?_⟩
      · rw [Budget.start, stale, max_eq_left waits, map_append, sum_append, map_singleton,
          sum_singleton]
        exact (Nat.add_le_add_right within _).trans_eq (Nat.add_assoc _ _ _)
      · rcases origin with first | ⟨first, rest, rfl, rfl⟩
        · exact .inl first
        · exact .inr ⟨first, rest ++ [_], rfl, rfl⟩

/-- No writer waits for more than what was reserved: in every interleaving, the time up to
which the budget is spent is at most the cost of the reservations since it was last idle. -/
theorem writers_wait_for_reserved_bytes (budget : Budget) (initial : Nat) {events : List (Event ι)}
    {state : State ι} (ran : (system budget).exec ⟨initial, ∅, []⟩ events = some state) :
    PaidFor budget initial state :=
  (system budget).exec_invariant (fun paid _ stepped => paid.step stepped)
    ⟨[], [], initial, rfl, le_rfl, .inl ⟨rfl, rfl⟩⟩ ran

/-- Two writers of one byte each at a hundred bytes a second; the second one tries again. -/
theorem writers_wait_for_two_bytes :
    let budget : Budget := ⟨100, by decide, by decide⟩
    let run := (system budget).exec (⟨0, ∅, []⟩ : State Nat)
      [.load 0 0 1 0, .load 1 0 1 0, .exchange 0, .retry 1 10000000, .exchange 1]
    run.map State.counter = some 20000000 ∧ ∀ state, run = some state → PaidFor budget 0 state :=
  ⟨by decide +kernel, fun _ => writers_wait_for_reserved_bytes _ 0⟩

end Waiting

end Syq.Bwlimit
