import Syq.Bwlimit.Budget
import Syq.Lib.Io

/-!
# A writer that reserves before it writes

The writer stands above another one, which may take fewer bytes than it is given, fail, or be
interrupted.  What the inner writer answers and whether the copy is stopped come from outside;
the events of a call are the reservation and the bytes that the inner writer took.
-/

namespace Syq.Bwlimit

open Syq.Lib List

abbrev Bytes := List UInt8

/-- What the world answers: the inner writer to each write, and the stop flags whenever they are
asked before and after a wait. -/
structure World where
  answers : List (Except IoError Nat)
  stops : List Bool

inductive PacedEvent where
  | reserve (bytes : Nat)
  | wrote (bytes : Bytes)

/-- The bytes that the inner writer took. -/
def written : List PacedEvent → Bytes
  | [] => []
  | .reserve _ :: rest => written rest
  | .wrote bytes :: rest => bytes ++ written rest

/-! ## The writer -/

/-- Reserve and wait; the wait ends when a stop flag is set. -/
def wait (stops : List Bool) (bytes : Nat) : Except IoError Unit × List PacedEvent × List Bool :=
  match stops with
  | true :: rest => (.error .cancelled, [], rest)
  | false :: true :: rest => (.error .cancelled, [.reserve bytes], rest)
  | false :: false :: rest => (.ok (), [.reserve bytes], rest)
  | [false] => (.ok (), [.reserve bytes], [])
  | [] => (.ok (), [.reserve bytes], [])

/-- Hand a call on to the inner writer as it is. -/
def passOn (world : World) (bytes : Bytes) : Outcome Nat × List PacedEvent × World :=
  match world.answers with
  | [] => (.waiting, [], world)
  | .ok count :: answers =>
    let taken := min count bytes.length
    (.returned (.ok taken), [.wrote (bytes.take taken)], { world with answers := answers })
  | .error error :: answers => (.returned (.error error), [], { world with answers := answers })

/-- Reserve the slices' bytes, then write them; `write_all` is the loop with one slice. -/
def reserveAndWrite (world : World) (slices : List Bytes) :
    Outcome Nat × List PacedEvent × World :=
  let count := slices.flatten.length
  match wait world.stops count with
  | (.error error, events, stops) =>
    (.returned (.error error), events, { world with stops := stops })
  | (.ok (), events, stops) =>
    match writeSlices world.answers slices with
    | (.waiting, writes, answers) => (.waiting, events ++ writes.map .wrote, ⟨answers, stops⟩)
    | (.returned (.error error), writes, answers) =>
      (.returned (.error error), events ++ writes.map .wrote, ⟨answers, stops⟩)
    | (.returned (.ok ()), writes, answers) =>
      (.returned (.ok count), events ++ writes.map .wrote, ⟨answers, stops⟩)

/-- Write up to a chunk of one buffer. -/
def pacedWrite (budget : Budget) (handshakePending : Bool) (world : World) (bytes : Bytes) :
    Outcome Nat × List PacedEvent × World :=
  if bytes.isEmpty then (.returned (.ok 0), [], world)
  else if handshakePending then passOn world bytes
  else reserveAndWrite world [bytes.take (min bytes.length budget.burst)]

/-- The first nonempty buffers, at most so many slices and so many bytes. -/
def takeSlices : Nat → Nat → List Bytes → List Bytes
  | 0, _, _ => []
  | _, _, [] => []
  | count + 1, room, buffer :: rest =>
    if buffer.isEmpty then takeSlices (count + 1) room rest
    else if room = 0 then []
    else buffer.take (min buffer.length room) ::
      takeSlices count (room - min buffer.length room) rest

/-- Write up to a chunk of the first two nonempty buffers. -/
def pacedWriteVectored (budget : Budget) (handshakePending : Bool) (world : World)
    (buffers : List Bytes) : Outcome Nat × List PacedEvent × World :=
  if handshakePending then passOn world buffers.flatten
  else
    let slices := takeSlices 2 budget.burst buffers
    if slices.flatten.isEmpty then (.returned (.ok 0), [], world)
    else reserveAndWrite world slices

/-- A call of the writer, with what the handshake flag says when it starts. -/
inductive Call where
  | write (handshakePending : Bool) (bytes : Bytes)
  | writeVectored (handshakePending : Bool) (buffers : List Bytes)

namespace Call

/-- The caller's bytes, in order. -/
def data : Call → Bytes
  | .write _ bytes => bytes
  | .writeVectored _ buffers => buffers.flatten

def handshakePending : Call → Bool
  | .write pending _ => pending
  | .writeVectored pending _ => pending

/-- What a call hands on at most once the handshake is over: a chunk of the buffer, or of the
first two nonempty buffers. -/
def offered (budget : Budget) : Call → Bytes
  | .write _ bytes => bytes.take budget.burst
  | .writeVectored _ buffers =>
    ((buffers.filter fun buffer => !buffer.isEmpty).take 2).flatten.take budget.burst

def run (budget : Budget) (world : World) : Call → Outcome Nat × List PacedEvent × World
  | .write pending bytes => pacedWrite budget pending world bytes
  | .writeVectored pending buffers => pacedWriteVectored budget pending world buffers

end Call

/-- Some calls one after the other, with what each returned and did; a call that waits forever
is the last. -/
def runCalls (budget : Budget) (world : World) : List Call →
    List (Call × Outcome Nat × List PacedEvent)
  | [] => []
  | call :: rest =>
    match call.run budget world with
    | (.waiting, events, _) => [(call, .waiting, events)]
    | (.returned result, events, next) =>
      (call, .returned result, events) :: runCalls budget next rest

/-! ## What the loops hand on -/

@[simp]
theorem written_map_wrote (writes : List Bytes) : written (writes.map .wrote) = writes.flatten := by
  induction writes with
  | nil => rfl
  | cons bytes rest ih => simp [written, ih]

theorem wait_events (stops : List Bool) (bytes : Nat) :
    (wait stops bytes).2.1 = [] ∨ (wait stops bytes).2.1 = [.reserve bytes] := by
  unfold wait
  split <;> simp

/-- Without a stop the wait ends. -/
theorem wait_of_unstopped {stops : List Bool} (unstopped : ∀ stop ∈ stops, stop = false)
    (bytes : Nat) :
    ∃ rest, wait stops bytes = (.ok (), [.reserve bytes], rest) ∧ ∀ stop ∈ rest, stop = false := by
  fun_cases wait stops bytes with
  | case1 rest => simp at unstopped
  | case2 rest => simp at unstopped
  | case3 rest => exact ⟨rest, rfl, fun stop mem => unstopped stop (by simp [mem])⟩
  | case4 => exact ⟨[], rfl, by simp⟩
  | case5 => exact ⟨[], rfl, by simp⟩

theorem flatten_takeSlices (count room : Nat) (buffers : List Bytes) :
    (takeSlices count room buffers).flatten =
      ((buffers.filter fun buffer => !buffer.isEmpty).take count).flatten.take room := by
  fun_induction takeSlices count room buffers with
  | case1 => simp
  | case2 => simp
  | case3 count room buffer rest empty ih => rw [ih, filter_cons_of_neg (by simpa using empty)]
  | case4 => simp
  | case5 count room buffer rest ne positive ih =>
    rw [filter_cons_of_pos (by simpa using ne), take_succ_cons, flatten_cons, flatten_cons, ih,
      take_append]
    by_cases whole : buffer.length ≤ room
    · rw [Nat.min_eq_left whole, take_length, take_of_length_le whole]
    · rw [Nat.min_eq_right (by omega), Nat.sub_self, Nat.sub_eq_zero_of_le (by omega)]

/-! ## What one call hands on -/

theorem burst_pos (budget : Budget) : 0 < budget.burst := by
  unfold Budget.burst
  omega

namespace Call

variable {budget : Budget} {call : Call}

theorem offered_prefix (budget : Budget) (call : Call) : call.offered budget <+: call.data := by
  cases call with
  | write pending bytes => exact take_prefix _ _
  | writeVectored pending buffers =>
    have same : (buffers.filter fun buffer => !buffer.isEmpty).flatten = buffers.flatten :=
      flatten_filter_not_isEmpty
    refine ( take_prefix _ _).trans ?_
    rw [data, ← same]
    exact ( take_prefix 2 _).flatten

/-- A call that has bytes offers some. -/
theorem offered_ne_nil (some : call.data ≠ []) : call.offered budget ≠ [] := by
  have positive := burst_pos budget
  cases call with
  | write pending bytes =>
    simp only [offered, ne_eq, take_eq_nil_iff, not_or]
    exact ⟨by omega, some⟩
  | writeVectored pending buffers =>
    have same : (buffers.filter fun buffer => !buffer.isEmpty).flatten = buffers.flatten :=
      flatten_filter_not_isEmpty
    rcases split : buffers.filter fun buffer => !buffer.isEmpty with - | ⟨first, more⟩
    · rw [split] at same
      exact absurd same.symm some
    · have ne : first ≠ [] := by
        have mem := split ▸ @mem_cons_self _ first more
        simpa using (mem_filter.mp mem).2
      simp only [offered, split, take_succ_cons, flatten_cons, ne_eq, take_eq_nil_iff,
        append_eq_nil_iff, not_or, not_and]
      exact ⟨by omega, fun none => absurd none ne⟩

/-- After the handshake a call reserves and writes what it offers. -/
theorem run_eq (handshaken : call.handshakePending = false) (world : World) :
    ∃ slices, slices.flatten = call.offered budget ∧ call.run budget world =
      if slices.flatten.isEmpty then (.returned (.ok 0), [], world)
      else reserveAndWrite world slices := by
  have positive := burst_pos budget
  cases call with
  | write pending bytes =>
    have cut : bytes.take (min bytes.length budget.burst) = bytes.take budget.burst := by
      rw [Nat.min_comm, ← take_eq_take_min]
    refine ⟨[bytes.take (min bytes.length budget.burst)], by simpa [offered] using cut, ?_⟩
    obtain rfl : pending = false := handshaken
    rw [run, pacedWrite, flatten_singleton, cut]
    cases bytes with
    | nil => simp
    | cons byte rest =>
      rw [if_neg (by simp), if_neg (by simp), if_neg (by simpa using by omega)]
  | writeVectored pending buffers =>
    refine ⟨takeSlices 2 budget.burst buffers, flatten_takeSlices _ _ _, ?_⟩
    obtain rfl : pending = false := handshaken
    rfl

end Call

/-- What one call did: it handed on a beginning of its bytes, all that it says it did.  After the
handshake that is all it offers, and it had reserved the bytes before. -/
structure Handed (budget : Budget) (call : Call) (outcome : Outcome Nat)
    (events : List PacedEvent) : Prop where
  beginning : written events <+: call.data
  complete : ∀ count, outcome = .returned (.ok count) →
    written events = call.data.take count ∧ count ≤ call.data.length
  accepted : ∀ count, call.handshakePending = false → outcome = .returned (.ok count) →
    written events = call.offered budget ∧ (call.data ≠ [] → 0 < count)
  reserved : call.handshakePending = false → events = [] ∨
    ∃ (count : Nat) (writes : List Bytes), events = .reserve count :: writes.map .wrote ∧
      count ≤ budget.burst ∧ writes.flatten.length ≤ count

theorem reserveAndWrite_spec {budget : Budget} {call : Call} {slices : List Bytes} (world : World)
    (offers : slices.flatten = call.offered budget) (ne : slices.flatten ≠ []) :
    Handed budget call (reserveAndWrite world slices).1 (reserveAndWrite world slices).2.1 := by
  have part : slices.flatten <+: call.data := offers ▸ call.offered_prefix budget
  have small : slices.flatten.length ≤ budget.burst := by
    rw [offers]
    cases call <;> exact length_take_le _ _
  have resv := wait_events world.stops slices.flatten.length
  unfold reserveAndWrite
  dsimp only
  rcases waited : wait world.stops slices.flatten.length with ⟨result, events, stops⟩
  rw [waited] at resv
  cases result with
  | error error =>
    refine ⟨?_, by simp, by simp, ?_⟩
    · rcases resv with rfl | rfl <;> simp [written]
    · intro _
      rcases resv with rfl | rfl
      · exact .inl rfl
      · exact .inr ⟨_, [], rfl, small, by simp⟩
  | ok done =>
    have reserved : events = [.reserve slices.flatten.length] := by
      unfold wait at waited
      split at waited <;> simp_all
    subst reserved
    rcases writeSlices_spec world.answers slices with ⟨beginning, complete⟩
    rcases wrote : writeSlices world.answers slices with ⟨outcome, writes, answers⟩
    rw [wrote] at beginning complete
    have handed : written ([PacedEvent.reserve slices.flatten.length] ++
        writes.map .wrote) = writes.flatten := by
      simp [written]
    have paid : ∃ (count : Nat) (rest : List Bytes),
        [PacedEvent.reserve slices.flatten.length] ++ writes.map .wrote =
          .reserve count :: rest.map .wrote ∧ count ≤ budget.burst ∧
        rest.flatten.length ≤ count :=
      ⟨_, writes, rfl, small, beginning.length_le⟩
    have begun := handed ▸ beginning.trans part
    cases outcome with
    | waiting => exact ⟨begun, by simp, by simp, fun _ => .inr paid⟩
    | returned result =>
      cases result with
      | error error => exact ⟨begun, by simp, by simp, fun _ => .inr paid⟩
      | ok done =>
        have whole := handed.trans (complete rfl)
        refine ⟨begun, ?_, ?_, fun _ => .inr paid⟩
        · intro count returned
          cases returned
          exact ⟨whole.trans (prefix_iff_eq_take.mp part), part.length_le⟩
        · intro count _ returned
          cases returned
          exact ⟨whole.trans offers, fun _ => length_pos_iff.mpr ne⟩

theorem passOn_spec {budget : Budget} {call : Call} {bytes : Bytes} (world : World)
    (same : call.data = bytes) (pending : call.handshakePending = true) :
    Handed budget call (passOn world bytes).1 (passOn world bytes).2.1 := by
  unfold passOn
  rcases world.answers with - | ⟨answer, answers⟩
  · exact ⟨by simp [written], by simp, by simp, by simp [pending]⟩
  · cases answer with
    | error error => exact ⟨by simp [written], by simp, by simp, by simp [pending]⟩
    | ok count =>
      refine ⟨?_, ?_, by simp [pending], by simp [pending]⟩
      · simpa [written, same] using take_prefix _ bytes
      · intro taken returned
        cases returned
        rw [same]
        exact ⟨by simp [written], by omega⟩

/-- A call that offers nothing does nothing. -/
theorem handed_nothing {budget : Budget} {call : Call} (empty : call.offered budget = []) :
    Handed budget call (.returned (.ok 0)) [] := by
  refine ⟨by simp [written], ?_, ?_, fun _ => .inl rfl⟩
  · intro count returned
    cases returned
    simp [written]
  · intro count _ _
    exact ⟨empty.symm, fun some => absurd empty (Call.offered_ne_nil some)⟩

theorem Call.run_spec (budget : Budget) (world : World) (call : Call) :
    Handed budget call (call.run budget world).1 (call.run budget world).2.1 := by
  cases handshaken : call.handshakePending with
  | false =>
    rcases call.run_eq handshaken world with ⟨slices, offers, ran⟩
    rw [ran]
    split_ifs with empty
    · rw [List.isEmpty_iff] at empty
      exact handed_nothing (offers.symm.trans empty)
    · rw [List.isEmpty_iff] at empty
      exact reserveAndWrite_spec world offers empty
  | true =>
    cases call with
    | write pending bytes =>
      obtain rfl : pending = true := handshaken
      rw [run, pacedWrite, if_pos (show true = true from rfl)]
      split_ifs with empty
      · rw [List.isEmpty_iff] at empty
        subst empty
        exact handed_nothing take_nil
      · exact passOn_spec world rfl rfl
    | writeVectored pending buffers =>
      obtain rfl : pending = true := handshaken
      exact passOn_spec world rfl rfl

/-- Every call of a sequence hands on its bytes in order and reserves them first. -/
theorem handed_of_runCalls (budget : Budget) (world : World) (calls : List Call) :
    ∀ entry ∈ runCalls budget world calls, Handed budget entry.1 entry.2.1 entry.2.2 := by
  induction calls generalizing world with
  | nil => simp [runCalls]
  | cons call rest ih =>
    have here := call.run_spec budget world
    unfold runCalls
    rcases ran : call.run budget world with ⟨outcome, events, next⟩
    rw [ran] at here
    cases outcome with
    | waiting =>
      rw [forall_mem_singleton]
      exact here
    | returned result =>
      rw [forall_mem_cons]
      exact ⟨here, ih next⟩

/-! ## Calls that return -/

/-- Nothing stops the copy, and the inner writer, apart from interruptions, takes something at
least so many times. -/
structure World.Answers (world : World) (bytes : Nat) : Prop where
  unstopped : ∀ stop ∈ world.stops, stop = false
  benign : Benign world.answers
  enough : bytes ≤ takes world.answers

/-- A call after the handshake returns once the inner writer has taken what it offers. -/
theorem Call.returns {budget : Budget} {call : Call} {world : World} {more : Nat}
    (handshaken : call.handshakePending = false)
    (answers : world.Answers ((call.offered budget).length + more)) :
    ∃ events next, call.run budget world =
      (.returned (.ok (call.offered budget).length), events, next) ∧ next.Answers more := by
  have enough := answers.enough
  rcases call.run_eq handshaken world with ⟨slices, offers, ran⟩
  rw [ran, ← offers]
  split_ifs with empty
  · rw [List.isEmpty_iff] at empty
    rw [empty]
    exact ⟨[], world, rfl, answers.unstopped, answers.benign, by omega⟩
  · rw [List.isEmpty_iff] at empty
    rw [← offers] at enough
    rcases wait_of_unstopped answers.unstopped slices.flatten.length with
      ⟨stops, waited, unstopped⟩
    rcases writeSlices_of_benign answers.benign (by omega) (.inr empty) with
      ⟨writes, rest, wrote, -, benign, spent⟩
    refine ⟨_, ⟨rest, stops⟩, by rw [reserveAndWrite, waited, wrote], unstopped, benign, ?_⟩
    dsimp only
    omega

/-- Calls after the handshake return one after the other, each with all that it offers. -/
theorem runCalls_return {budget : Budget} {world : World} {calls : List Call}
    (handshaken : ∀ call ∈ calls, call.handshakePending = false)
    (answers : world.Answers (calls.map fun call => (call.offered budget).length).sum) :
    (runCalls budget world calls).map (fun entry => (entry.2.1, written entry.2.2)) =
      calls.map fun call =>
        (.returned (.ok (call.offered budget).length), call.offered budget) := by
  induction calls generalizing world with
  | nil => rfl
  | cons call rest ih =>
    rw [forall_mem_cons] at handshaken
    rw [map_cons, sum_cons] at answers
    rcases Call.returns handshaken.1 answers with ⟨events, next, ran, left⟩
    have handed := call.run_spec budget world
    rw [ran] at handed
    rw [runCalls, ran, map_cons, map_cons, ih handshaken.2 left,
      (handed.accepted _ handshaken.1 rfl).1]

/-! ## The cap -/

/-- The cap holds for all writers together, over every window of time and whatever idle time
came before it.  A paced writer hands on its caller's bytes in order, each after it was
reserved; and if nothing stops it and the inner writer answers, it returns with a chunk of
them. -/
theorem bandwidth_cap_is_aggregate {ι : Type} [DecidableEq ι] (budget : Budget) :
    (∀ (counter : Nat) (events : List (Event ι)) (state : State ι), counter ≤ u64Max →
      (system budget).exec ⟨counter, ∅, []⟩ events = some state → InRange state.log →
        ∀ from' length, releasedIn state.log from' length * second <
          budget.rate * length + budget.burst * second + budget.rate) ∧
      ∀ (world : World) (calls : List Call),
        (∀ entry ∈ runCalls budget world calls, Handed budget entry.1 entry.2.1 entry.2.2) ∧
        ((∀ call ∈ calls, call.handshakePending = false) →
          world.Answers (calls.map fun call => (call.offered budget).length).sum →
          (runCalls budget world calls).map (fun entry => (entry.2.1, written entry.2.2)) =
            calls.map fun call =>
              (.returned (.ok (call.offered budget).length), call.offered budget)) := by
  constructor
  · intro counter events state bounded ran inRange
    exact releasedIn_lt (slots_of_exec bounded ran) inRange
  · intro world calls
    exact ⟨handed_of_runCalls budget world calls, runCalls_return⟩

/-- At three hundred bytes a second a burst is three bytes.  Two writers reserve one each after
an idle second; a caller's five bytes are cut, and its next two buffers joined, though the
inner writer is slow. -/
theorem bandwidth_cap_at_three_hundred :
    let budget : Budget := ⟨300, by decide, by decide⟩
    let run := (system budget).exec (⟨0, ∅, []⟩ : State Nat)
      [.load 0 1000000000 3 0, .load 1 1000000000 3 0, .exchange 0, .retry 1 1000000000,
        .exchange 1]
    let calls : List Call := [.write false [1, 2, 3, 4, 5], .writeVectored false [[], [4], [5, 6]]]
    let world : World := ⟨[.ok 2, .error .interrupted, .ok 9, .ok 1, .ok 1, .ok 1, .ok 1],
      [false]⟩
    (run.map fun state => state.log.map Reservation.release) = some [1000000000, 1010000000] ∧
      (∀ state, run = some state → InRange state.log →
        releasedIn state.log 0 1000000000 * second < 300 * 1000000000 + 3 * second + 300) ∧
      (runCalls budget world calls).map (fun entry => (entry.2.1, written entry.2.2)) =
        [(.returned (.ok 3), [1, 2, 3]), (.returned (.ok 3), [4, 5, 6])] := by
  intro budget run calls world
  refine ⟨by decide +kernel, fun state ran inRange => ?_, ?_⟩
  · have cap := (bandwidth_cap_is_aggregate budget).1 0 _ state (by decide) ran inRange 0 1000000000
    have burst : budget.burst = 3 := by decide +kernel
    rwa [burst] at cap
  · have returned := ((@bandwidth_cap_is_aggregate Nat _ budget).2 world calls).2 (by decide)
      ⟨by decide, by simp [Benign, world], by decide⟩
    have offers : calls.map (Call.offered budget) = [[1, 2, 3], [4, 5, 6]] := by decide +kernel
    have pairs := congrArg (map fun bytes : Bytes =>
      ((.returned (.ok bytes.length) : Outcome Nat), bytes)) offers
    rw [map_map] at pairs
    exact returned.trans pairs

end Syq.Bwlimit
