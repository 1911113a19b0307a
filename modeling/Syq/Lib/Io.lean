import Mathlib

/-!
# Loops over a scripted stream

A writer or a reader below the modelled program may take or give fewer items than it was asked
for, be interrupted, or fail.  What it does is a script of answers that the loops consume.  The
loops here write some slices completely or read an exact number of items; their lemmas say what
they do for every script, and that they succeed on scripts which only shorten and interrupt.
-/

namespace Syq.Lib

open List

variable {α : Type}

/-- Why a call on a stream fails. -/
inductive IoError where
  | interrupted
  | writeZero
  | unexpectedEof
  | invalidData (message : String)
  | cancelled
  | other (code : Nat)
  deriving DecidableEq

/-- A call either returns or waits for the stream forever. -/
inductive Outcome (β : Type) where
  | waiting
  | returned (result : Except IoError β)

/-! ## Writing slices -/

/-- Drop so many items from the front of the slices. -/
def advanceSlices : Nat → List (List α) → List (List α)
  | _, [] => []
  | count, slice :: rest =>
    if slice.length ≤ count then advanceSlices (count - slice.length) rest
    else slice.drop count :: rest

theorem flatten_advanceSlices (count : Nat) (slices : List (List α)) :
    (advanceSlices count slices).flatten = slices.flatten.drop count := by
  induction slices generalizing count with
  | nil => simp [advanceSlices]
  | cons slice rest ih =>
    unfold advanceSlices
    split_ifs with whole
    · rw [ih, flatten_cons, drop_append, drop_eq_nil_of_le whole, nil_append]
    · rw [flatten_cons, flatten_cons, drop_append_of_le_length (by omega)]

/-- No empty slice stays when nothing is left to write. -/
theorem advanceSlices_eq_nil {count : Nat} {slices : List (List α)}
    (all : slices.flatten.length ≤ count) : advanceSlices count slices = [] := by
  induction slices generalizing count with
  | nil => rfl
  | cons slice rest ih =>
    rw [flatten_cons, length_append] at all
    rw [advanceSlices, if_pos (by omega)]
    exact ih (by omega)

/-- Write all slices: retry when interrupted, and go on after what the stream took.  The items of
each write that the stream took are returned too. -/
def writeSlices : List (Except IoError Nat) → List (List α) →
    Outcome Unit × List (List α) × List (Except IoError Nat)
  | answers, [] => (.returned (.ok ()), [], answers)
  | [], _ :: _ => (.waiting, [], [])
  | .ok count :: answers, slice :: slices =>
    let taken := min count (slice :: slices).flatten.length
    if taken = 0 then (.returned (.error .writeZero), [], answers)
    else
      let (outcome, writes, rest) := writeSlices answers (advanceSlices taken (slice :: slices))
      (outcome, (slice :: slices).flatten.take taken :: writes, rest)
  | .error .interrupted :: answers, slice :: slices => writeSlices answers (slice :: slices)
  | .error error :: answers, _ :: _ => (.returned (.error error), [], answers)

/-- The loop hands on a beginning of the slices' items, and all of them if it succeeds. -/
theorem writeSlices_spec (answers : List (Except IoError Nat)) (slices : List (List α)) :
    (writeSlices answers slices).2.1.flatten <+: slices.flatten ∧
      ((writeSlices answers slices).1 = .returned (.ok ()) →
        (writeSlices answers slices).2.1.flatten = slices.flatten) := by
  induction answers generalizing slices with
  | nil =>
    cases slices with
    | nil => simp [writeSlices]
    | cons slice slices => simp [writeSlices]
  | cons answer answers ih =>
    cases slices with
    | nil => simp [writeSlices]
    | cons slice slices =>
      cases answer with
      | error error =>
        cases error with
        | interrupted => exact ih (slice :: slices)
        | _ => simp [writeSlices]
      | ok count =>
        unfold writeSlices
        dsimp only
        split_ifs with none
        · simp
        · rcases ih (advanceSlices
            (min count (slice :: slices).flatten.length) (slice :: slices)) with
            ⟨beginning, complete⟩
          rw [flatten_advanceSlices] at beginning complete
          constructor
          · have joined := (prefix_append_right_inj ((slice :: slices).flatten.take
                (min count (slice :: slices).flatten.length))).mpr beginning
            rwa [take_append_drop] at joined
          · intro success
            rw [flatten_cons, complete success, take_append_drop]

/-- The stream only shortens writes and interrupts them. -/
def Benign (answers : List (Except IoError Nat)) : Prop :=
  ∀ answer ∈ answers, answer = .error .interrupted ∨ ∃ count, answer = .ok (count + 1)

/-- How many of the answers take something. -/
def takes (answers : List (Except IoError Nat)) : Nat :=
  answers.countP fun answer => answer.isOk

/-- A stream that only shortens and interrupts lets the loop succeed, for one answer at most for
each item. -/
theorem writeSlices_of_benign {answers : List (Except IoError Nat)} {slices : List (List α)}
    (benign : Benign answers) (enough : slices.flatten.length ≤ takes answers)
    (ne : slices = [] ∨ slices.flatten ≠ []) :
    ∃ writes rest, writeSlices answers slices = (.returned (.ok ()), writes, rest) ∧
      writes.flatten = slices.flatten ∧ Benign rest ∧
      takes answers ≤ takes rest + slices.flatten.length := by
  induction answers generalizing slices with
  | nil =>
    rcases ne with rfl | some
    · exact ⟨[], [], rfl, rfl, benign, by simp⟩
    · have long := length_pos_iff.mpr some
      simp only [takes, countP_nil] at enough
      omega
  | cons answer answers ih =>
    have later : Benign answers := fun answer mem => benign answer (mem_cons_of_mem _ mem)
    cases slices with
    | nil => exact ⟨[], answer :: answers, rfl, rfl, benign, by simp⟩
    | cons slice slices =>
      rcases benign answer mem_cons_self with rfl | ⟨count, rfl⟩
      · have same : takes (.error .interrupted :: answers) = takes answers := by
          simp [takes, Except.isOk, Except.toBool]
        exact ih later enough ne
      · have more : takes (.ok (count + 1) :: answers) = takes answers + 1 := by
          simp [takes, Except.isOk, Except.toBool]
        have long : 0 < (slice :: slices).flatten.length :=
          length_pos_iff.mpr (ne.resolve_left (by simp))
        set taken := min (count + 1) (slice :: slices).flatten.length with takenEq
        have left : (advanceSlices taken (slice :: slices)).flatten.length =
            (slice :: slices).flatten.length - taken := by
          rw [flatten_advanceSlices, length_drop]
        have shape : advanceSlices taken (slice :: slices) = [] ∨
            (advanceSlices taken (slice :: slices)).flatten ≠ [] := by
          by_cases all : (slice :: slices).flatten.length ≤ taken
          · exact .inl (advanceSlices_eq_nil all)
          · refine .inr (ne_nil_of_length_pos ?_)
            omega
        rcases ih later (by omega) shape with
          ⟨writes, rest, ran, whole, benignRest, spent⟩
        refine ⟨(slice :: slices).flatten.take taken :: writes, rest, ?_, ?_, benignRest, by omega⟩
        · rw [writeSlices]
          rw [if_neg (by omega), ran]
        · rw [flatten_cons, whole, flatten_advanceSlices, take_append_drop]

/-! ## Reading an exact number of items -/

/-- What the stream answers to a read; after the last answer it is at its end. -/
inductive Answer (α : Type) where
  | data (items : List α)
  | interrupted
  | failed (error : IoError)

/-- Read so many items: retry when interrupted, and fail at the end of the stream.  The items that
were read before a failure are returned too. -/
def readExact : List (Answer α) → Nat → Except IoError Unit × List α × List (Answer α)
  | answers, 0 => (.ok (), [], answers)
  | [], _ + 1 => (.error .unexpectedEof, [], [])
  | .interrupted :: answers, count + 1 => readExact answers (count + 1)
  | .failed error :: answers, _ + 1 => (.error error, [], answers)
  | .data items :: answers, count + 1 =>
    if items.isEmpty then (.error .unexpectedEof, [], answers)
    else if count + 1 < items.length then
      (.ok (), items.take (count + 1), .data (items.drop (count + 1)) :: answers)
    else
      let (result, more, rest) := readExact answers (count + 1 - items.length)
      (result, items ++ more, rest)

theorem readExact_spec (answers : List (Answer α)) (count : Nat) :
    (readExact answers count).2.1.length ≤ count ∧
      ((readExact answers count).1 = .ok () → (readExact answers count).2.1.length = count) := by
  induction answers generalizing count with
  | nil => cases count <;> simp [readExact]
  | cons answer answers ih =>
    cases count with
    | zero => simp [readExact]
    | succ count =>
      cases answer with
      | interrupted => exact ih (count + 1)
      | failed error => simp [readExact]
      | data items =>
        unfold readExact
        split_ifs with empty longer
        · simp
        · simp only [length_take]
          omega
        · have later := ih (count + 1 - items.length)
          rcases ran : readExact answers (count + 1 - items.length) with ⟨result, more, rest⟩
          rw [ran] at later
          rcases later with ⟨short, complete⟩
          dsimp only at short complete ⊢
          rw [length_append]
          refine ⟨by omega, ?_⟩
          intro success
          have whole := complete success
          omega

/-- The items that a script gives. -/
def contents : List (Answer α) → List α
  | [] => []
  | .data items :: rest => items ++ contents rest
  | .interrupted :: rest => contents rest
  | .failed _ :: rest => contents rest

/-- The stream gives these items, split and interrupted in some way, and then ends. -/
structure Carries (answers : List (Answer α)) (items : List α) : Prop where
  splits : ∀ answer ∈ answers, answer = .interrupted ∨ ∃ part, part ≠ [] ∧ answer = .data part
  contents_eq : contents answers = items

namespace Carries

variable {answer : Answer α} {answers : List (Answer α)} {items : List α}

/-- The first answer is an interruption or gives the first items. -/
theorem cases_cons (carries : Carries (answer :: answers) items) :
    (answer = .interrupted ∧ Carries answers items) ∨
      ∃ part rest, part ≠ [] ∧ answer = .data part ∧ items = part ++ rest ∧
        Carries answers rest := by
  have splits := fun other mem => carries.splits other (mem_cons_of_mem _ mem)
  have whole := carries.contents_eq
  rcases carries.splits answer mem_cons_self with rfl | ⟨part, ne, rfl⟩
  · exact .inl ⟨rfl, splits, whole⟩
  · exact .inr ⟨part, contents answers, ne, rfl, whole.symm, splits, rfl⟩

/-- A read of no more than what is left succeeds. -/
theorem readExact_eq (carries : Carries answers items) {count : Nat} (fits : count ≤ items.length) :
    ∃ rest, readExact answers count = (.ok (), items.take count, rest) ∧
      Carries rest (items.drop count) := by
  induction answers generalizing items count with
  | nil =>
    obtain rfl : items = [] := carries.contents_eq.symm
    obtain rfl : count = 0 := by simpa using fits
    exact ⟨[], rfl, carries⟩
  | cons answer answers ih =>
    cases count with
    | zero => exact ⟨answer :: answers, rfl, carries⟩
    | succ count =>
      rcases carries.cases_cons with ⟨rfl, later⟩ | ⟨part, items, ne, rfl, rfl, later⟩
      · exact ih later fits
      · rw [length_append] at fits
        rw [readExact, if_neg (by simpa using ne)]
        split_ifs with longer
        · refine ⟨.data (part.drop (count + 1)) :: answers, ?_, ?_, ?_⟩
          · rw [take_append_of_le_length longer.le]
          · refine forall_mem_cons.mpr ⟨.inr ⟨_, ne_nil_of_length_pos ?_, rfl⟩, later.splits⟩
            rw [length_drop]
            omega
          · rw [contents, drop_append_of_le_length longer.le, later.contents_eq]
        · have fitsRest : count + 1 - part.length ≤ items.length := by omega
          rcases ih later fitsRest with ⟨rest, ran, carriesRest⟩
          refine ⟨rest, ?_, ?_⟩
          · have all : part.take (count + 1) = part := take_of_length_le (by omega)
            rw [ran, take_append, all]
          · rwa [drop_append, drop_eq_nil_of_le (by omega), nil_append]

/-- At the end of the stream every read fails, again and again. -/
theorem readExact_end (carries : Carries answers []) (count : Nat) :
    readExact answers (count + 1) = (.error .unexpectedEof, [], []) := by
  induction answers with
  | nil => rfl
  | cons answer answers ih =>
    rcases carries.cases_cons with ⟨rfl, later⟩ | ⟨part, rest, ne, -, whole, -⟩
    · exact ih later
    · exact absurd (append_eq_nil_iff.mp whole.symm).1 ne

end Carries

end Syq.Lib
