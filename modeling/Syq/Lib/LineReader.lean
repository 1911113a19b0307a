import Mathlib

/-!
# Reading a text of lines in chunks

A reader closes one line after another and keeps the unfinished line between two chunks.
A text reads the same in one chunk as in any split of it, and reading it to its end is
closing its lines one by one.
-/

namespace Syq.Lib

open List

universe u v w

section Split

variable {α : Type u} [DecidableEq α] {separator : α} {line : List α}

/-- The parts of a text, each closed by the separator except perhaps the last. -/
def splitInclusive (separator : α) : List α → List (List α)
  | [] => []
  | item :: rest =>
    if item = separator then [item] :: splitInclusive separator rest
    else
      match splitInclusive separator rest with
      | [] => [[item]]
      | part :: parts => (item :: part) :: parts

/-- The first separator closes the first part. -/
theorem splitInclusive_closed (unclosed : separator ∉ line) (rest : List α) :
    splitInclusive separator (line ++ separator :: rest) =
      (line ++ [separator]) :: splitInclusive separator rest := by
  induction line with
  | nil => simp [splitInclusive]
  | cons item line ih =>
    rw [mem_cons, not_or] at unclosed
    rw [cons_append, splitInclusive, if_neg (Ne.symm unclosed.1), ih unclosed.2]
    rfl

/-- A text without a separator is one part. -/
theorem splitInclusive_last (unclosed : separator ∉ line) (ne : line ≠ []) :
    splitInclusive separator line = [line] := by
  induction line with
  | nil => exact absurd rfl ne
  | cons item line ih =>
    rw [mem_cons, not_or] at unclosed
    rw [splitInclusive, if_neg (Ne.symm unclosed.1)]
    cases line with
    | nil => rfl
    | cons second line => rw [ih unclosed.2 (by simp)]

/-- A text either holds no separator or is taken apart at its first one. -/
theorem eq_append_separator (separator : α) (text : List α) :
    separator ∉ text ∨ ∃ line rest, separator ∉ line ∧ text = line ++ separator :: rest := by
  by_cases closed : separator ∈ text
  · rcases eq_append_cons_of_mem closed with ⟨line, rest, split, unclosed⟩
    exact .inr ⟨line, rest, unclosed, split⟩
  · exact .inl closed

/-- The separators of a text are taken in turn. -/
theorem splitInclusive_induction (separator : α) {motive : List α → Prop}
    (unclosed : ∀ line, separator ∉ line → motive line)
    (closed : ∀ line rest, separator ∉ line → motive rest → motive (line ++ separator :: rest))
    (text : List α) : motive text := by
  rcases eq_append_separator separator text with whole | ⟨line, rest, whole, split⟩
  · exact unclosed text whole
  · rw [split]
    exact closed line rest whole (splitInclusive_induction separator unclosed closed rest)
termination_by text.length
decreasing_by simp [split]; omega

end Split

/-- What a reader of lines does with each of them. -/
structure LineReader (α : Type u) (σ : Type v) (ε : Type w) where
  separator : α
  /-- The longest line, its separator included. -/
  limit : Nat
  tooLong : ε
  /-- Close a line, with its separator where it has one. -/
  close : σ → List α → Except ε σ

namespace LineReader

variable {α : Type u} {σ : Type v} {ε : Type w} [DecidableEq α] (reader : LineReader α σ ε)
variable {read : σ × List α}

/-- Add a part to the unfinished line. -/
def readPart (read : σ × List α) (part : List α) : Except ε (σ × List α) :=
  if reader.limit < read.2.length + part.length then .error reader.tooLong
  else if part.getLast? = some reader.separator then
    (reader.close read.1 (read.2 ++ part)).map fun state => (state, [])
  else .ok (read.1, read.2 ++ part)

/-- Read one chunk of a text. -/
def readChunk (read : σ × List α) (text : List α) : Except ε (σ × List α) :=
  (splitInclusive reader.separator text).foldlM reader.readPart read

/-- Close one line of a text that is at hand as a whole. -/
def closeLine (state : σ) (line : List α) : Except ε σ :=
  if reader.limit < line.length then .error reader.tooLong else reader.close state line

variable {reader}

@[simp]
theorem readChunk_nil (read : σ × List α) : reader.readChunk read [] = .ok read :=
  rfl

/-- A chunk without a separator only grows the unfinished line. -/
theorem readChunk_unclosed (within : read.2.length ≤ reader.limit) {text : List α}
    (unclosed : reader.separator ∉ text) :
    reader.readChunk read text =
      if reader.limit < read.2.length + text.length then .error reader.tooLong
      else .ok (read.1, read.2 ++ text) := by
  by_cases empty : text = []
  · rw [empty, if_neg (by simpa using within)]
    simp
  · have last : text.getLast? ≠ some reader.separator := fun closed =>
      unclosed (mem_of_getLast? closed)
    rw [readChunk, splitInclusive_last unclosed empty, foldlM_cons, readPart]
    split <;> rfl

/-- A separator closes the unfinished line and the rest is read from the next one. -/
theorem readChunk_closed {line : List α} (unclosed : reader.separator ∉ line) (rest : List α) :
    reader.readChunk read (line ++ reader.separator :: rest) =
      (reader.closeLine read.1 (read.2 ++ (line ++ [reader.separator]))).bind fun state =>
        reader.readChunk (state, []) rest := by
  have last : (line ++ [reader.separator]).getLast? = some reader.separator := by simp
  rw [readChunk, splitInclusive_closed unclosed, foldlM_cons, readPart, closeLine, ← length_append]
  split
  · rfl
  · cases reader.close read.1 (read.2 ++ (line ++ [reader.separator])) <;> rfl

/-- What was read keeps its unfinished line within the limit. -/
theorem readChunk_within {next : σ × List α} (within : read.2.length ≤ reader.limit) {text : List α}
    (reads : reader.readChunk read text = .ok next) : next.2.length ≤ reader.limit := by
  induction text using splitInclusive_induction reader.separator generalizing read with
  | unclosed line unclosed =>
    rw [readChunk_unclosed within unclosed] at reads
    split at reads
    · cases reads
    · rename_i short
      cases reads
      simpa using Nat.not_lt.mp short
  | closed line rest unclosed ih =>
    rw [readChunk_closed unclosed] at reads
    cases closes : reader.closeLine read.1 (read.2 ++ (line ++ [reader.separator])) with
    | error error => rw [closes] at reads; cases reads
    | ok state =>
      rw [closes] at reads
      exact ih (by simp) reads

/-- Two chunks read as one. -/
theorem readChunk_append (within : read.2.length ≤ reader.limit) (first second : List α) :
    reader.readChunk read (first ++ second) =
      (reader.readChunk read first).bind fun next => reader.readChunk next second := by
  induction first using splitInclusive_induction reader.separator generalizing read with
  | closed line rest unclosed ih =>
    rw [append_assoc, cons_append, readChunk_closed unclosed, readChunk_closed unclosed]
    cases reader.closeLine read.1 (read.2 ++ (line ++ [reader.separator])) with
    | error error => rfl
    | ok state => exact ih (by simp)
  | unclosed line unclosed =>
    rw [readChunk_unclosed within unclosed]
    -- The line goes on in the second chunk, where its first separator closes it.
    rcases eq_append_separator reader.separator second with open' | ⟨more, rest, apart, secondEq⟩
    · have both : reader.separator ∉ line ++ second := by simp [unclosed, open']
      rw [readChunk_unclosed within both, length_append]
      split
      · rename_i long
        split
        · rfl
        · have grown : read.2.length + line.length ≤ reader.limit := by omega
          rw [Except.bind, readChunk_unclosed (by simpa using grown) open',
            if_pos (by simpa [Nat.add_assoc] using long)]
      · rename_i short
        have grown : read.2.length + line.length ≤ reader.limit := by omega
        rw [if_neg (by omega), Except.bind, readChunk_unclosed (by simpa using grown) open',
          if_neg (by simpa [Nat.add_assoc] using short)]
        simp
    · have both : reader.separator ∉ line ++ more := by simp [unclosed, apart]
      rw [secondEq, ← append_assoc, readChunk_closed both]
      split
      · rw [closeLine, if_pos (by simp only [length_append]; omega)]
        rfl
      · rw [Except.bind, readChunk_closed apart]
        simp

/-- Reading a text to its end closes its lines one by one. -/
theorem readChunk_close (state : σ) (text : List α)
    (closeNil : ∀ state : σ, reader.close state [] = .ok state) :
    ((reader.readChunk (state, []) text).bind fun read => reader.close read.1 read.2) =
      (splitInclusive reader.separator text).foldlM reader.closeLine state := by
  induction text using splitInclusive_induction reader.separator generalizing state with
  | unclosed line unclosed =>
    rw [readChunk_unclosed (by simp) unclosed]
    by_cases empty : line = []
    · simp [empty, splitInclusive, closeNil, Except.bind, pure, Except.pure]
    · rw [splitInclusive_last unclosed empty, foldlM_cons, closeLine]
      simp only [length_nil, Nat.zero_add]
      split
      · rfl
      · cases closes : reader.close state line <;>
          simp [Except.bind, closes, bind, pure, Except.pure]
  | closed line rest unclosed ih =>
    rw [readChunk_closed unclosed, splitInclusive_closed unclosed, foldlM_cons, nil_append]
    cases reader.closeLine state (line ++ [reader.separator]) with
    | error error => rfl
    | ok state => exact ih state

end LineReader

end Syq.Lib
