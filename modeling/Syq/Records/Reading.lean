import Syq.Records.Model

/-!
# The two reading paths are one

A read that needs a new record opens it in the reader's buffer or in the caller's.  Either way it
is the same abstract read: the next record is taken from the transport and opened, its first
bytes are handed out and the rest stays readable.  A failure hands out nothing, leaves nothing
readable, and leaves the caller's buffer as it was up to some zeros in front.
-/

namespace Syq.Records

open Syq.Lib RecordReader List Option

variable {out : Bytes}

/-! ## The abstract read -/

/-- The bytes that the reader has still to hand out. -/
def RecordReader.readable (reader : RecordReader) : Bytes :=
  reader.buf.drop reader.pos

/-- Read a body of this length and open it. -/
def openRecord (aead : Aead) (cipher : Option Cipher) (length : Nat)
    (answers : List (Answer UInt8)) : Except IoError Bytes × Option Cipher × List (Answer UInt8) :=
  match readExact answers length with
  | (.error error, _, rest) => (.error error, cipher, rest)
  | (.ok (), body, rest) =>
    match cipher with
    | none => (.ok body, none, rest)
    | some cipher =>
      match aead.openInPlace cipher.nonce body with
      | .opened plain _ => (.ok plain, cipher.next, rest)
      | .failed _ =>
        (.error (.invalidData "authentication failed (wrong key or corrupted data)"),
          cipher.next, rest)

/-- The plaintext of the next record. -/
def nextRecord (aead : Aead) (cipher : Option Cipher) (answers : List (Answer UInt8)) :
    Except IoError Bytes × Option Cipher × List (Answer UInt8) :=
  match readLength answers with
  | (.error error, rest) => (.error error, cipher, rest)
  | (.ok length, rest) => openRecord aead cipher length rest

/-- The first of the bytes go to the caller, who finds the buffer unchanged behind them, and the
others stay readable. -/
structure Hands (out bytes : Bytes) (read : ReadResult) : Prop where
  result_eq : read.result = .ok (min out.length bytes.length)
  out_eq : read.out = bytes.take (min out.length bytes.length) ++
    out.drop (min out.length bytes.length)
  readable_eq : read.reader.readable = bytes.drop (min out.length bytes.length)

/-- Nothing is handed out and nothing is readable. -/
structure Refuses (out : Bytes) (error : IoError) (read : ReadResult) : Prop where
  result_eq : read.result = .error error
  out_eq : ∃ count ≤ out.length, read.out = List.replicate count 0 ++ out.drop count
  readable_eq : read.reader.readable = []

/-- What a read does. -/
inductive Reads (aead : Aead) (reader : RecordReader) (out : Bytes)
    (answers : List (Answer UInt8)) : ReadResult → Prop where
  | nothing (empty : out = []) : Reads aead reader out answers ⟨.ok 0, out, reader, answers⟩
  | rest {read : ReadResult} (nonempty : out ≠ []) (remains : reader.readable ≠ [])
      (hands : Hands out reader.readable read) (cipher_eq : read.reader.cipher = reader.cipher)
      (answers_eq : read.answers = answers) : Reads aead reader out answers read
  | record {read : ReadResult} {plain : Bytes} (nonempty : out ≠ []) (used : reader.readable = [])
      (next : nextRecord aead reader.cipher answers = (.ok plain, read.reader.cipher, read.answers))
      (hands : Hands out plain read) : Reads aead reader out answers read
  | refused {read : ReadResult} {error : IoError} (nonempty : out ≠ [])
      (used : reader.readable = [])
      (next : nextRecord aead reader.cipher answers =
        (.error error, read.reader.cipher, read.answers))
      (refuses : Refuses out error read) : Reads aead reader out answers read

/-! ## Buffers -/

theorem copyInto_zero (out bytes : Bytes) :
    copyInto out 0 bytes = bytes ++ out.drop bytes.length := by
  simp [copyInto]

/-- Bytes that cover those written before. -/
theorem copyInto_copyInto_zero {first second : Bytes} (covers : first.length ≤ second.length) :
    copyInto (copyInto out 0 first) 0 second = second ++ out.drop second.length := by
  have behind : second.length = first.length + (second.length - first.length) := by omega
  rw [copyInto_zero, copyInto_zero, drop_append, drop_eq_nil_of_le covers, nil_append,
    drop_drop, ← behind]

/-- Putting the saved bytes back leaves the buffer changed only in front of them. -/
theorem copyInto_saved {front : Bytes} {stop tag : Nat} (covers : stop + tag = front.length)
    (room : front.length ≤ out.length) :
    copyInto (front ++ out.drop front.length) stop ((out.drop stop).take tag) =
      front.take stop ++ out.drop stop := by
  have saved : ((out.drop stop).take tag).length = tag := by
    rw [length_take, length_drop]
    omega
  have behind : (out.drop stop).take tag ++ out.drop front.length = out.drop stop := by
    rw [← covers, ← drop_drop, take_append_drop]
  rw [copyInto, saved, covers, take_append_of_le_length (by omega), drop_left,
    append_assoc, behind]

/-! ## The paths -/

theorem handOut_hands (reader : RecordReader) (out : Bytes) (answers : List (Answer UInt8)) :
    Hands out reader.readable (reader.handOut out answers) := by
  have length : reader.readable.length = reader.buf.length - reader.pos := length_drop
  refine ⟨?_, ?_, ?_⟩
  · rw [length]
    rfl
  · have taken : ((reader.buf.drop reader.pos).take
        (min out.length (reader.buf.length - reader.pos))).length =
        min out.length (reader.buf.length - reader.pos) := by
      rw [length_take, length_drop]
      omega
    rw [length, handOut, copyInto_zero, taken]
    rfl
  · rw [length, readable, readable, drop_drop]
    rfl

/-- Reading into the reader's own buffer opens the next record there. -/
theorem fill_spec (aead : Aead) (reader : RecordReader) (length : Nat)
    (answers : List (Answer UInt8)) :
    (∃ plain filled rest, reader.fill aead length answers = (.ok (), filled, rest) ∧
      openRecord aead reader.cipher length answers = (.ok plain, filled.cipher, rest) ∧
      filled.readable = plain) ∨
    ∃ error filled rest, reader.fill aead length answers = (.error error, filled, rest) ∧
      openRecord aead reader.cipher length answers = (.error error, filled.cipher, rest) ∧
      filled.readable = [] := by
  have resized : (reader.buf.take length ++
      replicate (length - reader.buf.length) (0 : UInt8)).length = length := by
    rw [length_append, length_take, length_replicate]
    omega
  have lengths := readExact_spec answers length
  unfold fill openRecord
  rcases ran : readExact answers length with ⟨result, bytes, rest⟩
  rw [ran] at lengths
  dsimp only at lengths ⊢
  cases result with
  | error error =>
    refine .inr ⟨_, _, _, rfl, rfl, ?_⟩
    apply drop_eq_nil_of_le
    dsimp only
    rw [copyInto_zero, length_append, length_drop]
    omega
  | ok done =>
    have whole : copyInto (reader.buf.take length ++
        replicate (length - reader.buf.length) (0 : UInt8)) 0 bytes = bytes := by
      rw [copyInto_zero, drop_eq_nil_of_le (by rw [resized, lengths.2 rfl]), append_nil]
    dsimp only
    rw [whole]
    rcases reader with ⟨cipher, buf, pos⟩
    cases cipher with
    | none => exact .inl ⟨_, _, _, rfl, rfl, rfl⟩
    | some cipher =>
      dsimp only
      unfold Cipher.openInPlace Cipher.openBuffer
      cases opened : aead.openInPlace cipher.nonce bytes with
      | failed left => exact .inr ⟨_, _, _, rfl, rfl, drop_nil⟩
      | opened plain tail =>
        refine .inl ⟨_, _, _, rfl, rfl, ?_⟩
        exact take_left

/-- Reading into the caller's buffer opens the next record there. -/
theorem readDirect_spec (aead : Aead) {reader : RecordReader} {length : Nat}
    (used : reader.readable = []) (room : length ≤ out.length) (answers : List (Answer UInt8)) :
    (∃ plain, openRecord aead reader.cipher length answers =
        (.ok plain, (reader.readDirect aead length out answers).reader.cipher,
          (reader.readDirect aead length out answers).answers) ∧
      Hands out plain (reader.readDirect aead length out answers)) ∨
    ∃ error, openRecord aead reader.cipher length answers =
        (.error error, (reader.readDirect aead length out answers).reader.cipher,
          (reader.readDirect aead length out answers).answers) ∧
      Refuses out error (reader.readDirect aead length out answers) := by
  have lengths := readExact_spec answers length
  -- Whatever stood in the first bytes, the zeros replace it and the saved bytes come back.
  have cleared : ∀ (written : Bytes) (stop tag : Nat), written.length ≤ length →
      stop + tag = length → ∃ count ≤ out.length,
        copyInto (copyInto (copyInto out 0 written) 0 (replicate length 0)) stop
          ((out.drop stop).take tag) = replicate count 0 ++ out.drop count := by
    intro written stop tag short sum
    have zeros : (replicate length (0 : UInt8)).length = length := length_replicate
    refine ⟨stop, by omega, ?_⟩
    rw [copyInto_copyInto_zero (by omega), copyInto_saved (by omega) (by omega),
      take_replicate, Nat.min_eq_left (by omega)]
  unfold readDirect openRecord
  rcases ran : readExact answers length with ⟨result, bytes, rest⟩
  rw [ran] at lengths
  dsimp only at lengths ⊢
  have tagSum : length - (if reader.cipher.isSome then min tagLen length else 0) +
      (if reader.cipher.isSome then min tagLen length else 0) = length := by
    split_ifs <;> omega
  cases result with
  | error error => exact .inr ⟨error, rfl, rfl, cleared bytes _ _ lengths.1 tagSum, used⟩
  | ok done =>
    have whole := lengths.2 rfl
    have filled : (copyInto out 0 bytes).take length = bytes := by
      rw [copyInto_zero, ← whole, take_left]
    rcases reader with ⟨cipher, buf, pos⟩
    cases cipher with
    | none =>
      have count : min out.length bytes.length = bytes.length := by omega
      refine .inl ⟨bytes, rfl, ?_, ?_, ?_⟩
      · rw [count, whole]
      · dsimp only [isSome_none]
        rw [if_neg (by decide), Nat.sub_zero, count, copyInto_zero,
          copyInto_saved (by omega) (by omega), ← whole, take_length]
      · rw [count, drop_length]
        exact used
    | some cipher =>
      dsimp only [isSome_some]
      rw [filled]
      unfold Cipher.openBuffer
      cases opened : aead.openInPlace cipher.nonce bytes with
      | failed left =>
        have same := aead.length_failed opened
        have zeros : (replicate length (0 : UInt8)).length = length :=
          length_replicate
        have twice : copyInto (copyInto out 0 bytes) 0 (replicate left.length 0) =
            copyInto out 0 (replicate length 0) := by
          rw [same, whole, copyInto_copyInto_zero (by omega), copyInto_zero]
        refine .inr ⟨_, rfl, rfl, ?_, used⟩
        dsimp only
        rw [twice]
        exact cleared _ _ _ zeros.le tagSum
      | opened plain tail =>
        have lengthsOpened := aead.length_opened opened
        have tag : min tagLen length = tagLen := by omega
        have stop : length - tagLen = plain.length := by omega
        have count : min out.length plain.length = plain.length := by omega
        have covers : (plain ++ tail).length = length := by
          rw [length_append]
          omega
        refine .inl ⟨plain, rfl, ?_, ?_, ?_⟩
        · rw [count]
        · dsimp only
          rw [if_pos rfl, copyInto_copyInto_zero (by omega), tag, stop,
            copyInto_saved (by omega) (by omega), take_left, count, take_length]
        · rw [count, drop_length]
          exact used

/-- Every read is one of the abstract reads. -/
theorem read_spec (aead : Aead) (reader : RecordReader) (out : Bytes)
    (answers : List (Answer UInt8)) :
    Reads aead reader out answers (reader.read aead out answers) := by
  unfold RecordReader.read
  split_ifs with empty used
  · exact .nothing (isEmpty_iff.mp empty)
  · have ne : out ≠ [] := by simpa using empty
    have usedUp : reader.readable = [] := drop_eq_nil_of_le used
    rcases lengthRead : readLength answers with ⟨result, rest⟩
    have next : nextRecord aead reader.cipher answers =
        (match (result, rest) with
          | (.error error, rest) => (.error error, reader.cipher, rest)
          | (.ok length, rest) => openRecord aead reader.cipher length rest) := by
      rw [nextRecord, lengthRead]
    cases result with
    | error error =>
      exact .refused ne usedUp next ⟨rfl, ⟨0, Nat.zero_le _, rfl⟩, usedUp⟩
    | ok length =>
      dsimp only at next ⊢
      split_ifs with room
      · rcases readDirect_spec aead usedUp room rest with ⟨plain, opened, hands⟩ |
          ⟨error, opened, refuses⟩
        · exact .record ne usedUp (next.trans opened) hands
        · exact .refused ne usedUp (next.trans opened) refuses
      · rcases fill_spec aead reader length rest with
          ⟨plain, filled, left, ran, opened, readable⟩ |
          ⟨error, filled, left, ran, opened, readable⟩
        · rw [ran]
          have hands := handOut_hands filled out left
          rw [readable] at hands
          exact .record ne usedUp (next.trans opened) hands
        · rw [ran]
          exact .refused ne usedUp (next.trans opened)
            ⟨rfl, ⟨0, Nat.zero_le _, rfl⟩, readable⟩
  · have ne : out ≠ [] := by simpa using empty
    have remains : reader.readable ≠ [] := by
      apply ne_nil_of_length_pos
      rw [readable, length_drop]
      omega
    exact .rest ne remains (handOut_hands reader out answers) rfl rfl

end Syq.Records
