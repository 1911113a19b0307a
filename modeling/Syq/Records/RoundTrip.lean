import Syq.Records.Reading

/-!
# What is written is read

The writer cuts what it is given into records, and a transport that only shortens and interrupts
carries their frames.  However the reader's transport splits them and however large the buffers
of its reads are, the reads return the written bytes in order and then meet the end.
-/

namespace Syq.Records

open Syq.Lib RecordWriter List

variable {aead : Aead} {cipher : Option Cipher} {more : Nat} {records : List Bytes}
variable {answers : List (Answer UInt8)}

/-- What was sealed opens again. -/
def Aead.Correct (aead : Aead) : Prop :=
  ∀ nonce plain, ∃ tail,
    aead.openInPlace nonce (aead.sealInPlaceAppendTag nonce plain) = .opened plain tail

/-! ## Sequences of calls -/

inductive Call where
  | write (data : Bytes)
  | flush

/-- The writer and its transport, what the transport has taken and what the writes have taken. -/
structure Run where
  writer : RecordWriter
  sink : Sink
  wire : Bytes
  written : Bytes

namespace Run

def start (cipher : Option Cipher) (sink : Sink) : Run :=
  ⟨.new cipher, sink, [], []⟩

def perform (aead : Aead) (run : Run) : Call → Outcome Run
  | .write data =>
    let effect := run.writer.write aead data run.sink
    match effect.outcome with
    | .waiting => .waiting
    | .returned (.error error) => .returned (.error error)
    | .returned (.ok count) =>
      .returned (.ok ⟨effect.writer, effect.sink, run.wire ++ effect.wire,
        run.written ++ data.take count⟩)
  | .flush =>
    let effect := run.writer.flush aead run.sink
    match effect.outcome with
    | .waiting => .waiting
    | .returned (.error error) => .returned (.error error)
    | .returned (.ok ()) =>
      .returned (.ok ⟨effect.writer, effect.sink, run.wire ++ effect.wire, run.written⟩)

def performAll (aead : Aead) : Run → List Call → Outcome Run
  | run, [] => .returned (.ok run)
  | run, call :: rest =>
    match run.perform aead call with
    | .waiting => .waiting
    | .returned (.error error) => .returned (.error error)
    | .returned (.ok next) => next.performAll aead rest

end Run

/-- The bytes that each read returns, or its error. -/
def runReads (aead : Aead) : RecordReader → List (Answer UInt8) → List Bytes →
    List (Except IoError Bytes)
  | _, _, [] => []
  | reader, answers, out :: rest =>
    let read := reader.read aead out answers
    read.result.map read.out.take :: runReads aead read.reader read.answers rest

theorem length_runReads (aead : Aead) (reader : RecordReader) (answers : List (Answer UInt8))
    (outs : List Bytes) : (runReads aead reader answers outs).length = outs.length := by
  induction outs generalizing reader answers with
  | nil => rfl
  | cons out rest ih => simp [runReads, ih]

/-- The reads return these bytes in order, at least one each, and fail at the end from then on. -/
inductive Delivers : Bytes → List (Except IoError Bytes) → Prop where
  | nil {bytes : Bytes} : Delivers bytes []
  | more {first rest : Bytes} {results : List (Except IoError Bytes)} (nonempty : first ≠ [])
      (later : Delivers rest results) : Delivers (first ++ rest) (.ok first :: results)
  | ended {results : List (Except IoError Bytes)} (later : Delivers [] results) :
      Delivers [] (.error .unexpectedEof :: results)

/-- All bytes that the reads returned. -/
def received (results : List (Except IoError Bytes)) : Bytes :=
  (results.filterMap Except.toOption).flatten

/-- As many reads as there are bytes return all of them. -/
theorem Delivers.received_eq {bytes : Bytes} {results : List (Except IoError Bytes)}
    (delivers : Delivers bytes results) (enough : bytes.length ≤ results.length) :
    received results = bytes := by
  induction delivers with
  | nil =>
    rw [length_nil, Nat.le_zero, length_eq_zero_iff] at enough
    exact enough.symm
  | @more first rest results ne later ih =>
    have long := length_pos_iff.mpr ne
    rw [length_append, length_cons] at enough
    have tail := ih (by omega)
    rw [← tail]
    simp [received, Except.toOption]
  | @ended results later ih =>
    have tail := ih (Nat.zero_le _)
    simpa [received, Except.toOption] using tail

/-! ## Frames -/

/-- The cipher after so many records. -/
def advance (cipher : Option Cipher) (records : Nat) : Option Cipher :=
  cipher.map fun cipher => { cipher with counter := cipher.counter + records }

@[simp]
theorem advance_zero (cipher : Option Cipher) : advance cipher 0 = cipher := by
  cases cipher <;> rfl

theorem advance_advance (cipher : Option Cipher) (first second : Nat) :
    advance (advance cipher first) second = advance cipher (first + second) := by
  cases cipher with
  | none => rfl
  | some cipher => simp [advance, Nat.add_assoc]

/-- The body of a record. -/
def body (aead : Aead) (cipher : Option Cipher) (record : Bytes) : Bytes :=
  match cipher with
  | none => record
  | some cipher => aead.sealInPlaceAppendTag cipher.nonce record

def frame (aead : Aead) (cipher : Option Cipher) (record : Bytes) : Bytes :=
  header (body aead cipher record).length ++ body aead cipher record

/-- The frames of some records, the first of them under this cipher. -/
def frames (aead : Aead) : Option Cipher → List Bytes → Bytes
  | _, [] => []
  | cipher, record :: rest => frame aead cipher record ++ frames aead (advance cipher 1) rest

theorem frames_append (aead : Aead) (cipher : Option Cipher) (first second : List Bytes) :
    frames aead cipher (first ++ second) =
      frames aead cipher first ++ frames aead (advance cipher first.length) second := by
  induction first generalizing cipher with
  | nil => simp [frames]
  | cons record rest ih =>
    rw [cons_append, frames, frames, ih, advance_advance, append_assoc, length_cons, Nat.add_comm 1]

theorem length_body_le (aead : Aead) (cipher : Option Cipher) (record : Bytes) :
    record.length ≤ (body aead cipher record).length ∧
      (body aead cipher record).length ≤ record.length + tagLen := by
  cases cipher with
  | none => exact ⟨Nat.le_refl _, Nat.le_add_right _ _⟩
  | some cipher =>
    rw [body, aead.length_seal]
    exact ⟨Nat.le_add_right _ _, Nat.le_refl _⟩

theorem length_header (length : Nat) : (header length).length = 4 := by
  rw [header, length_reverse, length_toBigEndian]

/-! ## The writer's frames -/

/-- A transport that only shortens and interrupts, for so many writes. -/
structure Patient (sink : Sink) (writes : Nat) : Prop where
  benign : Benign sink.answers
  enough : writes ≤ takes sink.answers
  flushes : ∀ answer ∈ sink.flushes, answer = .ok ()

/-- The record that a buffer makes, if any. -/
def recordOf (buf : Bytes) : List Bytes :=
  if buf.isEmpty then [] else [buf]

theorem mem_recordOf {buf record : Bytes} : record ∈ recordOf buf ↔ buf ≠ [] ∧ record = buf := by
  cases buf <;> simp [recordOf]

theorem flatten_recordOf (buf : Bytes) : (recordOf buf).flatten = buf := by
  cases buf <;> simp [recordOf]

/-- A byte costs at most 21 writes: itself, a header and a tag. -/
theorem emit_of_patient {buf : Bytes} {sink : Sink}
    (patient : Patient sink (21 * buf.length + more)) :
    ∃ records after, RecordWriter.emit aead cipher buf sink =
        ⟨.returned (.ok ()), frames aead cipher (recordOf buf), records,
          .new (advance cipher (recordOf buf).length), after⟩ ∧ Patient after more := by
  unfold emit recordOf
  split_ifs with empty
  · refine ⟨[], sink, ?_, patient.benign, by have := patient.enough; omega, patient.flushes⟩
    simp [frames]
  · have long : 0 < buf.length := length_pos_iff.mpr (by simpa using empty)
    have bodyLength := (length_body_le aead cipher buf).2
    have slices : [header (body aead cipher buf).length, body aead cipher buf].flatten =
        frame aead cipher buf := by simp [frame]
    have frameLength : (frame aead cipher buf).length ≤ 21 * buf.length := by
      unfold tagLen at bodyLength
      rw [frame, length_append, length_header]
      omega
    have ne : frame aead cipher buf ≠ [] := by
      apply ne_nil_of_length_pos
      rw [frame, length_append, length_header]
      omega
    have enough := patient.enough
    rcases writeSlices_of_benign patient.benign (by rw [slices]; omega)
      (.inr (by rw [slices]; exact ne)) with ⟨writes, rest, ran, whole, benign, spent⟩
    rw [slices] at whole spent
    have frames_eq : frames aead cipher [buf] = writes.flatten := by
      rw [whole, frames, frames, append_nil]
    have patientAfter : Patient { sink with answers := rest } more :=
      ⟨benign, by dsimp only; omega, patient.flushes⟩
    cases cipher with
    | none =>
      rw [body] at ran
      rw [frames_eq]
      rw [ran]
      exact ⟨_, _, rfl, patientAfter⟩
    | some cipher =>
      rw [body] at ran
      rw [frames_eq]
      dsimp only [Cipher.sealInPlace]
      rw [ran]
      exact ⟨_, _, rfl, patientAfter⟩

theorem flush_of_patient {writer : RecordWriter} {sink : Sink}
    (patient : Patient sink (21 * writer.buf.length + more)) :
    ∃ records after, writer.flush aead sink =
        ⟨.returned (.ok ()), frames aead writer.cipher (recordOf writer.buf), records,
          .new (advance writer.cipher (recordOf writer.buf).length), after⟩ ∧
      Patient after more := by
  rcases @emit_of_patient aead writer.cipher _ _ _ patient with ⟨records, after, ran, left⟩
  rw [flush, ran]
  rcases after with ⟨answers, flushes⟩
  cases flushes with
  | nil => exact ⟨records, _, rfl, left⟩
  | cons answer flushes =>
    obtain rfl := left.flushes answer mem_cons_self
    refine ⟨records, ⟨answers, flushes⟩, rfl, left.benign, left.enough, ?_⟩
    intro answer mem
    exact left.flushes answer (mem_cons_of_mem _ mem)

/-- The wire holds the frames of some records, and these and the buffer hold what was written. -/
structure Framed (aead : Aead) (cipher : Option Cipher) (run : Run) (records : List Bytes) :
    Prop where
  wire_eq : run.wire = frames aead cipher records
  cipher_eq : run.writer.cipher = advance cipher records.length
  written_eq : run.written = records.flatten ++ run.writer.buf
  nonempty : ∀ record ∈ records, record ≠ []
  small : ∀ record ∈ records, record.length ≤ recordMax

namespace Framed

variable {run : Run}

theorem start (cipher : Option Cipher) (sink : Sink) :
    Framed aead cipher (Run.start cipher sink) [] :=
  ⟨rfl, (advance_zero cipher).symm, rfl, by simp, by simp⟩

/-- The buffer, with some more bytes, becomes a record. -/
theorem emitted (framed : Framed aead cipher run records) (more : Bytes) (after : Sink)
    (small : (run.writer.buf ++ more).length ≤ recordMax) :
    Framed aead cipher
      ⟨.new (advance run.writer.cipher (recordOf (run.writer.buf ++ more)).length), after,
        run.wire ++ frames aead run.writer.cipher (recordOf (run.writer.buf ++ more)),
        run.written ++ more⟩ (records ++ recordOf (run.writer.buf ++ more)) where
  wire_eq := by
    rw [frames_append, framed.wire_eq, framed.cipher_eq]
  cipher_eq := by
    dsimp only [new]
    rw [framed.cipher_eq, advance_advance, length_append]
  written_eq := by
    dsimp only [new]
    rw [framed.written_eq, flatten_append, flatten_recordOf, append_nil, append_assoc]
  nonempty := by
    refine forall_mem_append.mpr ⟨framed.nonempty, fun record last => ?_⟩
    rw [(mem_recordOf.mp last).2]
    exact (mem_recordOf.mp last).1
  small := by
    refine forall_mem_append.mpr ⟨framed.small, fun record last => ?_⟩
    rwa [(mem_recordOf.mp last).2]

end Framed

/-- The bytes that a call gives to the writer. -/
def Call.size : Call → Nat
  | .write data => data.length
  | .flush => 0

/-- The bytes that the calls hand over when so many are buffered: each write as many as the
record still has room for. -/
def accepted : Nat → List Call → Bytes
  | _, [] => []
  | buffered, .write data :: rest =>
    let count := min data.length (recordMax - buffered)
    data.take count ++ accepted ((buffered + count) % recordMax) rest
  | _, .flush :: rest => accepted 0 rest

/-- A write of something hands over at least one byte. -/
theorem accepted_grows {data : Bytes} (ne : data ≠ []) (before : List Call) {buffered : Nat}
    (room : buffered < recordMax) :
    (accepted buffered before).length < (accepted buffered (before ++ [.write data])).length := by
  induction before generalizing buffered with
  | nil =>
    have long := length_pos_iff.mpr ne
    simp only [accepted, nil_append, append_nil, length_nil, length_take]
    omega
  | cons call rest ih =>
    cases call with
    | flush => exact ih (by decide)
    | write first =>
      rw [cons_append, accepted, accepted, length_append, length_append]
      exact Nat.add_lt_add_left (ih (Nat.mod_lt _ (by decide))) _

/-- A call on a patient transport succeeds; after a flush nothing is buffered. -/
theorem perform_of_patient {run : Run} (framed : Framed aead cipher run records) (call : Call)
    (patient : Patient run.sink (21 * (run.writer.buf.length + call.size + more))) :
    ∃ next grown, run.perform aead call = .returned (.ok next) ∧
      Framed aead cipher next grown ∧
      Patient next.sink (21 * (next.writer.buf.length + more)) ∧
      (call = .flush → next.writer.buf = []) ∧
      ∀ rest, run.written ++ accepted run.writer.buf.length (call :: rest) =
        next.written ++ accepted next.writer.buf.length rest := by
  have enough := patient.enough
  have room := run.writer.hasRoom
  cases call with
  | flush =>
    have forBuffer : Patient run.sink (21 * run.writer.buf.length + 21 * more) :=
      ⟨patient.benign, by omega, patient.flushes⟩
    rcases @flush_of_patient aead _ _ _ forBuffer with ⟨logged, after, ran, left⟩
    have whole := framed.emitted [] after (by rw [append_nil]; exact room.le)
    rw [append_nil, append_nil] at whole
    refine ⟨_, _, ?_, whole, ?_, fun _ => rfl, fun _ => rfl⟩
    · rw [Run.perform, ran]
    · simpa [new] using left
  | write data =>
    dsimp only [Call.size] at enough
    set count := min data.length (recordMax - run.writer.buf.length) with countEq
    have taken : (data.take count).length ≤ data.length := length_take_le' ..
    have length : (run.writer.buf ++ data.take count).length =
        run.writer.buf.length + (data.take count).length := length_append
    have cut : (data.take count).length = count := by
      rw [length_take]
      omega
    have fits : (run.writer.buf ++ data.take count).length ≤ recordMax := by omega
    unfold Run.perform write
    dsimp only
    rw [← countEq]
    split_ifs with notFull
    · refine ⟨_, records, rfl, ?_, ?_, by simp, fun rest => ?_⟩
      · exact ⟨by rw [← framed.wire_eq, append_nil], framed.cipher_eq,
          by rw [framed.written_eq, append_assoc], framed.nonempty, framed.small⟩
      · exact ⟨patient.benign, by dsimp only; omega, patient.flushes⟩
      · have next : (run.writer.buf.length + count) % recordMax =
            (run.writer.buf ++ data.take count).length := by
          rw [length, cut] at notFull ⊢
          exact Nat.mod_eq_of_lt notFull
        rw [accepted, ← countEq, next, append_assoc]
    · have forBuffer : Patient run.sink
          (21 * (run.writer.buf ++ data.take count).length + 21 * more) :=
        ⟨patient.benign, by omega, patient.flushes⟩
      rcases @emit_of_patient aead run.writer.cipher _ _ _ forBuffer with
        ⟨logged, after, ran, left⟩
      rw [ran]
      refine ⟨_, _, rfl, framed.emitted _ after fits, ?_, by simp, fun rest => ?_⟩
      · simpa [new] using left
      · have full : (run.writer.buf.length + count) % recordMax = 0 := by
          rw [show run.writer.buf.length + count = recordMax by omega, Nat.mod_self]
        rw [accepted, ← countEq, full, append_assoc]
        rfl

/-- The bytes that some calls give to the writer. -/
def sizes (calls : List Call) : Nat :=
  (calls.map Call.size).sum

theorem performAll_of_patient (calls : List Call) {run : Run}
    (framed : Framed aead cipher run records)
    (patient : Patient run.sink (21 * (run.writer.buf.length + sizes calls))) :
    ∃ last grown, run.performAll aead (calls ++ [.flush]) = .returned (.ok last) ∧
      Framed aead cipher last grown ∧ last.writer.buf = [] ∧
      last.written = run.written ++ accepted run.writer.buf.length calls := by
  induction calls generalizing run records with
  | nil =>
    rcases @perform_of_patient _ _ 0 _ _ framed .flush patient with
      ⟨last, grown, ran, framedLast, -, flushed, same⟩
    refine ⟨last, grown, ?_, framedLast, flushed rfl, ?_⟩
    · rw [nil_append, Run.performAll, ran]
      rfl
    · simpa [accepted] using (same []).symm
  | cons call rest ih =>
    have split : sizes (call :: rest) = call.size + sizes rest := by simp [sizes]
    rw [split, ← Nat.add_assoc] at patient
    rcases perform_of_patient framed call patient with
      ⟨next, grown, ran, framedNext, left, -, same⟩
    rcases ih framedNext left with ⟨last, more, ranRest, framedLast, flushed, written⟩
    refine ⟨last, more, ?_, framedLast, flushed, written.trans (same rest).symm⟩
    rw [cons_append, Run.performAll, ran]
    exact ranRest

/-! ## The reader's records -/

/-- The next record of a transport that carries its frame. -/
theorem nextRecord_of_carries (correct : aead.Correct) {record : Bytes} (ne : record ≠ [])
    (small : record.length ≤ recordMax)
    (carries : Carries answers (frames aead cipher (record :: records))) :
    ∃ rest, nextRecord aead cipher answers = (.ok record, advance cipher 1, rest) ∧
      Carries rest (frames aead (advance cipher 1) records) := by
  have long := length_pos_iff.mpr ne
  have bodyLength := length_body_le aead cipher record
  have headerLength := length_header (body aead cipher record).length
  unfold recordMax at small
  unfold tagLen at bodyLength
  rw [frames, frame, append_assoc] at carries
  have fourBytes : 4 ≤ (header (body aead cipher record).length ++ (body aead cipher record ++
      frames aead (advance cipher 1) records)).length := by
    rw [length_append]
    omega
  rcases carries.readExact_eq fourBytes with ⟨afterHeader, headerRead, carriesBody⟩
  rw [← headerLength, take_left] at headerRead
  rw [← headerLength, drop_left] at carriesBody
  have bodyBytes : (body aead cipher record).length ≤
      (body aead cipher record ++ frames aead (advance cipher 1) records).length := by
    rw [length_append]
    omega
  rcases carriesBody.readExact_eq bodyBytes with ⟨rest, bodyRead, carriesRest⟩
  rw [take_left] at bodyRead
  rw [drop_left] at carriesRest
  have decoded : fromBigEndian (header (body aead cipher record).length).reverse =
      (body aead cipher record).length := by
    rw [header, reverse_reverse, fromBigEndian_toBigEndian (by omega)]
  refine ⟨rest, ?_, carriesRest⟩
  rw [headerLength] at headerRead
  rw [nextRecord, readLength, headerRead]
  dsimp only
  rw [decoded, if_neg (by unfold recordMax; omega)]
  dsimp only
  rw [openRecord, bodyRead]
  cases cipher with
  | none => rfl
  | some cipher =>
    rcases correct cipher.nonce record with ⟨tail, opened⟩
    dsimp only [body]
    rw [opened]
    rfl

theorem nextRecord_end (carries : Carries answers []) :
    nextRecord aead cipher answers = (.error .unexpectedEof, cipher, []) := by
  rw [nextRecord, readLength, carries.readExact_end 3]

/-- A read hands out the first of the readable bytes. -/
theorem Hands.delivers {out bytes rest : Bytes} {read : ReadResult}
    {results : List (Except IoError Bytes)} (hands : Hands out bytes read) (room : out ≠ [])
    (ne : bytes ≠ []) (later : Delivers (read.reader.readable ++ rest) results) :
    Delivers (bytes ++ rest) (read.result.map read.out.take :: results) := by
  have outLong := length_pos_iff.mpr room
  have bytesLong := length_pos_iff.mpr ne
  have length : (bytes.take (min out.length bytes.length)).length =
      min out.length bytes.length := by
    rw [length_take]
    omega
  have joined : bytes ++ rest = bytes.take (min out.length bytes.length) ++
      (read.reader.readable ++ rest) := by
    rw [hands.readable_eq, ← append_assoc, take_append_drop]
  have returned : read.result.map read.out.take =
      .ok (bytes.take (min out.length bytes.length)) := by
    rw [hands.result_eq, hands.out_eq, Except.map, take_left' length]
  rw [joined, returned]
  refine .more (ne_nil_of_length_pos ?_) later
  omega

/-- From any point of the stream the reads deliver what is left of it. -/
theorem runReads_delivers (correct : aead.Correct) {outs : List Bytes}
    (rooms : ∀ out ∈ outs, out ≠ []) {reader : RecordReader}
    (ne : ∀ record ∈ records, record ≠ [])
    (small : ∀ record ∈ records, record.length ≤ recordMax)
    (carries : Carries answers (frames aead reader.cipher records)) :
    Delivers (reader.readable ++ records.flatten) (runReads aead reader answers outs) := by
  induction outs generalizing reader answers records with
  | nil => exact .nil
  | cons out outs ih =>
    have room := rooms out mem_cons_self
    have later := fun out mem => rooms out (mem_cons_of_mem _ mem)
    have spec := read_spec aead reader out answers
    rw [runReads]
    generalize reader.read aead out answers = read at spec
    cases spec with
    | nothing empty => exact absurd empty room
    | rest _ remains hands cipher_eq answers_eq =>
      refine hands.delivers room remains (ih later ne small ?_)
      rw [cipher_eq, answers_eq]
      exact carries
    | @record _ plain _ used next hands =>
      cases records with
      | nil =>
        rw [nextRecord_end carries] at next
        cases next
      | cons record records =>
        rcases nextRecord_of_carries correct (ne record mem_cons_self)
          (small record mem_cons_self) carries with ⟨rest, found, carriesRest⟩
        rw [found] at next
        injection next with plain_eq afterwards
        injection afterwards with cipher_eq answers_eq
        injection plain_eq with plain_eq
        subst plain_eq
        rw [used, flatten_cons]
        refine hands.delivers room (ne record mem_cons_self)
          (ih later (fun record mem => ne record (mem_cons_of_mem _ mem))
            (fun record mem => small record (mem_cons_of_mem _ mem)) ?_)
        rw [← cipher_eq, ← answers_eq]
        exact carriesRest
    | refused _ used next refuses =>
      cases records with
      | nil =>
        rw [nextRecord_end carries] at next
        injection next with error_eq afterwards
        injection afterwards with cipher_eq answers_eq
        injection error_eq with error_eq
        have atEnd : Carries read.answers (frames aead read.reader.cipher []) := by
          rw [← answers_eq]
          exact ⟨by simp, rfl⟩
        have tail := ih later ne small atEnd
        rw [refuses.readable_eq] at tail
        rw [used, refuses.result_eq, ← error_eq]
        exact .ended tail
      | cons record records =>
        rcases nextRecord_of_carries correct (ne record mem_cons_self)
          (small record mem_cons_self) carries with ⟨rest, found, carriesRest⟩
        rw [found] at next
        cases next

/-- Calls that end in a flush succeed on a transport that only shortens and interrupts.  Each
write takes as many of its bytes as the record has room for, at least one; and whatever the
splits and the buffers on the other side, the reads there return these bytes in order, at least
one each, and then only the error at the end. -/
theorem record_layer_round_trips {aead : Aead} (correct : aead.Correct) (cipher : Option Cipher)
    (calls : List Call) {sink : Sink} (patient : Patient sink (21 * sizes calls)) :
    (∃ last, (Run.start cipher sink).performAll aead (calls ++ [.flush]) = .returned (.ok last) ∧
      last.written = accepted 0 calls ∧
      ∀ answers outs, Carries answers last.wire → (∀ out ∈ outs, out ≠ []) →
        Delivers (accepted 0 calls) (runReads aead (.new cipher) answers outs) ∧
        ((accepted 0 calls).length ≤ outs.length →
          received (runReads aead (.new cipher) answers outs) = accepted 0 calls)) ∧
    ∀ before data, before ++ [.write data] <+: calls → data ≠ [] →
      (accepted 0 before).length < (accepted 0 (before ++ [.write data])).length := by
  refine ⟨?_, fun before data _ ne => accepted_grows ne before (by decide)⟩
  have patientStart : Patient (Run.start cipher sink).sink
      (21 * ((Run.start cipher sink).writer.buf.length + sizes calls)) := by
    simpa [Run.start, new] using patient
  rcases performAll_of_patient calls (Framed.start cipher sink) patientStart with
    ⟨last, records, ran, framed, flushed, written⟩
  refine ⟨last, ran, written, ?_⟩
  intro answers outs carries rooms
  rw [framed.wire_eq] at carries
  have delivers := @runReads_delivers aead records answers correct outs rooms (.new cipher)
    framed.nonempty framed.small carries
  have whole : accepted 0 calls = (RecordReader.new cipher).readable ++ records.flatten := by
    rw [← show last.written = accepted 0 calls from written, framed.written_eq, flushed,
      append_nil]
    rfl
  rw [← whole] at delivers
  refine ⟨delivers, ?_⟩
  intro enough
  apply delivers.received_eq
  rwa [length_runReads]

theorem tagged_correct : tagged.Correct := by
  intro nonce plain
  refine ⟨replicate tagLen 0, ?_⟩
  simp [tagged]

theorem record_layer_round_trips_three :
    ∃ last, (Run.start (some (.new 7 1 (by decide))) ⟨List.replicate 63 (.ok 1), []⟩).performAll
        tagged ([.write [1, 2], .flush, .write [3]] ++ [.flush]) = .returned (.ok last) ∧
      last.written = [1, 2, 3] ∧
      ∀ answers outs, Carries answers last.wire → (∀ out ∈ outs, out ≠ []) → 3 ≤ outs.length →
        received (runReads tagged (.new (some (.new 7 1 (by decide)))) answers outs) =
          [1, 2, 3] := by
  have bytes : accepted 0 [.write [1, 2], .flush, .write [3]] = [1, 2, 3] := by decide +kernel
  have patient : Patient ⟨List.replicate 63 (.ok 1), []⟩
      (21 * sizes [.write [1, 2], .flush, .write [3]]) :=
    ⟨fun answer mem => .inr ⟨0, eq_of_mem_replicate mem⟩, by decide, by simp⟩
  have trip := record_layer_round_trips tagged_correct (some (.new 7 1 (by decide))) _ patient
  rw [bytes] at trip
  rcases trip.1 with ⟨last, ran, written, reads⟩
  exact ⟨last, ran, written, fun answers outs carries rooms => (reads answers outs carries rooms).2⟩

end Syq.Records
