import Syq.Results.Stream

/-!
# Reading the destination's results

The invoking machine verifies frames as they arrive, in any order, and passes their
records on.  It adds up a keyed hash of every sequence number it receives; the count and
the sum must equal those of all numbers below the one in the end frame.
-/

namespace Syq.Results

open Syq.Lib

/-- The copy a stream belongs to. -/
structure Binding where
  enrollmentId : Bytes
  requestId : Bytes
  grantDigest : Bytes
  deriving DecidableEq

structure HeaderBody where
  binding : Binding
  encapsulatedKey : Bytes
  records : Bool
  deriving DecidableEq

def maxHeaderBytes : Nat := 1024

def maxSignatureBytes : Nat := 16 * 1024

/-- What the invoking machine expects of a destination's stream. -/
structure Expectation where
  publicKey : String
  binding : Binding
  secret : Bytes
  records : Bool

/-- The signature check and the key exchange, by other libraries. -/
structure Trust (Tag : Type) where
  /-- Parse and verify a signature of the header. -/
  verify : String → Bytes → Bytes → Except String Unit
  encodeHeader : HeaderBody → Bytes
  decodeHeader : Bytes → Option HeaderBody
  decode_encodeHeader : ∀ header, decodeHeader (encodeHeader header) = some header
  /-- The keys of the exchange, from the recipient's secret. -/
  receive : Bytes → Bytes → Binding → Except String (Keys Tag)

structure Reader (Tag : Type) where
  expectation : Expectation
  keys : Option (Keys Tag)
  frames : Nat
  sum : BitVec 128
  /-- The sum over the numbers below `expectedUpto`. -/
  expectedSum : BitVec 128
  expectedUpto : Nat
  ended : Option (Nat × Totals)

namespace Reader

variable {Tag Encoded : Type} [DecidableEq Tag]

def new (expectation : Expectation) : Reader Tag :=
  ⟨expectation, none, 0, 0, 0, 0, none⟩

def verifyHeader (trust : Trust Tag) (expectation : Expectation) (body signature : Bytes) :
    Except String (Keys Tag) := do
  if maxHeaderBytes < body.length || maxSignatureBytes < signature.length then
    throw "the destination's results header exceeds its size limit"
  trust.verify expectation.publicKey body signature
  match trust.decodeHeader body with
  | none => throw "decode results header"
  | some header =>
    if trust.encodeHeader header ≠ body then
      throw "the results header uses a noncanonical encoding"
    if header.binding ≠ expectation.binding then
      throw "the destination's results name a different signed grant"
    if header.records ≠ expectation.records then
      throw "the destination was not asked for the results it is sending"
    trust.receive expectation.secret header.encapsulatedKey header.binding

/-- Extend the expected sum to the numbers below `target`. -/
def extend (keys : Keys Tag) (target : Nat) (reader : Reader Tag) : Reader Tag :=
  if reader.expectedUpto < target then
    extend keys target { reader with
      expectedSum := reader.expectedSum + keys.summand reader.expectedUpto
      expectedUpto := reader.expectedUpto + 1 }
  else reader
  termination_by target - reader.expectedUpto

/-- Decode the record of one line. -/
def decodeRecord (codec : Codec Tag Encoded) (line : Bytes) : Except String Json :=
  match codec.parse line with
  | none => .error "decode a destination result record"
  | some record =>
    if record.get "type" = some (.text "operation_result") ∨
        record.get "type" = some (.text "error") then .ok record
    else .error "a destination result record has an unexpected type"

/-- Count one more frame of records. -/
def counting (keys : Keys Tag) (reader : Reader Tag) (seq : Nat) : Reader Tag :=
  { reader with frames := reader.frames + 1, sum := reader.sum + keys.summand seq }.extend keys
    (seq + 1)

/-- Count a frame of records that has been authenticated, and decode its records. -/
def acceptRecords (codec : Codec Tag Encoded) (keys : Keys Tag) (reader : Reader Tag) (seq : Nat)
    (payload : Bytes) : Except String (Reader Tag × List Json) :=
  if reader.ended.any fun last => decide (last.1 ≤ seq) then
    .error "a destination results frame follows its end"
  else if u64Max ≤ reader.frames then .error "too many results frames"
  else if !reader.expectation.records && !payload.isEmpty then
    .error "the destination listed changes that were not requested"
  else ((pieces 10 payload).mapM (decodeRecord codec)).map fun records =>
    (reader.counting keys seq, records)

/-- Verify one encoded frame, and pass on the records it carries. -/
def accept (codec : Codec Tag Encoded) (trust : Trust Tag) (reader : Reader Tag)
    (encoded : Encoded) : Except String (Reader Tag × List Json) :=
  if maxFrameBytes < codec.len encoded then
    .error "a destination results frame exceeds its size limit"
  else match codec.decode encoded with
    | none => .error "decode a results frame"
    | some (.header body signature) =>
      match reader.keys with
      | some _ => .error "the destination's results repeat their header"
      | none => (verifyHeader trust reader.expectation body signature).map fun keys =>
        ({ reader with keys := some keys }, [])
    | some (.records seq payload tag) =>
      match reader.keys with
      | none => .error "destination results arrived before their signed header"
      | some keys =>
        if keys.recordsTag seq payload ≠ tag then
          .error "a destination results frame failed authentication"
        else acceptRecords codec keys reader seq payload
    | some (.endFrame frames totals tag) =>
      match reader.keys with
      | none => .error "destination results ended before their signed header"
      | some keys =>
        if keys.endTag frames totals ≠ tag then
          .error "the destination's results end failed authentication"
        else match reader.ended with
          | some _ => .error "the destination's results end twice"
          | none => .ok ({ reader with ended := some (frames, totals) }, [])

/-- Accept frames one after another. -/
def acceptAll (codec : Codec Tag Encoded) (trust : Trust Tag) (reader : Reader Tag) :
    List Encoded → Except String (Reader Tag × List Json)
  | [] => .ok (reader, [])
  | encoded :: rest => do
      let (reader, records) ← reader.accept codec trust encoded
      let (reader, more) ← acceptAll codec trust reader rest
      return (reader, records ++ more)

/-- The destination's totals, once every frame through its end arrived exactly once. -/
def finish (reader : Reader Tag) : Except String Totals :=
  match reader.keys, reader.ended with
  | none, _ => .error "the destination sent no results"
  | some _, none => .error "the destination's results ended without their final frame"
  | some keys, some (frames, totals) =>
    let extended := reader.extend keys frames
    if extended.frames = frames ∧ extended.expectedUpto = frames ∧
        extended.sum = extended.expectedSum then .ok totals
    else .error ("the destination's results arrived incomplete or altered (" ++
      toString extended.frames ++ " of " ++ toString frames ++ " frames)")

/-! ## What the sums stand for -/

/-- The sum of the summands of some sequence numbers. -/
def sumOf (keys : Keys Tag) (seqs : List Nat) : BitVec 128 :=
  (seqs.map keys.summand).sum

omit [DecidableEq Tag] in
/-- Extending keeps everything else and reaches its target. -/
theorem extend_eq (keys : Keys Tag) (target : Nat) (reader : Reader Tag)
    (expected : reader.expectedSum = sumOf keys (List.range reader.expectedUpto)) :
    extend keys target reader = { reader with
      expectedUpto := max reader.expectedUpto target
      expectedSum := sumOf keys (List.range (max reader.expectedUpto target)) } := by
  fun_induction extend keys target reader with
  | case1 reader short ih =>
    rw [ih]
    · rw [max_eq_right (Nat.succ_le_of_lt short), max_eq_right short.le]
    · simp only [expected, sumOf, List.range_succ, List.map_append, List.sum_append, List.map_cons,
        List.map_nil, List.sum_cons, List.sum_nil, add_zero]
  | case2 reader long =>
    rw [max_eq_left (not_lt.mp long), ← expected]

/-- The sequence number and payload of an encoded frame of records. -/
def recordsOf (codec : Codec Tag Encoded) (encoded : Encoded) : Option (Nat × Bytes) :=
  match codec.decode encoded with
  | some (.records seq payload _) => some (seq, payload)
  | _ => none

/-- What a reader has counted after accepting frames of records with these numbers. -/
structure Counted (keys : Keys Tag) (expectation : Expectation) (seqs : List Nat)
    (reader : Reader Tag) : Prop where
  sameExpectation : reader.expectation = expectation
  sameKeys : reader.keys = some keys
  frames : reader.frames = seqs.length
  sum : reader.sum = sumOf keys seqs
  expected : reader.expectedSum = sumOf keys (List.range reader.expectedUpto)
  upto : ∀ bound, (∀ seq ∈ seqs, seq < bound) → reader.expectedUpto ≤ bound

section Counted

variable {codec : Codec Tag Encoded} {keys : Keys Tag} {expectation : Expectation}
  {reader : Reader Tag} {seqs : List Nat}

omit [DecidableEq Tag] in
theorem Counted.counting (counted : Counted keys expectation seqs reader) (seq : Nat) :
    Counted keys expectation (seqs ++ [seq]) (reader.counting keys seq) ∧
      (reader.counting keys seq).ended = reader.ended := by
  have extended : reader.counting keys seq = { reader with
      frames := reader.frames + 1
      sum := reader.sum + keys.summand seq
      expectedUpto := max reader.expectedUpto (seq + 1)
      expectedSum := sumOf keys (List.range (max reader.expectedUpto (seq + 1))) } :=
    extend_eq keys (seq + 1) _ counted.expected
  rw [extended]
  refine ⟨⟨counted.sameExpectation, counted.sameKeys, ?_, ?_, rfl, ?_⟩, rfl⟩
  · simp [counted.frames]
  · simp [counted.sum, sumOf]
  · intro bound below
    rw [List.forall_mem_append] at below
    exact max_le (counted.upto bound below.1) (below.2 seq List.mem_cons_self)

omit [DecidableEq Tag] in
theorem acceptRecords_eq_ok_iff {seq : Nat} {payload : Bytes} {next : Reader Tag}
    {records : List Json} :
    acceptRecords codec keys reader seq payload = .ok (next, records) ↔
      (∀ frames totals, reader.ended = some (frames, totals) → seq < frames) ∧
      reader.frames < u64Max ∧ (reader.expectation.records = false → payload = []) ∧
      (pieces 10 payload).mapM (decodeRecord codec) = .ok records ∧
      next = reader.counting keys seq := by
  have follows : (reader.ended.any fun last => decide (last.1 ≤ seq)) = false ↔
      ∀ frames totals, reader.ended = some (frames, totals) → seq < frames := by
    cases reader.ended with
    | none => simp
    | some last => simp [Prod.ext_iff]
  have unasked : (!reader.expectation.records && !payload.isEmpty) = false ↔
      (reader.expectation.records = false → payload = []) := by
    cases reader.expectation.records <;> simp
  unfold acceptRecords
  rw [← follows, ← unasked, ← not_le]
  cases reader.ended.any fun last => decide (last.1 ≤ seq) with
  | true => simp
  | false =>
    by_cases full : u64Max ≤ reader.frames
    · simp [full]
    · cases !reader.expectation.records && !payload.isEmpty with
      | true => simp [full]
      | false =>
        simp only [if_false, full, not_false_eq_true, true_and]
        cases (pieces 10 payload).mapM (decodeRecord codec) with
        | error msg => simp [Except.map]
        | ok found => simp [Except.map, and_comm, eq_comm]

end Counted

theorem acceptAll_cons_eq_ok_iff {codec : Codec Tag Encoded} {trust : Trust Tag}
    {reader last : Reader Tag} {encoded : Encoded} {rest : List Encoded} {lines : List Json} :
    reader.acceptAll codec trust (encoded :: rest) = .ok (last, lines) ↔
      ∃ middle records more, reader.accept codec trust encoded = .ok (middle, records) ∧
        middle.acceptAll codec trust rest = .ok (last, more) ∧ lines = records ++ more := by
  rw [acceptAll]
  cases first : reader.accept codec trust encoded with
  | error msg => simp [bind, Except.bind]
  | ok result =>
    rcases result with ⟨middle, records⟩
    cases tail : middle.acceptAll codec trust rest with
    | error msg => simp [bind, Except.bind, tail]
    | ok result => simp [bind, Except.bind, pure, Except.pure, tail, Prod.ext_iff, eq_comm]

end Reader

end Syq.Results
