import Syq.Results.Change
import Syq.Results.Json
import Syq.Lib.Guards

/-!
# The destination's results stream

The destination lists every settled change as a line of JSON, seals the pending lines
into numbered and tagged frames, and closes the stream by an end frame that carries the
number of frames and its totals.  Keyed hashes, the frame encoding and the JSON texts are
code of other libraries: they are parameters with the properties those document.
-/

namespace Syq.Results

open Syq.Lib

/-! ## Records and frames -/

/-- The destination's totals, sent in its end frame. -/
structure Totals where
  filesTransferred : Nat
  bytesTransferred : Nat
  directoriesCreated : Nat
  symlinksCreated : Nat
  specialsCreated : Nat
  deletionsCompleted : Nat
  failed : Nat
  refused : Nat
  deriving DecidableEq

def Totals.zero : Totals :=
  ⟨0, 0, 0, 0, 0, 0, 0, 0⟩

inductive Frame (Tag : Type) where
  | header (body signature : Bytes)
  | records (seq : Nat) (payload : Bytes) (tag : Tag)
  | endFrame (frames : Nat) (totals : Totals) (tag : Tag)
  deriving DecidableEq

/-- The keyed hashes under the two keys of one copy's exchange. -/
structure Keys (Tag : Type) where
  recordsTag : Nat → Bytes → Tag
  endTag : Nat → Totals → Tag
  /-- The secret summand of one sequence number. -/
  summand : Nat → BitVec 128

/-- The encodings: frames by `postcard`, records by `serde_json`. -/
structure Codec (Tag Encoded : Type) where
  encode : Frame Tag → Encoded
  decode : Encoded → Option (Frame Tag)
  len : Encoded → Nat
  decode_encode : ∀ frame, decode (encode frame) = some frame
  write : Json → Bytes
  parse : Bytes → Option Json
  parse_write : ∀ json, parse (write json) = some json
  /-- A compact JSON text is not empty and escapes every newline. -/
  isLine_write : ∀ json, IsLine 10 (write json)
  /-- `String::from_utf8_lossy` -/
  lossy : Bytes → String

def maxFrameBytes : Nat := 160 * 1024

def sealBytes : Nat := 32 * 1024

/-- In milliseconds. -/
def sealAfter : Nat := 200

variable {Tag Encoded : Type} (codec : Codec Tag Encoded)

def encodeFrame (frame : Frame Tag) : Except String Encoded :=
  if codec.len (codec.encode frame) ≤ maxFrameBytes then .ok (codec.encode frame)
  else .error "results frame exceeds its size limit"

/-- The lines of some records. -/
def Codec.text (records : List Json) : Bytes :=
  unlines 10 (records.map codec.write)

@[simp]
theorem Codec.text_nil : codec.text [] = [] :=
  rfl

theorem Codec.text_append (first second : List Json) :
    codec.text (first ++ second) = codec.text first ++ codec.text second := by
  simp [Codec.text, unlines_append]

/-! ## What is listed -/

def Change.kindField (change : Change) : List (String × Field) :=
  (change.action.2.map fun kind => ("kind", Field.text kind)).toList

def Change.bytesField : Change → List (String × Field)
  | .publishFile size => [("bytes", .number size)]
  | .linkFile => [("bytes", .number 0)]
  | _ => []

/-- The record of a change that succeeded: a metadata change and a kept file have none,
nor has a change without a destination path. -/
def successRecords (change : Change) (dst : Option Bytes) : List Json :=
  match change, dst with
  | .setMetadata _, _ | .keepFile, _ | _, none => []
  | change, some dst =>
    [.object (.ofFields ([("type", .text "operation_result"), ("action", .text change.action.1),
      ("dst", .tagged dst), ("disposition", .text "succeeded")] ++ change.kindField ++
      change.bytesField))]

/-- The records of a failed or refused change, with its message. -/
def messageRecords (change : Change) (dst : Option Bytes) (errorClass message : String) :
    List Json :=
  let line := match dst with
    | some dst => "syq: " ++ (if dst = [] then "." else codec.lossy dst) ++ ": " ++ message
    | none => "syq: the receiver: " ++ message
  .object (.ofFields [("type", .text "error"), ("class", .text errorClass),
      ("message", .text line)]) ::
    (dst.map fun dst => Json.object (.ofFields ([("type", .text "operation_result"),
      ("action", .text change.action.1), ("dst", .tagged dst), ("disposition", .text "failed"),
      ("class", .text errorClass), ("message", .text message)] ++ change.kindField))).toList

/-- The message of a failure, bounded. -/
def failureMessage (error : String) : String :=
  (boundedDiagnostic error).getD "failed"

/-- A failed or refused change as an ordinary copy reports one: the error it counts, and
the result for its path. -/
def failureRecords (change : Change) (dst : Option Bytes) (errorClass error : String) :
    List Json :=
  messageRecords codec change dst errorClass (failureMessage error)

/-! ## The stream -/

/-- A failure held until a retry settles it. -/
structure RetriedFailure where
  change : Change
  message : String
  errorClass : String
  deriving DecidableEq

/-- The destination's side of one copy's stream. -/
structure Stream (Tag Encoded : Type) where
  keys : Keys Tag
  /-- Whether changes are listed, besides being counted. -/
  records : Bool
  nextSeq : Nat
  pending : Bytes
  pendingSince : Option Nat
  ready : List Encoded
  retried : Std.TreeMap Bytes RetriedFailure
  totals : Totals
  ended : Bool

def Totals.count (totals : Totals) : Change → Totals
  | .publishFile _ | .linkFile =>
    { totals with filesTransferred := totals.filesTransferred + 1 }
  | .ensureDirectory => { totals with directoriesCreated := totals.directoriesCreated + 1 }
  | .createSymlink => { totals with symlinksCreated := totals.symlinksCreated + 1 }
  | .createSpecial => { totals with specialsCreated := totals.specialsCreated + 1 }
  | .deleteNonDirectory | .deleteDirectory =>
    { totals with deletionsCompleted := totals.deletionsCompleted + 1 }
  | .setMetadata _ | .keepFile => totals

namespace Stream

/-- The signed header is the first frame. -/
def start (keys : Keys Tag) (body signature : Bytes) (records : Bool) :
    Except String (Stream Tag Encoded) := do
  let header ← encodeFrame codec (.header body signature)
  return ⟨keys, records, 0, [], none, [header], ∅, .zero, false⟩

def push (now : Nat) (stream : Stream Tag Encoded) (record : Json) : Stream Tag Encoded :=
  { stream with
    pending := stream.pending ++ codec.write record ++ [10]
    pendingSince := stream.pendingSince <|> some now }

/-- List records, if the destination was asked to. -/
def list (now : Nat) (stream : Stream Tag Encoded) (records : List Json) : Stream Tag Encoded :=
  if stream.records then records.foldl (push codec now) stream else stream

/-- Forget the failure held for a path. -/
def settleRetried (stream : Stream Tag Encoded) (settles : Bool) (dst : Option Bytes) :
    Stream Tag Encoded :=
  match dst with
  | some dst => if settles then { stream with retried := stream.retried.erase dst } else stream
  | none => stream

/-- Record one settled change.  A failure held for a file's retry is settled by a later
change that completes the file, or replaced by a later failure of any change to it. -/
def record (now : Nat) (stream : Stream Tag Encoded) (change : Change) (dst : Option Bytes)
    (error : Option Failure) : Stream Tag Encoded :=
  if stream.ended then stream
  else match error with
    | some error =>
      let stream := stream.settleRetried change.isFile dst
      { stream with totals := { stream.totals with failed := stream.totals.failed + 1 } }.list
        codec now (failureRecords codec change dst error.errorClass error.message)
    | none =>
      let stream := stream.settleRetried change.completesFile dst
      { stream with totals := stream.totals.count change }.list
        codec now (successRecords change dst)

/-- Hold the failure of a change to a file that the sender tries again; another failure,
and one with no destination path, is recorded at once. -/
def recordRetried (now : Nat) (stream : Stream Tag Encoded) (change : Change)
    (dst : Option Bytes) (error : Failure) : Stream Tag Encoded :=
  if stream.ended then stream
  else match dst.filter fun _ => change.isFile with
    | some dst => { stream with
        retried := stream.retried.insert dst
          ⟨change, failureMessage error.message, error.errorClass⟩ }
    | none => stream.record codec now change dst (some error)

/-- List one change a refused request asked for; the refusal is the outcome of a retry it
refuses. -/
def refuseChange (now : Nat) (message : String) (stream : Stream Tag Encoded) :
    Option Bytes × Change → Stream Tag Encoded
  | (none, _) => stream
  | (some dst, change) =>
    (stream.settleRetried change.isFile (some dst)).list codec now
      (failureRecords codec change (some dst) "safety_limit" message)

/-- Count a refused request, and list each change it asked for, or the request as a
whole. -/
def refused (now : Nat) (stream : Stream Tag Encoded) (message : String)
    (changes : List (Option Bytes × Change)) : Stream Tag Encoded :=
  if stream.ended then stream
  else
    let stream :=
      { stream with totals := { stream.totals with refused := stream.totals.refused + 1 } }
    let stream := changes.foldl (refuseChange codec now message) stream
    if changes.any fun change => change.1.isSome then stream
    else stream.list codec now (failureRecords codec .ensureDirectory none "safety_limit" message)

/-! ## Sealing -/

/-- The index of the last byte that meets `p`. -/
def rposition (p : UInt8 → Bool) (bytes : Bytes) : Option Nat :=
  (bytes.reverse.findIdx? p).map fun index => bytes.length - 1 - index

/-- Where the next frame ends: between records, once it holds a full batch. -/
def sealCut (rest : Bytes) : Nat :=
  let cut := min rest.length (sealBytes * 2)
  if cut < rest.length then
    match rposition (· == 10) (rest.take cut) with
    | some index => index + 1
    | none => ((rest.findIdx? (· == 10)).map (· + 1)).getD rest.length
  else cut

theorem sealCut_pos {rest : Bytes} (ne : rest ≠ []) : 0 < sealCut rest := by
  have long := List.length_pos_iff.mpr ne
  unfold sealCut
  dsimp only
  split
  · split
    · exact Nat.succ_pos _
    · cases rest.findIdx? (· == 10) with
      | none => exact long
      | some index => exact Nat.succ_pos _
  · exact lt_min long (by decide)

/-- Seal the rest of the pending lines into frames.  A sequence number past the largest
is an overflow. -/
def sealRest (stream : Stream Tag Encoded) (rest : Bytes) :
    Except String Unit × Stream Tag Encoded :=
  if rest = [] then (.ok (), stream)
  else
    let payload := rest.take (sealCut rest)
    let seq := stream.nextSeq
    if u64Max ≤ seq then (.error "attempt to add with overflow", stream)
    else
      let stream := { stream with nextSeq := seq + 1 }
      match encodeFrame codec (.records seq payload (stream.keys.recordsTag seq payload)) with
      | .error error => (.error error, stream)
      | .ok frame =>
        sealRest { stream with ready := stream.ready ++ [frame] } (rest.drop (sealCut rest))
  termination_by rest.length
  decreasing_by
    rename_i empty _
    rw [List.length_drop]
    exact Nat.sub_lt (List.length_pos_iff.mpr empty) (sealCut_pos empty)

def sealPending (stream : Stream Tag Encoded) : Except String Unit × Stream Tag Encoded :=
  sealRest codec { stream with pending := [], pendingSince := none } stream.pending

/-- Whether there are frames to take now. -/
def due (stream : Stream Tag Encoded) (now : Nat) : Bool :=
  !stream.ready.isEmpty || decide (sealBytes ≤ stream.pending.length) ||
    stream.pendingSince.any fun since => decide (sealAfter ≤ now - since)

/-- Frames ready to write, sealing pending records first when they are due. -/
def takeFrames (now : Nat) (stream : Stream Tag Encoded) :
    Except String (List Encoded) × Stream Tag Encoded :=
  if stream.due now then
    match stream.sealPending codec with
    | (.ok (), stream) => (.ok stream.ready, { stream with ready := [] })
    | (.error error, stream) => (.error error, stream)
  else (.ok stream.ready, { stream with ready := [] })

/-- List the failures no retry settled: they are failures of the copy. -/
def listRetried (now : Nat) (stream : Stream Tag Encoded) : Stream Tag Encoded :=
  stream.retried.toList.foldl (fun stream (dst, failure) =>
      stream.record codec now failure.change (some dst)
        (some ⟨failure.message, failure.errorClass⟩))
    { stream with retried := ∅ }

/-- Seal the rest and the end frame. -/
def finish (now : Nat) (stream : Stream Tag Encoded) (bytesTransferred : Nat) :
    Except String Totals × Stream Tag Encoded :=
  if stream.ended then (.error "the destination's results have already ended", stream)
  else
    match (stream.listRetried codec now).sealPending codec with
    | (.error error, stream) => (.error error, stream)
    | (.ok (), stream) =>
      let totals := { stream.totals with bytesTransferred }
      let stream := { stream with ended := true, totals }
      let frame := .endFrame stream.nextSeq totals (stream.keys.endTag stream.nextSeq totals)
      match encodeFrame codec frame with
      | .error error => (.error error, stream)
      | .ok frame => (.ok totals, { stream with ready := stream.ready ++ [frame] })

end Stream

/-! ## The calls of a run -/

/-- A call that records something. -/
inductive Call where
  | record (change : Change) (dst : Option Bytes) (error : Option Failure)
  | recordRetried (change : Change) (dst : Option Bytes) (error : Failure)
  | refused (message : String) (changes : List (Option Bytes × Change))
  deriving DecidableEq

def Stream.call (now : Nat) (stream : Stream Tag Encoded) : Call → Stream Tag Encoded
  | .record change dst error => stream.record codec now change dst error
  | .recordRetried change dst error => stream.recordRetried codec now change dst error
  | .refused message changes => stream.refused codec now message changes

/-- The records of one change a refused request asked for. -/
def refusalRecords (message : String) : Option Bytes × Change → List Json
  | (none, _) => []
  | (some dst, change) => failureRecords codec change (some dst) "safety_limit" message

/-- The records a call lists. -/
def Call.listing : Call → List Json
  | .record change dst none => successRecords change dst
  | .record change dst (some error) =>
    failureRecords codec change dst error.errorClass error.message
  | .recordRetried change dst error =>
    if (dst.filter fun _ => change.isFile).isSome then []
    else failureRecords codec change dst error.errorClass error.message
  | .refused message changes =>
    changes.flatMap (refusalRecords codec message) ++
      if changes.any fun change => change.1.isSome then []
      else failureRecords codec .ensureDirectory none "safety_limit" message

/-- The records listed for the failures that are still held at the end. -/
def retriedListing (held : List (Bytes × RetriedFailure)) : List Json :=
  held.flatMap fun (dst, failure) =>
    failureRecords codec failure.change (some dst) failure.errorClass failure.message

namespace Stream

/-- Two streams differ at most in what they hold, count and list. -/
structure Lists (records : List Json) (stream next : Stream Tag Encoded) : Prop where
  keys : next.keys = stream.keys
  listed : next.records = stream.records
  nextSeq : next.nextSeq = stream.nextSeq
  ready : next.ready = stream.ready
  ended : next.ended = stream.ended
  pending : next.pending = stream.pending ++ if stream.records then codec.text records else []

namespace Lists

variable {codec} {stream next last : Stream Tag Encoded} {records more : List Json}

theorem nothing (stream : Stream Tag Encoded) : Lists codec [] stream stream :=
  ⟨rfl, rfl, rfl, rfl, rfl, by simp⟩

theorem trans (first : Lists codec records stream next) (second : Lists codec more next last) :
    Lists codec (records ++ more) stream last where
  keys := second.keys.trans first.keys
  listed := second.listed.trans first.listed
  nextSeq := second.nextSeq.trans first.nextSeq
  ready := second.ready.trans first.ready
  ended := second.ended.trans first.ended
  pending := by
    rw [second.pending, first.pending, first.listed, codec.text_append]
    split <;> simp

theorem list (now : Nat) (stream : Stream Tag Encoded) (records : List Json) :
    Lists codec records stream (stream.list codec now records) := by
  unfold Stream.list
  cases listed : stream.records with
  | false => exact ⟨rfl, rfl, rfl, rfl, rfl, by simp [listed]⟩
  | true =>
    induction records generalizing stream with
    | nil => exact nothing stream
    | cons record rest ih =>
      have pushed : Lists codec [record] stream (stream.push codec now record) :=
        ⟨rfl, rfl, rfl, rfl, rfl, by simp [Stream.push, Codec.text, listed]⟩
      exact pushed.trans (ih _ listed)

theorem settleRetried (stream : Stream Tag Encoded) (settles : Bool) (dst : Option Bytes) :
    Lists codec [] stream (stream.settleRetried settles dst) := by
  unfold Stream.settleRetried
  cases dst with
  | none => exact nothing stream
  | some dst => cases settles <;> exact ⟨rfl, rfl, rfl, rfl, rfl, by simp⟩

/-- Counting changes nothing that is sent. -/
theorem recount {totals : Totals} (lists : Lists codec records { stream with totals } next) :
    Lists codec records stream next :=
  { lists with }

theorem record (now : Nat) (stream : Stream Tag Encoded) (change : Change) (dst : Option Bytes)
    (error : Option Failure) (running : stream.ended = false) :
    Lists codec (Call.listing codec (.record change dst error)) stream
      (stream.record codec now change dst error) := by
  unfold Stream.record
  rw [if_neg (by simp [running])]
  cases error with
  | none => exact (settleRetried stream _ _).trans (list _ _ _).recount
  | some error => exact (settleRetried stream _ _).trans (list _ _ _).recount

theorem refuseChanges (now : Nat) (msg : String) (stream : Stream Tag Encoded)
    (changes : List (Option Bytes × Change)) :
    Lists codec (changes.flatMap (refusalRecords codec msg)) stream
      (changes.foldl (Stream.refuseChange codec now msg) stream) := by
  induction changes generalizing stream with
  | nil => exact nothing stream
  | cons head rest ih =>
    rcases head with ⟨none | dst, change⟩
    · exact ih stream
    · exact ((settleRetried stream _ _).trans (list _ _ _)).trans (ih _)

/-- What a call lists is all it adds to what is sent. -/
theorem call (now : Nat) (stream : Stream Tag Encoded) (call : Call)
    (running : stream.ended = false) :
    Lists codec (call.listing codec) stream (stream.call codec now call) := by
  have notEnded : ¬ stream.ended = true := by simp [running]
  cases call with
  | record change dst error => exact record now stream change dst error running
  | recordRetried change dst error =>
    dsimp only [Stream.call, Stream.recordRetried, Call.listing]
    rw [if_neg notEnded]
    cases held : dst.filter fun _ => change.isFile with
    | none => exact record now stream change dst (some error) running
    | some path => exact ⟨rfl, rfl, rfl, rfl, rfl, by simp⟩
  | refused msg changes =>
    dsimp only [Stream.call, Stream.refused, Call.listing]
    have listed : Lists codec (changes.flatMap (refusalRecords codec msg)) stream _ :=
      (refuseChanges now msg
        { stream with totals := { stream.totals with refused := stream.totals.refused + 1 } }
        changes).recount
    split
    · rw [List.append_nil]
      exact listed
    · exact listed.trans (list _ _ _)

/-- Every failure still held is listed at the end. -/
theorem listRetried (now : Nat) (stream : Stream Tag Encoded) (running : stream.ended = false) :
    Lists codec (retriedListing codec stream.retried.toList) stream
      (stream.listRetried codec now) := by
  have listed : Lists codec _ { stream with retried := ∅ } (stream.listRetried codec now) :=
    foldl_rule (P := fun done => Lists codec (retriedListing codec done) _) (nothing _)
      fun {_ item _} _ before => by
        rw [retriedListing, List.flatMap_append, List.flatMap_singleton]
        exact before.trans (record now _ item.2.change (some item.1)
          (some ⟨item.2.message, item.2.errorClass⟩) (before.ended.trans running))
  exact { listed with }

end Lists

end Stream

/-! ## The codec -/

/-- The tag of a frame. -/
abbrev FrameTag := { bytes : Bytes // bytes.length = 16 }

namespace Codec

open Lib.Codec in
def totals : Lib.Codec Totals :=
  (pair varint (pair varint (pair varint (pair varint (pair varint (pair varint
    (pair varint varint))))))).ofEquiv
      { toFun := fun (files, bytes, directories, symlinks, specials, deletions, failed, refused) =>
          ⟨files, bytes, directories, symlinks, specials, deletions, failed, refused⟩
        invFun := fun ⟨files, bytes, directories, symlinks, specials, deletions, failed, refused⟩ =>
          (files, bytes, directories, symlinks, specials, deletions, failed, refused)
        left_inv := fun _ => rfl
        right_inv := fun _ => rfl }

def headerCode : Lib.Codec (Bytes × Bytes) :=
  .pair .bytes .bytes

def recordsCode : Lib.Codec (Nat × Bytes × FrameTag) :=
  .pair .varint (.pair .bytes (.block 16))

def endCode : Lib.Codec (Nat × Totals × FrameTag) :=
  .pair .varint (.pair totals (.block 16))

/-- A frame behind the number of its kind. -/
def writeFrame : Frame FrameTag → Bytes
  | .header body signature => 0 :: headerCode.encode (body, signature)
  | .records seq payload tag => 1 :: recordsCode.encode (seq, payload, tag)
  | .endFrame frames totals tag => 2 :: endCode.encode (frames, totals, tag)

def readFrame : Bytes → Option (Frame FrameTag)
  | 0 :: text => (headerCode.decode text).map fun read => .header read.1.1 read.1.2
  | 1 :: text => (recordsCode.decode text).map fun read => .records read.1.1 read.1.2.1 read.1.2.2
  | 2 :: text => (endCode.decode text).map fun read => .endFrame read.1.1 read.1.2.1 read.1.2.2
  | _ => none

/-- The encodings of frames and records, written out. -/
def wire : Codec FrameTag Bytes where
  encode := writeFrame
  decode := readFrame
  len := List.length
  decode_encode frame := by
    cases frame <;> simp [writeFrame, readFrame, Lib.Codec.decode_whole]
  write := Json.write
  parse := Json.parse
  parse_write := Json.parse_write
  isLine_write := Json.isLine_write
  lossy bytes := (String.fromUTF8? ⟨bytes.toArray⟩).getD "\ufffd"

end Codec

/-- A stand-in for a keyed hash: the numbers and the lengths it depends on. -/
def Keys.plain : Keys FrameTag where
  recordsTag seq payload := ⟨toBigEndian 16 (seq + 2 ^ 64 * payload.length), length_toBigEndian _ _⟩
  endTag frames totals :=
    ⟨toBigEndian 16 (frames + 2 ^ 64 * (totals.failed + 1)), length_toBigEndian _ _⟩
  summand seq := .ofNat 128 seq

end Syq.Results
