import Syq.Lib.Encodings
import Syq.Lib.Io

/-!
# The record layer of data connections

Bytes travel in records, a length in four bytes and a body.  On an encrypted connection the body
is sealed under a nonce made of the direction, three bytes of the connection id and a counter.
The reader opens a record either in its own buffer or, when the caller's buffer is large enough,
directly there.
-/

namespace Syq.Records

open Syq.Lib

abbrev Bytes := List UInt8

def recordMax : Nat := 256 * 1024

/-- The wire id has four bytes, but only three of them enter the nonce. -/
def connectionIdMax : Nat := 0x00ffffff

def tagLen : Nat := 16

/-! ## The cipher -/

structure Nonce where
  direction : UInt8
  connId : Nat
  counter : Nat
  deriving DecidableEq

/-- What opening leaves in the buffer: anything if it fails; otherwise the plaintext in front and
anything in the tag's place. -/
inductive Opened where
  | failed (buffer : Bytes)
  | opened (plain tail : Bytes)

/-- Authenticated encryption under one key. -/
structure Aead where
  sealInPlaceAppendTag : Nonce → Bytes → Bytes
  openInPlace : Nonce → Bytes → Opened
  length_seal : ∀ nonce plain,
    (sealInPlaceAppendTag nonce plain).length = plain.length + tagLen
  length_failed : ∀ {nonce buffer left},
    openInPlace nonce buffer = .failed left → left.length = buffer.length
  length_opened : ∀ {nonce buffer plain tail},
    openInPlace nonce buffer = .opened plain tail →
      plain.length + tagLen = buffer.length ∧ tail.length = tagLen

/-- A cipher that only appends a tag of zeros and checks it. -/
def tagged : Aead where
  sealInPlaceAppendTag _ plain := plain ++ List.replicate tagLen 0
  openInPlace _ buffer :=
    let stop := buffer.length - tagLen
    if buffer.drop stop = List.replicate tagLen 0 then .opened (buffer.take stop) (buffer.drop stop)
    else .failed buffer
  length_seal _ plain := by simp
  length_failed := by
    intro nonce buffer left failed
    dsimp only at failed
    split_ifs at failed with tag
    cases failed
    rfl
  length_opened := by
    intro nonce buffer plain tail opened
    dsimp only at opened
    split_ifs at opened with tag
    cases opened
    have length := congrArg List.length tag
    rw [List.length_drop, List.length_replicate] at length
    rw [List.length_take, List.length_drop]
    omega

/-- One end's cipher for one direction of a connection. -/
structure Cipher where
  connId : Nat
  direction : UInt8
  /-- How many records there were; 64 bits in the source, so for fewer than 2 ^ 64 records. -/
  counter : Nat
  inNonceSpace : connId ≤ connectionIdMax

namespace Cipher

def new (connId : Nat) (direction : UInt8) (inNonceSpace : connId ≤ connectionIdMax) : Cipher :=
  ⟨connId, direction, 0, inNonceSpace⟩

def nonce (cipher : Cipher) : Nonce :=
  ⟨cipher.direction, cipher.connId % 2 ^ 24, cipher.counter⟩

/-- The cipher after a nonce was taken. -/
def next (cipher : Cipher) : Cipher :=
  { cipher with counter := cipher.counter + 1 }

def sealInPlace (aead : Aead) (cipher : Cipher) (buffer : Bytes) : Bytes × Cipher :=
  (aead.sealInPlaceAppendTag cipher.nonce buffer, cipher.next)

/-- Open a record where it stands; a failure leaves only zeros. -/
def openBuffer (aead : Aead) (cipher : Cipher) (buffer : Bytes) :
    Except IoError Nat × Bytes × Cipher :=
  match aead.openInPlace cipher.nonce buffer with
  | .opened plain tail => (.ok plain.length, plain ++ tail, cipher.next)
  | .failed left =>
    (.error (.invalidData "authentication failed (wrong key or corrupted data)"),
      List.replicate left.length 0, cipher.next)

def openInPlace (aead : Aead) (cipher : Cipher) (buffer : Bytes) :
    Except IoError Unit × Bytes × Cipher :=
  match cipher.openBuffer aead buffer with
  | (.ok length, buffer, next) => (.ok (), buffer.take length, next)
  | (.error error, _, next) => (.error error, [], next)

end Cipher

/-! ## The writer -/

/-- A sealed record, as an observer of the key's use would note it. -/
structure Sealed where
  nonce : Nonce
  plain : Bytes
  body : Bytes
  length_body : body.length = plain.length + tagLen

/-- What the transport answers to writes and to flushes, in turn. -/
structure Sink where
  answers : List (Except IoError Nat)
  flushes : List (Except IoError Unit)

/-- The writer's cipher and the bytes of the record that is not full yet. -/
structure RecordWriter where
  cipher : Option Cipher
  buf : Bytes
  hasRoom : buf.length < recordMax

/-- The effect of a call: what it returns, the bytes that the transport took, the records that
were sealed, and what is left. -/
structure Written (β : Type) where
  outcome : Outcome β
  wire : Bytes
  sealedRecords : List Sealed
  writer : RecordWriter
  sink : Sink

def header (length : Nat) : Bytes :=
  (toBigEndian 4 length).reverse

namespace RecordWriter

def new (cipher : Option Cipher) : RecordWriter :=
  ⟨cipher, [], by decide⟩

/-- Seal the record and write it with its header.  The buffer is empty afterwards, also when the
write failed. -/
def emit (aead : Aead) (cipher : Option Cipher) (buf : Bytes) (sink : Sink) : Written Unit :=
  if buf.isEmpty then ⟨.returned (.ok ()), [], [], new cipher, sink⟩
  else
    match cipher with
    | none =>
      let (outcome, writes, answers) := writeSlices sink.answers [header buf.length, buf]
      ⟨outcome, writes.flatten, [], new none, { sink with answers := answers }⟩
    | some cipher =>
      let record : Sealed :=
        ⟨cipher.nonce, buf, (cipher.sealInPlace aead buf).1, aead.length_seal _ _⟩
      let (outcome, writes, answers) :=
        writeSlices sink.answers [header record.body.length, record.body]
      ⟨outcome, writes.flatten, [record], new (cipher.sealInPlace aead buf).2,
        { sink with answers := answers }⟩

/-- Take as many bytes as fit into the record, and write the record when it is full. -/
def write (aead : Aead) (writer : RecordWriter) (data : Bytes) (sink : Sink) : Written Nat :=
  let room := recordMax - writer.buf.length
  let count := min data.length room
  let buf := writer.buf ++ data.take count
  if fits : buf.length < recordMax then
    ⟨.returned (.ok count), [], [], ⟨writer.cipher, buf, fits⟩, sink⟩
  else
    let emitted := emit aead writer.cipher buf sink
    match emitted.outcome with
    | .returned (.ok ()) => { emitted with outcome := .returned (.ok count) }
    | .returned (.error error) => { emitted with outcome := .returned (.error error) }
    | .waiting => { emitted with outcome := .waiting }

def flush (aead : Aead) (writer : RecordWriter) (sink : Sink) : Written Unit :=
  let emitted := emit aead writer.cipher writer.buf sink
  match emitted.outcome with
  | .returned (.ok ()) =>
    match emitted.sink.flushes with
    | [] => emitted
    | answer :: flushes =>
      { emitted with
        outcome := .returned answer
        sink := { emitted.sink with flushes := flushes } }
  | _ => emitted

end RecordWriter

/-! ## The reader -/

structure RecordReader where
  cipher : Option Cipher
  buf : Bytes
  pos : Nat

/-- Copy some bytes into a buffer, from an index on. -/
def copyInto (out : Bytes) (start : Nat) (bytes : Bytes) : Bytes :=
  out.take start ++ bytes ++ out.drop (start + bytes.length)

/-- What a read returns and leaves, with the caller's buffer. -/
structure ReadResult where
  result : Except IoError Nat
  out : Bytes
  reader : RecordReader
  answers : List (Answer UInt8)

def readLength (answers : List (Answer UInt8)) : Except IoError Nat × List (Answer UInt8) :=
  match readExact answers 4 with
  | (.error error, _, rest) => (.error error, rest)
  | (.ok (), bytes, rest) =>
    let length := fromBigEndian bytes.reverse
    if length = 0 ∨ recordMax + 64 < length then
      (.error (.invalidData ("bad record length " ++ toString length)), rest)
    else (.ok length, rest)

namespace RecordReader

def new (cipher : Option Cipher) : RecordReader :=
  ⟨cipher, [], 0⟩

/-- Read a record into the reader's own buffer.  The position hides the buffer until the record
is read and opened. -/
def fill (aead : Aead) (reader : RecordReader) (length : Nat) (answers : List (Answer UInt8)) :
    Except IoError Unit × RecordReader × List (Answer UInt8) :=
  let resized := reader.buf.take length ++ List.replicate (length - reader.buf.length) 0
  match readExact answers length with
  | (.error error, bytes, rest) =>
    (.error error, { reader with buf := copyInto resized 0 bytes, pos := length }, rest)
  | (.ok (), bytes, rest) =>
    match reader.cipher with
    | none => (.ok (), { reader with buf := copyInto resized 0 bytes, pos := 0 }, rest)
    | some cipher =>
      match cipher.openInPlace aead (copyInto resized 0 bytes) with
      | (.error error, buf, next) => (.error error, ⟨next, buf, length⟩, rest)
      | (.ok (), buf, next) => (.ok (), ⟨next, buf, 0⟩, rest)

/-- Read a record into the caller's buffer and open it there.  The bytes in the tag's place are
saved and put back. -/
def readDirect (aead : Aead) (reader : RecordReader) (length : Nat) (out : Bytes)
    (answers : List (Answer UInt8)) : ReadResult :=
  let tag := if reader.cipher.isSome then min tagLen length else 0
  let stop := length - tag
  let tail := (out.drop stop).take tag
  match readExact answers length with
  | (.error error, bytes, rest) =>
    let cleared := copyInto (copyInto out 0 bytes) 0 (List.replicate length 0)
    ⟨.error error, copyInto cleared stop tail, reader, rest⟩
  | (.ok (), bytes, rest) =>
    let filled := copyInto out 0 bytes
    match reader.cipher with
    | none => ⟨.ok length, copyInto filled stop tail, reader, rest⟩
    | some cipher =>
      match cipher.openBuffer aead (filled.take length) with
      | (.error error, buffer, next) =>
        let cleared := copyInto (copyInto filled 0 buffer) 0 (List.replicate length 0)
        ⟨.error error, copyInto cleared stop tail, { reader with cipher := next }, rest⟩
      | (.ok count, buffer, next) =>
        ⟨.ok count, copyInto (copyInto filled 0 buffer) stop tail,
          { reader with cipher := next }, rest⟩

/-- Hand out bytes of the reader's own buffer. -/
def handOut (reader : RecordReader) (out : Bytes) (answers : List (Answer UInt8)) : ReadResult :=
  let count := min out.length (reader.buf.length - reader.pos)
  ⟨.ok count, copyInto out 0 ((reader.buf.drop reader.pos).take count),
    { reader with pos := reader.pos + count }, answers⟩

def read (aead : Aead) (reader : RecordReader) (out : Bytes) (answers : List (Answer UInt8)) :
    ReadResult :=
  if out.isEmpty then ⟨.ok 0, out, reader, answers⟩
  else if reader.buf.length ≤ reader.pos then
    match readLength answers with
    | (.error error, rest) => ⟨.error error, out, reader, rest⟩
    | (.ok length, rest) =>
      if length ≤ out.length then reader.readDirect aead length out rest
      else
        match reader.fill aead length rest with
        | (.error error, reader, rest) => ⟨.error error, out, reader, rest⟩
        | (.ok (), reader, rest) => reader.handOut out rest
  else reader.handOut out answers

end RecordReader

end Syq.Records
