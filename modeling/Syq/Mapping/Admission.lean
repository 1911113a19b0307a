import Syq.Mapping.Manifest

/-!
# Mapping manifests as a restricted receiver admits them

The receiver takes the manifest in chunks.  It keeps the unfinished line and an index of
the destinations, and gives permissions only once the whole manifest has the authorized
length and digest.  Any error closes the admission.
-/

namespace Syq.Mapping

open Syq.Lib

variable {Metadata Digest Hash : Type}

/-! ## Permissions -/

variable (Metadata Digest) in
/-- The destinations of a mapping, and the directories they imply. -/
structure Permissions where
  expectedHashes : Finmap fun _ : Bytes => Digest
  metadata : Finmap fun _ : Bytes => Metadata
  entries : Finmap fun _ : Bytes => Option DeclaredKind
  parents : Finset Bytes

namespace Permissions

def new : Permissions Metadata Digest :=
  ⟨∅, ∅, ∅, {[]}⟩

variable (permissions : Permissions Metadata Digest)

def checkLimit (maxEntries : Nat) : Except String Unit :=
  if maxEntries < permissions.entries.keys.card + permissions.parents.card then
    .error "mapping exceeds the signed destination entry limit"
  else .ok ()

/-- Note one directory above a destination. -/
def insertParent (maxEntries : Nat) (permissions : Permissions Metadata Digest)
    (parent : Bytes) : Except String (Permissions Metadata Digest) :=
  if (permissions.entries.lookup parent).any notDir then
    .error "mapping destination ancestor is not a directory"
  else if parent ∈ permissions.entries then .ok permissions
  else do
    let noted := { permissions with parents := insert parent permissions.parents }
    noted.checkLimit maxEntries
    pure noted

/-- Add a destination whose ancestors are noted. -/
def add (entry : ManifestEntry Metadata Digest) : Permissions Metadata Digest where
  expectedHashes :=
    match entry.expectedHash with
    | some expected => permissions.expectedHashes.insert entry.dst expected
    | none => permissions.expectedHashes
  metadata :=
    match entry.metadata with
    | some metadata => permissions.metadata.insert entry.dst metadata
    | none => permissions.metadata
  entries := permissions.entries.insert entry.dst entry.kind
  parents := permissions.parents.erase entry.dst

def insert (formats : Formats Metadata Digest) (maxEntries : Nat)
    (entry : ManifestEntry Metadata Digest) : Except String (Permissions Metadata Digest) :=
  if maxPathBytes < entry.dst.length then
    .error s!"restricted mapping destination exceeds {maxPathBytes} bytes"
  else if entry.dst ∈ permissions.entries then
    .error s!"duplicate mapping destination {formats.display entry.dst}"
  else if notDir entry.kind && decide (entry.dst ∈ permissions.parents) then
    .error "mapping destination ancestor is not a directory"
  else do
    let noted ← (ancestors entry.dst).foldlM (insertParent maxEntries) permissions
    let added := noted.add entry
    added.checkLimit maxEntries
    pure added

/-- Whether a request may touch a path: a listed destination, or an implied directory for
a request that is not known to be about something else. -/
def allows (path : Bytes) (directory : Option Bool) : Bool :=
  decide (path ∈ permissions.entries) ||
    (directory != some false && decide (path ∈ permissions.parents))

end Permissions

/-! ## Admission -/

variable (Metadata Digest Hash) in
/-- A manifest being received.  The hasher is kept as the bytes it was given. -/
structure Admission where
  authorization : Authorization Hash
  received : Nat
  hashed : Bytes
  line : Bytes
  maxEntries : Nat
  pending : Option (Permissions Metadata Digest)
  permissions : Option (Permissions Metadata Digest)

/-- One chunk of a manifest. -/
structure Chunk where
  offset : Nat
  data : Bytes
  finish : Bool

namespace Admission

def new (authorization : Authorization Hash) (maxEntries : Nat) :
    Admission Metadata Digest Hash where
  authorization := authorization
  received := 0
  hashed := []
  line := []
  maxEntries := maxEntries
  pending := some .new
  permissions := none

variable (formats : Formats Metadata Digest) (hash : Bytes → Hash)

/-- Take the line read so far as an entry of the manifest. -/
def finishLine (admission : Admission Metadata Digest Hash) :
    Except String (Admission Metadata Digest Hash) := do
  formats.fromUtf8 admission.line
  let text := trimLine admission.line
  if text.isEmpty then pure { admission with line := [] }
  else
    match admission.pending with
    | none => .error "mapping admission is closed"
    | some pending => do
        let entry ← parseManifestEntry formats text
        let inserted ← pending.insert formats admission.maxEntries entry
        pure { admission with pending := some inserted, line := [] }

/-- Read one part of a chunk, up to a line end. -/
def readPart (admission : Admission Metadata Digest Hash) (part : Bytes) :
    Except String (Admission Metadata Digest Hash) :=
  if chunkBytes < admission.line.length + part.length then
    .error "restricted mapping line exceeds 1 MiB"
  else
    let extended := { admission with line := admission.line ++ part }
    if part.getLast? = some 10 then extended.finishLine formats else .ok extended

variable [DecidableEq Hash]

/-- End a manifest that has arrived whole. -/
def complete (admission : Admission Metadata Digest Hash) :
    Except String (Admission Metadata Digest Hash) :=
  if admission.received ≠ admission.authorization.bytes ∨
      hash admission.hashed ≠ admission.authorization.digest then
    .error "mapping does not match the signed manifest"
  else do
    let finished ← admission.finishLine formats
    pure { finished with permissions := finished.pending, pending := none, line := [] }

/-- The checks of a chunk before its bytes are read. -/
def checkChunk (admission : Admission Metadata Digest Hash) (chunk : Chunk) :
    Except String Unit :=
  if chunk.offset ≠ admission.received then .error "mapping chunk is out of order"
  else if chunkBytes < chunk.data.length then .error "mapping chunk exceeds size limit"
  else if u64Max < chunk.offset + chunk.data.length then .error "mapping length overflow"
  else if admission.authorization.bytes < chunk.offset + chunk.data.length then
    .error "mapping exceeds its signed length"
  else .ok ()

/-- Close the admission after an error. -/
def fail (admission : Admission Metadata Digest Hash) : Admission Metadata Digest Hash :=
  { admission with pending := none, line := [] }

/-- The bytes of a chunk have been read. -/
def receive (admission : Admission Metadata Digest Hash) (chunk : Chunk) :
    Admission Metadata Digest Hash :=
  { admission with
    hashed := admission.hashed ++ chunk.data
    received := chunk.offset + chunk.data.length }

/-- Read the bytes of a chunk. -/
def readChunk (admission : Admission Metadata Digest Hash) (chunk : Chunk) :
    Except String (Admission Metadata Digest Hash) := do
  admission.checkChunk chunk
  let read ← (splitInclusive 10 chunk.data).foldlM (readPart formats) admission
  pure (read.receive chunk)

/-- Take one chunk: its result, and the admission after it. -/
def append (admission : Admission Metadata Digest Hash) (chunk : Chunk) :
    Except String Unit × Admission Metadata Digest Hash :=
  if admission.pending.isNone then (.error "mapping admission is already closed", admission)
  else
    match admission.readChunk formats chunk with
    | .error error => (.error error, admission.fail)
    | .ok read =>
      if chunk.finish then
        match read.complete formats hash with
        | .error error => (.error error, read.fail)
        | .ok completed => (.ok (), completed)
      else (.ok (), read)

/-- Take chunks one after another: their results, and the admission after them. -/
def appendAll (admission : Admission Metadata Digest Hash) :
    List Chunk → List (Except String Unit) × Admission Metadata Digest Hash
  | [] => ([], admission)
  | chunk :: rest =>
    let (result, next) := admission.append formats hash chunk
    let (results, last) := next.appendAll rest
    (result :: results, last)

end Admission

/-! ## Sending -/

/-- The chunks `send` cuts a manifest into, from an offset on. -/
def sendFrom (contents : Bytes) (offset : Nat) : List Chunk :=
  let next := min (offset + chunkBytes) contents.length
  let data := (contents.drop offset).take (next - offset)
  if contents.length ≤ offset + chunkBytes then [⟨offset, data, true⟩]
  else ⟨offset, data, false⟩ :: sendFrom contents next
termination_by contents.length - offset
decreasing_by simp [chunkBytes] at *; omega

def send (contents : Bytes) : List Chunk :=
  sendFrom contents 0

/-- The chunks of an in-order split, with `finish` set on the last. -/
def inOrder : Nat → List Bytes → List Chunk
  | _, [] => []
  | offset, data :: rest =>
    ⟨offset, data, rest.isEmpty⟩ :: inOrder (offset + data.length) rest

end Syq.Mapping
