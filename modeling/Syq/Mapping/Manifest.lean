import Syq.Lib.Collections
import Syq.Lib.LineReader

/-!
# Mapping manifests as the sending side reads them

A manifest has one JSON entry a line.  The planner reads it whole, notes where it passes
the bounds of a restricted receiver, and refuses duplicate destinations and destinations
below one that is declared not to be a directory.
-/

namespace Syq.Mapping

open Syq.Lib

abbrev Bytes := List UInt8

/-- Contents held in memory, whose length is a 64-bit number. -/
abbrev Contents := { bytes : Bytes // bytes.length ≤ u64Max }

/-- The longest mapping chunk, and the longest line of a restricted mapping. -/
def chunkBytes : Nat :=
  1024 * 1024

/-- The longest destination path of a restricted mapping. -/
def maxPathBytes : Nat :=
  4096

/-- The manifest's `kind` field. -/
inductive DeclaredKind where
  | file
  | dir
  | symlink
  | special
  deriving DecidableEq

def DeclaredKind.label : DeclaredKind → String
  | file => "file"
  | dir => "dir"
  | symlink => "symlink"
  | special => "special"

/-- A declared kind that is not a directory's. -/
def notDir (kind : Option DeclaredKind) : Bool :=
  kind.any fun kind => kind != .dir

structure WirePath where
  encoding : String
  value : Bytes
  deriving DecidableEq

section Entries

variable {Metadata Digest : Type}

variable (Metadata Digest) in
structure WireEntry where
  src : WirePath
  dst : WirePath
  kind : Option String
  expectedHash : Option Digest
  metadata : Option Metadata

variable (Metadata Digest) in
/-- One parsed manifest entry. -/
structure ManifestEntry where
  src : Bytes
  dst : Bytes
  kind : Option DeclaredKind
  expectedHash : Option Digest
  metadata : Option Metadata

variable (Metadata Digest) in
/-- The text formats a manifest is written in, and the checks of its values. -/
structure Formats where
  fromUtf8 : Bytes → Except String Unit
  fromUtf8_nil : fromUtf8 [] = .ok ()
  fromJson : Bytes → Except String (WireEntry Metadata Digest)
  decodeBase64 : Bytes → Except String Bytes
  validateMetadata : Metadata → Except String Unit
  /-- The metadata suits a symbolic link. -/
  validateSymlink : Metadata → Except String Unit
  validateDigest : Digest → Except String Unit
  /-- A text in quotes, as a message shows it. -/
  debug : String → String
  /-- A path's lossy text in quotes. -/
  debugPath : Bytes → String
  display : Bytes → String

variable (formats : Formats Metadata Digest)

/-! ## One entry -/

def validateManifestPath (path : Bytes) (which : String) : Except String Unit :=
  if path.isEmpty then .error s!"{which} path is empty"
  else if path.head? = some 47 then
    .error (s!"{which} path {formats.debugPath path} is absolute; " ++
      "mapping entries are root-relative")
  else if 0 ∈ path then .error s!"{which} path contains NUL"
  else if (path.splitOn 47).any fun component =>
      component.isEmpty || component == [46] || component == [46, 46] then
    .error s!"{which} path {formats.debugPath path} contains an empty, `.`, or `..` component"
  else .ok ()

/-- The bytes a path's encoding stands for. -/
def WirePath.bytes (path : WirePath) (which : String) : Except String Bytes :=
  if path.encoding = "utf-8" then .ok path.value
  else if path.encoding = "base64" then
    (formats.decodeBase64 path.value).mapError fun error =>
      s!"{which}: invalid base64 path: {error}"
  else .error s!"{which}: unknown path encoding {formats.debug path.encoding}"

def WirePath.decode (path : WirePath) (which : String) : Except String Bytes := do
  let bytes ← path.bytes formats which
  validateManifestPath formats bytes which
  pure bytes

def declaredKind : Option String → Except String (Option DeclaredKind)
  | none => .ok none
  | some "file" => .ok (some .file)
  | some "dir" => .ok (some .dir)
  | some "symlink" => .ok (some .symlink)
  | some "special" => .ok (some .special)
  | some other => .error s!"unknown kind {formats.debug other}"

/-- The declared kind of an entry, with its other fields checked against it. -/
def WireEntry.validate (entry : WireEntry Metadata Digest) :
    Except String (Option DeclaredKind) := do
  let kind ← declaredKind formats entry.kind
  match entry.metadata with
  | none => pure ()
  | some metadata =>
    formats.validateMetadata metadata
    if kind = some .symlink then formats.validateSymlink metadata
  match entry.expectedHash with
  | none => pure ()
  | some digest =>
    formats.validateDigest digest
    if kind.any fun kind => kind != .file then .error "expected_hash requires a regular file"
  pure kind

def parseManifestEntry (text : Bytes) : Except String (ManifestEntry Metadata Digest) := do
  let entry ← formats.fromJson text
  let kind ← entry.validate formats
  let src ← entry.src.decode formats "src"
  let dst ← entry.dst.decode formats "dst"
  pure ⟨src, dst, kind, entry.expectedHash, entry.metadata⟩

/-- A line without its line end. -/
def trimLine (line : Bytes) : Bytes :=
  (line.rdropWhile (· == 10)).rdropWhile (· == 13)

/-! ## The whole manifest -/

variable (Metadata Digest) in
/-- What the planner has read of a manifest. -/
structure Reading where
  lineNumber : Nat
  entries : List (Nat × ManifestEntry Metadata Digest)
  restrictedBoundsError : Option String

/-- Read one line of the manifest. -/
def readLine (reading : Reading Metadata Digest) (line : Bytes) :
    Except String (Reading Metadata Digest) := do
  (formats.fromUtf8 line).mapError fun error => s!"--mapping: read: {error}"
  let number := reading.lineNumber + 1
  -- Only the first bound that is passed is kept.
  let bounds := reading.restrictedBoundsError <|>
    if chunkBytes < line.length then
      some s!"--mapping line {number}: restricted mapping line exceeds 1 MiB"
    else none
  let text := trimLine line
  if text.isEmpty then pure ⟨number, reading.entries, bounds⟩
  else
    let entry ← (parseManifestEntry formats text).mapError fun error =>
      s!"--mapping line {number}: {error}"
    pure ⟨number, reading.entries ++ [(number, entry)], bounds <|>
      if maxPathBytes < entry.dst.length then
        some (s!"--mapping line {number}: restricted mapping destination exceeds " ++
          s!"{maxPathBytes} bytes")
      else none⟩

/-- The paths above a path, as far as the path names them. -/
def ancestors (path : Bytes) : List Bytes :=
  (path.zipIdx.filter fun item => item.1 == 47).map fun item => path.take item.2

/-- A destination with its line and its declared kind. -/
structure Destination where
  line : Nat
  path : Bytes
  kind : Option DeclaredKind

abbrev Declared := Finmap fun _ : Bytes => Nat × Option DeclaredKind

def declare (declared : Declared) (destination : Destination) : Except String Declared :=
  if destination.path ∈ declared then
    .error (s!"--mapping line {destination.line}: duplicate destination " ++
      s!"{formats.display destination.path} " ++
      "(duplicate entries are errors; deduplicate in the generator)")
  else .ok (declared.insert destination.path (destination.line, destination.kind))

/-- Refuse an ancestor that is declared with another kind than a directory's. -/
def checkAncestor (declared : Declared) (destination : Destination) (ancestor : Bytes) :
    Except String Unit :=
  match declared.lookup ancestor with
  | some (_, some kind) =>
    if kind = .dir then .ok ()
    else .error (s!"--mapping line {destination.line}: destination ancestor " ++
      s!"{formats.display ancestor} of {formats.display destination.path} is mapped with " ++
      s!"kind {formats.debug kind.label}, not dir")
  | _ => .ok ()

/-- Refuse duplicate destinations and destinations below one that is no directory.  The
source visits the declared destinations in no fixed order; here it is the manifest's. -/
def validateDestinations (destinations : List Destination) : Except String Unit := do
  let declared ← destinations.foldlM (declare formats) ∅
  destinations.forM fun destination =>
    (ancestors destination.path).forM (checkAncestor formats declared destination)

structure Input where
  contents : Contents
  restrictedBoundsError : Option String

variable (Metadata Digest) in
structure ParsedManifest where
  input : Input
  entries : List (Nat × ManifestEntry Metadata Digest)

def parsedManifest (contents : Contents) (reading : Reading Metadata Digest) :
    Except String (ParsedManifest Metadata Digest) := do
  validateDestinations formats
    (reading.entries.map fun entry => ⟨entry.1, entry.2.dst, entry.2.kind⟩)
  pure ⟨⟨contents, reading.restrictedBoundsError⟩, reading.entries⟩

def readMappingManifest (contents : Contents) :
    Except String (ParsedManifest Metadata Digest) := do
  let reading ← (splitInclusive 10 contents.val).foldlM (readLine formats) ⟨0, [], none⟩
  parsedManifest formats contents reading

def Input.validateRestrictedBounds (input : Input) : Except String Unit :=
  match input.restrictedBoundsError with
  | some error => .error error
  | none => .ok ()

end Entries

/-! ## Authorization -/

/-- The manifest a receiver is authorized to take. -/
structure Authorization (Hash : Type) where
  bytes : Nat
  digest : Hash
  bounded : bytes ≤ u64Max

variable {Hash : Type}

def Authorization.fromContents (hash : Bytes → Hash) (contents : Contents) :
    Authorization Hash :=
  ⟨contents.val.length, hash contents.val, contents.property⟩

def Input.authorization (hash : Bytes → Hash) (input : Input) :
    Except String (Authorization Hash) := do
  input.validateRestrictedBounds
  pure (.fromContents hash input.contents)

end Syq.Mapping
