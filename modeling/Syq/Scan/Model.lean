import Syq.Lib.Forest
import Syq.Lib.Paths

/-!
# The walk over a descriptor-rooted directory tree

A producer keeps a stack of directories.  In each round it takes a few of them, inspects one
batch of names of each, and puts the directories it found, and the directories that have
names left, back on the stack.  What it found goes in chunks to a consumer, which hands the
entries on in batches.  An ignored entry is counted and its contents are never opened.
-/

namespace Syq.Scan

open Syq.Lib

abbrev Bytes := List UInt8

/-- Whether the ignore patterns turn a relative path away; the flag says whether it is a
directory. -/
abbrev Matcher := Bytes → Bool → Bool

/-- The verdict on one path: it matches itself, or one of the directories above it does.  The
source asks `Path::ancestors`, which passes over doubled slashes and `.`; a walk's paths have
neither, and their ancestors are the parts before each slash. -/
def pathIsIgnored (matched : Matcher) (path : Bytes) (isDir : Bool) : Bool :=
  !path.isEmpty &&
    (matched path isDir ||
      (above path).any fun ancestor => !ancestor.isEmpty && matched ancestor true)

/-! ## The tree -/

section Tree

variable (μ : Type)

/-- What the walk learns of a directory: its metadata, and why it cannot be read if it
cannot. -/
structure Directory where
  metadata : μ
  refusal : Option String

/-- The contents of a directory.  A leaf is an entry that is not a directory, or one that
cannot be inspected. -/
abbrev Contents := Forest Bytes (Except String μ) (Directory μ)

abbrev Node := Forest.Node Bytes (Except String μ) (Directory μ)

/-- A directory tree: in each directory the names are different, and none is empty or has
a slash. -/
structure Tree where
  root : Directory μ
  contents : Contents μ
  valid : contents.Valid IsName

end Tree

variable {μ : Type}

/-- An entry as the walk reports it. -/
structure Entry (μ : Type) where
  path : Bytes
  isDirectory : Bool
  metadata : μ
  deriving DecidableEq

structure ScanWarning where
  message : String
  path : Option Bytes
  error : String
  deriving DecidableEq

inductive ScanEvent (μ : Type) where
  | entry (entry : Entry μ)
  | ignored (path : Bytes)
  | warning (warning : ScanWarning)
  deriving DecidableEq

def ScanEvent.entry? : ScanEvent μ → Option (Entry μ)
  | .entry found => some found
  | _ => none

abbrev ScanChunk (μ : Type) := List (ScanEvent μ)

/-! ## One step of one directory -/

/-- How much the walk takes at a time. -/
structure Limits where
  /-- Names of one step, and events of one chunk. -/
  firstBatch : Nat
  /-- Entries and ignored paths handed on together. -/
  batch : Nat
  /-- Directories of one round. -/
  directoryWorkers : Nat
  /-- Directories that may stay open for a later round. -/
  directoryFds : Nat
  /-- Rounds of one dispatch. -/
  rounds : Nat
  firstBatch_pos : 0 < firstBatch
  batch_pos : 0 < batch
  directoryWorkers_pos : 0 < directoryWorkers

/-- The limits of the program. -/
def limits : Limits where
  firstBatch := 1000
  batch := 4096
  directoryWorkers := 8
  directoryFds := 8
  rounds := 8
  firstBatch_pos := by decide
  batch_pos := by decide
  directoryWorkers_pos := by decide

/-- A directory on the stack.  `names` holds what is left of a listing once it was read;
nobody changes the tree, so a name stands here with the node it names. -/
structure DescriptorDirectory (μ : Type) where
  relative : Bytes
  directory : Directory μ
  contents : Contents μ
  opened : Bool
  names : Option (List (Node μ))

structure DirectoryStep (μ : Type) where
  ignored : Nat
  events : ScanChunk μ
  children : List (DescriptorDirectory μ)
  remainder : Option (DescriptorDirectory μ)

structure DescriptorScan where
  ignore : Option Matcher
  reportIgnored : Bool
  /-- How a path is shown in a message. -/
  lossy : Bytes → String

namespace DescriptorScan

variable (scan : DescriptorScan)

def ignores (relative : Bytes) (isDirectory : Bool) : Bool :=
  scan.ignore.any fun matched => matched relative isDirectory

def cannotStat (relative : Bytes) (error : String) : ScanWarning where
  message := s!"scan: cannot stat {scan.lossy relative}: {error}"
  path := some relative
  error := s!"cannot stat: {error}"

def cannotOpen (relative : Bytes) (error : String) : ScanWarning where
  message := s!"scan: {scan.lossy relative}: {error}"
  path := some relative
  error := error

/-- What the step has after turning an entry away. -/
def turnAway (relative : Bytes) (later : DirectoryStep μ) : DirectoryStep μ :=
  { later with
    ignored := later.ignored + 1
    events := if scan.reportIgnored then .ignored relative :: later.events else later.events }

/-- Inspect the names of a batch.  `retained` counts the directories among them that were
left open, of which there may be `retain`. -/
def inspect (parent : Bytes) (retain : Nat) : Nat → List (Node μ) → DirectoryStep μ
  | _, [] => ⟨0, [], [], none⟩
  | retained, ⟨name, .inl (.error error)⟩ :: rest =>
    let later := inspect parent retain retained rest
    { later with events := .warning (scan.cannotStat (join parent name) error) :: later.events }
  | retained, ⟨name, .inl (.ok metadata)⟩ :: rest =>
    let relative := join parent name
    let later := inspect parent retain retained rest
    if scan.ignores relative false then scan.turnAway relative later
    else { later with events := .entry ⟨relative, false, metadata⟩ :: later.events }
  | retained, ⟨name, .inr (directory, contents)⟩ :: rest =>
    let relative := join parent name
    if scan.ignores relative true then
      scan.turnAway relative (inspect parent retain retained rest)
    else if retained < retain then
      match directory.refusal with
      | none =>
        let later := inspect parent retain (retained + 1) rest
        { later with
          events := .entry ⟨relative, true, directory.metadata⟩ :: later.events
          children := ⟨relative, directory, contents, true, none⟩ :: later.children }
      | some error =>
        let later := inspect parent retain retained rest
        { later with
          events := .entry ⟨relative, true, directory.metadata⟩ ::
            .warning (scan.cannotOpen relative error) :: later.events }
    else
      let later := inspect parent retain retained rest
      { later with
        events := .entry ⟨relative, true, directory.metadata⟩ :: later.events
        children := ⟨relative, directory, contents, false, none⟩ :: later.children }

end DescriptorScan

namespace DescriptorDirectory

variable (directory : DescriptorDirectory μ)

/-- Why the directory cannot be opened now, if it cannot. -/
def refusal : Option String :=
  if directory.opened then none else directory.directory.refusal

/-- The names that are left, read and sorted if they were not yet. -/
def remaining : List (Node μ) :=
  directory.names.getD
    (directory.contents.nodes.mergeSort fun first second => decide (first.name ≤ second.name))

end DescriptorDirectory

/-- One step: open the directory, read its names, inspect the first batch of them. -/
def DescriptorScan.step (scan : DescriptorScan) (limits : Limits)
    (directory : DescriptorDirectory μ) (retain : Nat) : Except String (DirectoryStep μ) :=
  match directory.refusal with
  | some error => .error error
  | none =>
    let names := directory.remaining.drop limits.firstBatch
    .ok { scan.inspect directory.relative retain 0
            (directory.remaining.take limits.firstBatch) with
          remainder :=
            if names.length = 0 then none
            else some { directory with opened := true, names := some names } }

/-! ## The producer -/

structure Producer (μ : Type) where
  /-- The stack, its top first. -/
  directories : List (DescriptorDirectory μ)
  retainedDirectories : Nat
  ignoredCount : Nat
  chunk : ScanChunk μ
  /-- The chunks that went to the consumer. -/
  sent : List (ScanChunk μ)
  /-- Rounds so far, which date the readings of the clock. -/
  round : Nat

def openCount (directories : List (DescriptorDirectory μ)) : Nat :=
  (directories.filter (·.opened)).length

abbrev StepResult (μ : Type) := Except ScanWarning (DirectoryStep μ)

namespace StepResult

def ignored : StepResult μ → Nat
  | .ok step => step.ignored
  | .error _ => 0

def events : StepResult μ → ScanChunk μ
  | .ok step => step.events
  | .error warning => [.warning warning]

def children : StepResult μ → List (DescriptorDirectory μ)
  | .ok step => step.children
  | .error _ => []

def remainder : StepResult μ → List (DescriptorDirectory μ)
  | .ok step => step.remainder.toList
  | .error _ => []

def productive : StepResult μ → Bool
  | .ok step => !step.events.isEmpty || !step.children.isEmpty || step.remainder.isSome
  | .error _ => true

end StepResult

namespace Producer

variable (scan : DescriptorScan) (limits : Limits)

/-- How many directories the `index`th of `count` workers may leave open. -/
def retain (retained count index : Nat) : Nat :=
  let available := limits.directoryFds - (retained + count)
  available / count + if index < available % count then 1 else 0

/-- One round: take directories off the stack and step each of them. -/
def inspectRound (producer : Producer μ) : Producer μ × List (StepResult μ) :=
  let count := min limits.directoryWorkers producer.directories.length
  let work := producer.directories.take count
  let retained := producer.retainedDirectories - openCount work
  let steps := work.zipIdx.map fun item =>
    (scan.step limits item.1 (retain limits retained count item.2)).mapError
      (scan.cannotOpen item.1.relative)
  ({ producer with
      directories := producer.directories.drop count
      retainedDirectories := retained
      ignoredCount := producer.ignoredCount + (steps.map StepResult.ignored).sum
      round := producer.round + 1 }, steps)

/-- Rounds until one has something to report, the stack is empty, the rounds of a dispatch
are used up or the clock says that it is late.  Steps that have nothing are dropped. -/
def stepRounds (late : Nat → Bool) : Nat → Producer μ → Producer μ × List (StepResult μ)
  | 0, producer => inspectRound scan limits producer
  | left + 1, producer =>
    let next := inspectRound scan limits producer
    if next.2.any StepResult.productive || next.1.directories.isEmpty || left = 0 ||
        late producer.round then next
    else stepRounds late left next.1

/-- Hand the chunk to the consumer unless it is empty. -/
def sendScanChunk (producer : Producer μ) : Producer μ :=
  if producer.chunk.isEmpty then producer
  else { producer with chunk := [], sent := producer.sent ++ [producer.chunk] }

def pushEvent (producer : Producer μ) (event : ScanEvent μ) : Producer μ :=
  let pushed := { producer with chunk := producer.chunk ++ [event] }
  if limits.firstBatch ≤ pushed.chunk.length then pushed.sendScanChunk else pushed

/-- Report the steps of a round and put their directories on the stack: first the ones that
have names left, then the ones that were found. -/
def report (producer : Producer μ) (steps : List (StepResult μ)) : Producer μ :=
  let children := steps.flatMap StepResult.children
  let remainders := steps.flatMap StepResult.remainder
  let sent := (steps.flatMap StepResult.events).foldl (pushEvent limits) producer
  { sent with
    retainedDirectories := sent.retainedDirectories + openCount (children ++ remainders)
    directories := remainders ++ children ++ sent.directories }

/-- The producer's loop; `none` says that the steps allowed here did not suffice. -/
def run (late : Nat → Bool) : Nat → Producer μ → Option (Producer μ)
  | 0, _ => none
  | fuel + 1, producer =>
    if producer.directories.isEmpty then some producer.sendScanChunk
    else
      let next := stepRounds scan limits late limits.rounds producer
      run late fuel (report limits next.1 next.2)

end Producer

/-! ## The consumer -/

structure Receiver (μ : Type) where
  batch : List (Entry μ)
  ignoredBatch : List Bytes
  firstBatch : Bool
  /-- The batches that were handed on. -/
  sunk : List (List (Entry μ))
  ignoredSunk : List (List Bytes)
  warned : List ScanWarning

namespace Receiver

variable (limits : Limits)

def sink (receiver : Receiver μ) : Receiver μ :=
  { receiver with batch := [], firstBatch := false, sunk := receiver.sunk ++ [receiver.batch] }

/-- What happens before the next chunk is waited for: a full batch is handed on, and so is a
first batch that has waited long enough. -/
def settle (receiver : Receiver μ) (timeout : Bool) : Receiver μ :=
  if limits.batch ≤ receiver.batch.length then receiver.sink
  else if receiver.firstBatch && decide (limits.firstBatch ≤ receiver.batch.length) && timeout then
    receiver.sink
  else receiver

def event (receiver : Receiver μ) : ScanEvent μ → Receiver μ
  | .entry entry => { receiver with batch := receiver.batch ++ [entry] }
  | .ignored path =>
    let pushed := receiver.ignoredBatch ++ [path]
    if limits.batch ≤ pushed.length then
      { receiver with ignoredBatch := [], ignoredSunk := receiver.ignoredSunk ++ [pushed] }
    else { receiver with ignoredBatch := pushed }
  | .warning warning => { receiver with warned := receiver.warned ++ [warning] }

/-- Take the chunks as they come; `timeout` says whether the wait for each ran out. -/
def receiveScan (timeout : Nat → Bool) : List (ScanChunk μ) → Receiver μ → Receiver μ
  | [], receiver => receiver.settle limits (timeout 0)
  | chunk :: rest, receiver =>
    receiveScan timeout rest
      (chunk.foldl (event limits) (receiver.settle limits (timeout (rest.length + 1))))

/-- What is left goes out as the last batches. -/
def finish (receiver : Receiver μ) : Receiver μ :=
  { receiver with
    batch := []
    ignoredBatch := []
    sunk := if receiver.batch.isEmpty then receiver.sunk else receiver.sunk ++ [receiver.batch]
    ignoredSunk :=
      if receiver.ignoredBatch.isEmpty then receiver.ignoredSunk
      else receiver.ignoredSunk ++ [receiver.ignoredBatch] }

end Receiver

/-- What one walk hands on. -/
structure Scanned (μ : Type) where
  batches : List (List (Entry μ))
  ignoredBatches : List (List Bytes)
  warnings : List ScanWarning
  ignoredCount : Nat

/-- Walk a tree.  The clock and the waits of the consumer are arbitrary. -/
def scanDescriptor (scan : DescriptorScan) (limits : Limits) (late timeout : Nat → Bool)
    (tree : Tree μ) (fuel : Nat) : Option (Scanned μ) := do
  let produced ← Producer.run scan limits late fuel
    { directories := [⟨[], tree.root, tree.contents, false, none⟩]
      retainedDirectories := 0
      ignoredCount := 0
      chunk := []
      sent := []
      round := 0 }
  let received := (Receiver.receiveScan limits timeout produced.sent
    { batch := [⟨[], true, tree.root.metadata⟩]
      ignoredBatch := []
      firstBatch := true
      sunk := []
      ignoredSunk := []
      warned := [] }).finish
  return ⟨received.sunk, received.ignoredSunk, received.warned, produced.ignoredCount⟩

/-! ## The verdict of a restricted receiver -/

/-- The ignore patterns that a restricted receiver enforces, and the directories they are
relative to. -/
structure FilterScope where
  filterMatcher : Option Matcher
  filterRoots : List Bytes

namespace FilterScope

/-- The verdict over the roots that are left; `underRoot` says whether the path was below
one of those before.  The ancestors are those of `Scan.pathIsIgnored`, for paths like a
walk's. -/
def verdict (matched : Matcher) (path : Bytes) (isDir : Bool) : Bool → List Bytes → Bool
  | underRoot, [] => underRoot
  | underRoot, root :: rest =>
    if path = root then false
    else if !(root.isPrefixOf path) || path[root.length]? != some slash then
      verdict matched path isDir underRoot rest
    else
      let relative := path.drop (root.length + 1)
      let prunedByAncestor := (above relative).any fun ancestor =>
        !ancestor.isEmpty && matched ancestor true
      if !prunedByAncestor && !matched relative isDir then false
      else verdict matched path isDir true rest

def pathIsIgnored (scope : FilterScope) (path : Bytes) (isDir : Bool) : Bool :=
  match scope.filterMatcher with
  | none => false
  | some matched => verdict matched path isDir false scope.filterRoots

end FilterScope

end Syq.Scan
