import Syq.Lib.Collections
import Syq.Lib.Paths

/-!
# Planning a copy of several sources

Every scanned entry claims its destination path before anything is decided about it.  With
several sources the mapped batches are only buffered: once all of them are there, the
destinations that more than one regular file claims are looked up, and the buffered batches
are applied if nothing collides.
-/

namespace Syq.Planning

open Syq.Lib

abbrev Bytes := List UInt8

inductive Kind where
  | file
  | dir
  | symlink
  | fifo
  | socket
  | charDev
  | blockDev
  | other
  deriving DecidableEq

/-- What makes two names the same file: device and inode number. -/
structure Identity where
  dev : Nat
  ino : Nat
  deriving DecidableEq

/-- A scanned entry, with the fields that the planner reads here. -/
structure Entry where
  path : Bytes
  kind : Kind
  identity : Identity
  deriving DecidableEq

/-- What a source entry intends with its destination path.  A weak claim comes from an entry
that is not transferred. -/
inductive Claim where
  | dir
  | file (identity : Identity)
  | leaf
  | weak
  deriving DecidableEq

structure Opts where
  recursive : Bool
  links : Bool
  devices : Bool
  sameHost : Bool
  quiet : Bool
  rsyncCreation : Bool
  verbose : Nat
  /-- Whether a digest is expected of the file at a path below the destination root. -/
  expectedFor : Bytes → Bool

/-- What the planner knows of the two sides when it maps a batch. -/
structure Sides where
  display : Bytes → String
  keepDirs : Bool
  destinationSupportsConfinedSocketNodes : Bool
  implicitDirs : Bytes → Bool
  srcOverrides : Bytes → Option Bytes
  /-- Why the capacity that a new destination object needs cannot be recorded. -/
  recordFreshEntry : Bytes → Entry → Option String

def specialCreationSupported (destinationSupportsSockets : Bool) (kind : Kind) : Bool :=
  kind != .socket || destinationSupportsSockets

def isSpecial : Kind → Bool
  | .fifo | .socket | .charDev | .blockDev => true
  | _ => false

/-- Everything decided about one entry that will be written. -/
structure Planned where
  src : Bytes
  dst : Bytes
  dstRel : Bytes
  rel : String
  entry : Entry
  /-- Whether another source claimed the destination as a regular file before. -/
  contested : Bool
  deriving DecidableEq

/-- One batch after the mapping loop. -/
structure Mapped where
  dstRoot : Bytes
  dirs : List (Bytes × Bytes × Entry)
  others : List Planned
  deriving DecidableEq

/-- What the planner tells the user and the result stream. -/
inductive Report where
  | error (message : String) (failureClass : Option String)
  | entryFailed (dst : Bytes) (src : Option Bytes) (failureClass message : String)
  | eprintln (message : String)
  | println (message : String)
  deriving DecidableEq

structure Planner where
  dstSeen : Table Bytes Claim
  collision : Bool
  buffer : List Mapped
  reports : List Report
  filesExcluded : Nat

/-- A scanned batch with where it comes from and where it goes.  `blocked` are the paths below
a directory whose conflict was reported before. -/
structure Batch where
  entries : List Entry
  srcRoot : Bytes
  sub : Bytes
  dstRoot : Bytes
  blocked : Bytes → Bool

/-! ## Claims -/

variable (opts : Opts) (sides : Sides)

def claimOf (entry : Entry) : Claim :=
  match entry.kind with
  | .dir => .dir
  | .file => .file entry.identity
  | .symlink => if opts.links then .leaf else .weak
  | kind =>
    if isSpecial kind && opts.devices &&
        specialCreationSupported sides.destinationSupportsConfinedSocketNodes kind then .leaf
    else .weak

def conflictingTypes (dst : Bytes) (rel : String) : Report :=
  .error (s!"syq: {rel}: two sources map to the same destination {sides.display dst} " ++
    "with conflicting types — refusing to clobber it") (some "conflict")

/-- Claim a destination.  `some contested` says that the claim stands; `none` that it
conflicts with an earlier one, which is reported. -/
def claimDst (planner : Planner) (dst : Bytes) (rel : String) (claim : Claim) :
    Planner × Option Bool :=
  match planner.dstSeen.lookup dst, claim with
  | some .dir, .dir => (planner, some false)
  | some _, .weak => (planner, some false)
  | some .weak, claim => ({ planner with dstSeen := planner.dstSeen.insert dst claim }, some false)
  | some (.file _), .file _ => (planner, some true)
  | some _, _ =>
    ({ planner with
        collision := true
        reports := planner.reports ++ [conflictingTypes sides dst rel] }, none)
  | none, claim => ({ planner with dstSeen := planner.dstSeen.insert dst claim }, some false)

/-! ## The mapping loop -/

def relName (batch : Batch) (path : Bytes) : String :=
  let relative := join batch.sub path
  if relative.isEmpty then
    sides.display (batch.srcRoot.reverse.takeWhile (· ≠ slash)).reverse
  else sides.display relative

/-- Whether the loop leaves an entry out before it claims anything. -/
def leftOut (entry : Entry) : Bool :=
  entry.kind = .dir && !opts.recursive && !sides.keepDirs

/-- Whether an entry stands where a digest is expected, which only a regular file has. -/
def lacksDigest (batch : Batch) (entry : Entry) : Bool :=
  opts.expectedFor (join batch.sub entry.path) && entry.kind != .file &&
    !sides.implicitDirs (join batch.dstRoot (join batch.sub entry.path))

def refuseDigest (batch : Batch) (entry : Entry) (planner : Planner) : Planner :=
  let message := "expected digest requires a regular file"
  let dstRel := join batch.sub entry.path
  { planner with
    reports := planner.reports ++
      [.error message none, .entryFailed dstRel (sides.srcOverrides dstRel) "conflict" message] }

/-- What is said about an entry that is not transferred. -/
def weakReports (entry : Entry) (rel : String) : List Report :=
  if entry.kind = .other then []
  else if entry.kind = .socket && opts.devices &&
      !specialCreationSupported sides.destinationSupportsConfinedSocketNodes entry.kind then
    [.eprintln (s!"syq: skipping socket \"{rel}\": macOS cannot create socket nodes through a " ++
      "confined destination")]
  else if !opts.quiet && opts.rsyncCreation then
    [.println s!"skipping non-regular file \"{rel}\""]
  else if 0 < opts.verbose then
    [.eprintln s!"skipping non-regular file \"{rel}\""]
  else []

/-- Whether the claim is the first one at its path that takes up room there. -/
def newCapacityObject (planner : Planner) (dst : Bytes) (claim : Claim) : Bool :=
  match planner.dstSeen.lookup dst with
  | none => true
  | some .weak => claim != .weak
  | some _ => false

/-- One entry of the mapping loop: the planner and the batch mapped so far. -/
def mapEntry (batch : Batch) (state : Planner × Mapped) (entry : Entry) :
    Except String (Planner × Mapped) :=
  if leftOut opts sides entry then .ok state
  else if lacksDigest opts sides batch entry then
    .ok (refuseDigest sides batch entry state.1, state.2)
  else
    let dstRel := join batch.sub entry.path
    let dst := join batch.dstRoot dstRel
    let rel := relName sides batch entry.path
    let claim := claimOf opts sides entry
    match claimDst sides state.1 dst rel claim with
    | (planner, none) => .ok (planner, state.2)
    | (planner, some contested) =>
      if claim != .weak && batch.blocked dst then .ok (planner, state.2)
      else
        let failure :=
          if newCapacityObject state.1 dst claim then sides.recordFreshEntry dst entry else none
        match failure with
        | some error => .error error
        | none =>
          let src := join batch.srcRoot ((sides.srcOverrides entry.path).getD entry.path)
          match claim with
          | .dir =>
            .ok (planner, { state.2 with dirs := state.2.dirs ++ [(dst, dstRel, entry)] })
          | .weak =>
            .ok ({ planner with
                reports := planner.reports ++ weakReports opts sides entry rel
                filesExcluded := planner.filesExcluded + 1 }, state.2)
          | _ =>
            .ok (planner, { state.2 with
              others := state.2.others ++ [⟨src, dst, dstRel, rel, entry, contested⟩] })

def mapBatch (planner : Planner) (batch : Batch) : Except String (Planner × Mapped) :=
  batch.entries.foldlM (mapEntry opts sides batch) (planner, ⟨batch.dstRoot, [], []⟩)

/-- What the scans of the sources bring: a batch, or a selected file that is ignored and keeps
its path from being pruned. -/
inductive Found where
  | batch (batch : Batch)
  | ignoredFile (dst : Bytes)

/-- Map a batch and buffer it, unless something collides. -/
def handle (planner : Planner) : Found → Except String Planner
  | .batch batch => do
      let (planner, mapped) ← mapBatch opts sides planner batch
      if planner.collision then pure planner
      else pure { planner with buffer := planner.buffer ++ [mapped] }
  | .ignoredFile dst =>
    pure (if dst ∈ planner.dstSeen then planner
      else { planner with dstSeen := planner.dstSeen.insert dst .weak })

/-! ## Replay -/

/-- What replaying does to the destination, and the two callbacks of its caller: pruning and
starting the workers. -/
inductive Operation where
  | prepareContainerAccess
  | prepareExistingDirectories (paths : List Bytes)
  | beforeMutations
  | createRoot
  | beforeApply
  | applyMapped (mapped : Mapped)
  deriving DecidableEq

/-- What replaying meets at the destination. -/
structure Replay where
  prepareForPruning : Bool
  createRoot : Bool
  /-- Why the access lists of hard links cannot be kept, if they cannot. -/
  validateMacosAcls : List Planned → Option String
  /-- Why a lookup fails, if it does. -/
  lookupError : List Bytes → Option String
  stat : Bytes → Option Identity
  /-- Why an operation fails, if it does. -/
  perform : Operation → Option String

/-- The claimants of a contested destination. -/
structure Group where
  dst : Bytes
  rel : String
  ids : List Identity
  deriving DecidableEq

/-- The identity of the file that claimed the destination first. -/
def firstClaimant (planner : Planner) (dst : Bytes) : List Identity :=
  match planner.dstSeen.lookup dst with
  | some (.file identity) => [identity]
  | _ => []

/-- Add a contested entry to the group of its destination; the groups are kept in the order
of their paths. -/
def addClaimant (planner : Planner) (planned : Planned) : List Group → List Group
  | [] => [⟨planned.dst, planned.rel,
      firstClaimant planner planned.dst ++ [planned.entry.identity]⟩]
  | group :: rest =>
    if group.dst = planned.dst then
      { group with ids := group.ids ++ [planned.entry.identity] } :: rest
    else if planned.dst < group.dst then
      ⟨planned.dst, planned.rel,
        firstClaimant planner planned.dst ++ [planned.entry.identity]⟩ :: group :: rest
    else group :: addClaimant planner planned rest

def groups (planner : Planner) : List Group :=
  ((planner.buffer.flatMap Mapped.others).filter Planned.contested).foldl
    (fun groups planned => addClaimant planner planned groups) []

/-- The identity of the destination file, if the two ends are one machine. -/
def destinationIdentity (replay : Replay) (dst : Bytes) : Option Identity :=
  (replay.stat dst).filter fun _ => opts.sameHost

/-- Every claimant of a contested destination must be the destination file itself. -/
def settleGroup (replay : Replay) (planner : Planner) (group : Group) : Planner :=
  let distinct := group.ids.filter fun identity =>
    some identity != destinationIdentity opts replay group.dst
  if distinct.isEmpty then planner
  else
    { planner with
      collision := true
      reports := planner.reports ++
        [.error (s!"syq: {group.rel}: {group.ids.length} sources map to the same destination " ++
          s!"{sides.display group.dst} — refusing to clobber it") none] }

/-- The planner after replaying, what was done, and the error that ended it. -/
structure Outcome where
  planner : Planner
  operations : List Operation
  error : Option String

/-- Perform operations until one fails. -/
def performAll (replay : Replay) : List Operation → List Operation × Option String
  | [] => ([], none)
  | operation :: rest =>
    match replay.perform operation with
    | some error => ([operation], some error)
    | none => (operation :: (performAll replay rest).1, (performAll replay rest).2)

/-- The paths of all planned directories. -/
def plannedDirectories (planner : Planner) : List Bytes :=
  planner.buffer.flatMap fun mapped => mapped.dirs.map fun planned => planned.1

/-- Validated batches are ordinary ones. -/
def Mapped.validated (mapped : Mapped) : Mapped :=
  { mapped with
    others := mapped.others.map fun planned => { planned with contested := false } }

def operations (replay : Replay) (planner : Planner) : List Operation :=
  let prepare : List Operation :=
    if replay.prepareForPruning then
      [.prepareContainerAccess, .prepareExistingDirectories (plannedDirectories planner)]
    else []
  let create : List Operation := if replay.createRoot then [.createRoot] else []
  let apply : List Operation := planner.buffer.map fun mapped => .applyMapped mapped.validated
  prepare ++ (.beforeMutations :: create ++ (.beforeApply :: apply))

def replayBuffered (replay : Replay) (planner : Planner) : Outcome :=
  match replay.validateMacosAcls (planner.buffer.flatMap Mapped.others) with
  | some error => ⟨planner, [], some error⟩
  | none =>
    let contested := groups planner
    let failure :=
      if contested.isEmpty then none else replay.lookupError (contested.map Group.dst)
    match failure with
    | some error => ⟨planner, [], some error⟩
    | none =>
      let settled := contested.foldl (settleGroup opts sides replay) planner
      if settled.collision then ⟨settled, [], none⟩
      else
        let performed := performAll replay (operations replay settled)
        ⟨settled, performed.1, performed.2⟩

def Planner.empty : Planner :=
  ⟨∅, false, [], [], 0⟩

/-- Plan a copy: scan all sources into the buffer, then replay it.  Nothing is replayed after
a failed scan or a collision. -/
def plan (replay : Replay) (found : List Found) : Outcome :=
  match found.foldlM (handle opts sides) Planner.empty with
  | .error error => ⟨Planner.empty, [], some error⟩
  | .ok planner =>
    if planner.collision then ⟨planner, [], none⟩
    else replayBuffered opts sides replay planner

end Syq.Planning
