import Syq.Lib.Groups
import Syq.Lib.Roots
import Syq.Planning.Claims

/-!
# Planning and running deletions

After a copy, every destination directory that a source maps onto is walked, and what no source
claims is planned for removal: leaves, and directories by their depth.  Several sets of paths
protect what must stay.  The plan runs only if it does not exceed the given maximum.
-/

namespace Syq.Pruning

open Syq.Lib Syq.Planning

/-! ## Names -/

/-- The bytes of `.syq-tmp.`. -/
def partialMarker : Bytes :=
  [46, 115, 121, 113, 45, 116, 109, 112, 46]

/-- The bytes of `.syq-swap-`. -/
def recoveryStart : Bytes :=
  [46, 115, 121, 113, 45, 115, 119, 97, 112, 45]

/-- Where the marker stands last in a name. -/
def lastMarker (name : Bytes) : Option Nat :=
  ((List.range (name.length + 1)).filter fun at' =>
    (name.drop at').take partialMarker.length = partialMarker).getLast?

/-- The names of files that a copy stages beside their destination. -/
def isPartialName (name : Bytes) : Bool :=
  name.head? = some 46 &&
    (lastMarker name).any fun at' =>
      let tail := name.drop (at' + partialMarker.length)
      tail.length = 16 &&
        tail.all fun byte => (97 ≤ byte && byte ≤ 122) || (50 ≤ byte && byte ≤ 55)

def isDecimal (field : Bytes) : Bool :=
  !field.isEmpty && field.all fun byte => 48 ≤ byte && byte ≤ 57

/-- The names of entries that a replacement displaced. -/
def isRecoveryName (name : Bytes) : Bool :=
  recoveryStart.isPrefixOf name &&
    match (name.drop recoveryStart.length).splitOn 45 with
    | [process, counter] => isDecimal process && isDecimal counter
    | _ => false

def names (path : Bytes) : List Bytes :=
  path.splitOn slash

def lastName (path : Bytes) : Bytes :=
  (path.reverse.takeWhile (· ≠ slash)).reverse

/-- An entry of which some name, from the root of its walk on, is a recovery name. -/
def isRecovery (path : Bytes) : Bool :=
  (names path).any isRecoveryName

/-! ## What the destination says -/

/-- What a walk from one root reports: the entries with the paths below the root, each after
the directories that hold it, and the paths that the ignore patterns turned away. -/
structure DestinationWalk where
  entries : List Entry
  ignored : List Bytes
  warnings : List String
  relative : ∀ entry ∈ entries, entry.path = [] ∨ IsRelative entry.path
  nodup : (entries.map Entry.path).Nodup
  parentsFirst : ∀ before entry after, entries = before ++ entry :: after →
    ∀ upper ∈ above entry.path, ∃ directory ∈ before,
      directory.path = upper ∧ directory.kind = .dir
  ignoredRelative : ∀ path ∈ ignored, IsRelative path
  ignoredApart : ∀ path ∈ ignored, ∀ entry ∈ entries, entry.path ≠ path
  ignoredParents : ∀ path ∈ ignored, ∀ upper ∈ above path, ∃ directory ∈ entries,
    directory.path = upper ∧ directory.kind = .dir

structure Destination where
  stat : Bytes → Except String (Option Identity)
  walk : Bytes → List String → Except String DestinationWalk
  /-- The order in which a set of paths is gone through. -/
  enumerate : Finset Bytes → List Bytes
  mem_enumerate : ∀ paths path, path ∈ enumerate paths ↔ path ∈ paths
  display : Bytes → String

structure PruneOpts where
  ignore : List String
  deleteExcluded : Bool
  verbose : Nat
  dryRun : Bool
  maxDelete : Option Nat
  maxDeleteFromApprover : Bool

/-! ## One walk -/

/-- Whether the path, or a directory between the root and it, is in the set. -/
def underAny (set : Finset Bytes) (dst dstRoot : Bytes) : Bool :=
  if set = ∅ then false
  else if dstRoot ∈ set then true
  else ((above dst).reverse.takeWhile fun upper => dstRoot.length < upper.length).any
    fun upper => upper ∈ set

structure PruneWalk where
  unmatched : Finset Bytes
  entries : List Entry
  shielded : Finset Bytes
  recoveryParents : Finset Bytes

/-- The claims inside a root, searched for in a sorted index if there is one. -/
def claimsInside (seen : Table Bytes Claim) (root : Bytes) : Option (List Bytes) → Finset Bytes
  | some sorted => (startingWith (lead root) id sorted).toFinset
  | none => seen.keys.filter fun path => inside path root

def PruneWalk.new (seen : Table Bytes Claim) (root : Bytes) (sorted : Option (List Bytes)) :
    PruneWalk :=
  ⟨claimsInside seen root sorted, [], ∅, ∅⟩

def PruneWalk.push (seen : Table Bytes Claim) (root : Bytes) (nested : List Bytes)
    (walk : PruneWalk) (entry : Entry) : PruneWalk :=
  if entry.path.isEmpty then walk
  else
    let full := join root entry.path
    if isRecovery entry.path then
      { walk with recoveryParents := walk.recoveryParents ∪ (above full).toFinset }
    else
      let walk := { walk with unmatched := walk.unmatched.erase full }
      if nested.any fun other => other = full || inside full other then walk
      else
        match seen.lookup full with
        | some claim =>
          if claim != .dir && entry.kind = .dir then
            { walk with shielded := insert full walk.shielded }
          else walk
        | none => { walk with entries := walk.entries ++ [{ entry with path := full }] }

def PruneWalk.finishScan (walk : PruneWalk) (root : Bytes) : PruneWalk :=
  { walk with entries := walk.entries.filter fun entry => !underAny walk.shielded entry.path root }

/-- Look one claim up: its file may be an entry that the walk found under another name. -/
def lookupAlias (destination : Destination) (seen : Table Bytes Claim) (entries : List Entry)
    (aliases : Table Identity Claim) (path : Bytes) : Except String (Table Identity Claim) := do
  match ← destination.stat path, seen.lookup path with
  | some identity, some claim =>
    if entries.any fun entry => entry.identity = identity then
      pure (aliases.insert identity claim)
    else pure aliases
  | _, _ => pure aliases

/-- The claims that the walk did not find under their own names, by the files they are. -/
def lookupPruneAliases (destination : Destination) (seen : Table Bytes Claim)
    (walk : PruneWalk) : Except String (Table Identity Claim) :=
  if walk.entries.isEmpty then .ok ∅
  else (destination.enumerate walk.unmatched).foldlM (lookupAlias destination seen walk.entries) ∅

/-- The roots that lie inside a root, searched for in their sorted list. -/
def rootsInside (roots : List (Bytes × Bytes)) (root : Bytes) : List Bytes :=
  ((startingWith (lead root) Prod.fst roots).filter fun other => other.1 ≠ root).map Prod.fst

/-! ## The plan -/

/-- An entry to remove: its path, how it is shown, and the kind in its record. -/
structure Item where
  path : Bytes
  rel : String
  kind : String
  deriving DecidableEq

structure Deletes where
  leaves : List Item
  dirs : Groups Nat Item
  deriving DecidableEq

/-- How many slashes a path has. -/
def depth (path : Bytes) : Nat :=
  path.count slash

/-- What going through the entries of one walk has found. -/
structure Found where
  shielded : Finset Bytes
  aliasParents : Finset Bytes
  partialParents : Table Bytes String
  deletes : Deletes
  reports : List String

def kindLabel : Kind → String
  | .symlink => "symlink"
  | .fifo | .socket | .charDev | .blockDev => "special"
  | _ => "file"

def holdPartial (rel : String) (parents : Table Bytes String) (upper : Bytes) :
    Table Bytes String :=
  if upper ∈ parents then parents else parents.insert upper rel

/-- An entry that is no alias and below no shield: a staged file is kept with the directories
that hold it, anything else is planned. -/
def planUnclaimed (destination : Destination) (opts : PruneOpts) (sub full entryPath : Bytes)
    (entryKind : Kind) (found : Found) : Found :=
  let rel := destination.display (join sub entryPath)
  if entryKind = .file && isPartialName (lastName entryPath) then
    { found with
      partialParents := (above full).foldl (holdPartial rel) found.partialParents
      reports :=
        if 0 < opts.verbose then
          found.reports ++
            [s!"syq: not deleting {rel}: its name matches syq's partial-file format; " ++
              "use syq clean-partials after copies stop"]
        else found.reports }
  else if entryKind = .dir then
    { found with deletes := { found.deletes with
        dirs := Groups.push (depth full) ⟨full, rel ++ "/", "dir"⟩ found.deletes.dirs } }
  else
    { found with deletes := { found.deletes with
        leaves := found.deletes.leaves ++ [⟨full, rel, kindLabel entryKind⟩] } }

/-- An alias is kept with the directories that hold it; a directory shields its contents if
what is claimed is no directory. -/
def keepAlias (full : Bytes) (entryKind : Kind) (claim : Claim) (found : Found) : Found :=
  { found with
    aliasParents := found.aliasParents ∪ (above full).toFinset
    shielded :=
      if claim ≠ .dir && entryKind = .dir then insert full found.shielded else found.shielded }

/-- One entry of a walk: it is kept, or planned. -/
def planEntry (destination : Destination) (opts : PruneOpts) (root sub : Bytes)
    (aliases : Table Identity Claim) (found : Found) (entry : Entry) : Found :=
  let full := entry.path
  let entryPath := full.drop
    (root.length + if !root.isEmpty && root.getLast? ≠ some slash then 1 else 0)
  if underAny found.shielded full root then found
  else
    match aliases.lookup entry.identity with
    | some claim => keepAlias full entry.kind claim found
    | none => planUnclaimed destination opts sub full entryPath entry.kind found

/-- Why a directory stays, if it does. -/
def holds (found : Found) (recoveryParents protected' : Finset Bytes) (item : Item) :
    Option String :=
  match found.partialParents.lookup item.path with
  | some held =>
    some (s!"syq: not deleting {item.rel}: it holds partial {held}; use syq clean-partials " ++
      "after copies stop")
  | none =>
    if item.path ∈ recoveryParents then
      some s!"syq: not deleting {item.rel}: it holds replacement recovery data"
    else if item.path ∈ found.aliasParents then
      some s!"syq: not deleting {item.rel}: it holds a possible filename alias"
    else if item.path ∈ protected' then
      some s!"syq: not deleting {item.rel}: it holds ignored paths"
    else none

structure Planner where
  deletes : Deletes
  deleteWalkFailed : Bool
  reports : List String
  deriving DecidableEq

/-- Take over one directory of a walk's plan, unless it stays. -/
def planDirectory (found : Found) (recoveryParents protected' : Finset Bytes)
    (planner : Planner) (item : Item) : Planner :=
  match holds found recoveryParents protected' item with
  | some report => { planner with reports := planner.reports ++ [report] }
  | none =>
    { planner with deletes := { planner.deletes with
        dirs := Groups.push (depth item.path) item planner.deletes.dirs } }

/-- The directories that hold an ignored path. -/
def protectedBy (root : Bytes) (ignored : List Bytes) : Finset Bytes :=
  (ignored.flatMap fun path => (above path).map (join root)).toFinset

/-- Plan the removals below one root from its finished walk. -/
def planWalked (destination : Destination) (opts : PruneOpts) (seen : Table Bytes Claim)
    (root sub : Bytes) (ignored : List Bytes) (planner : Planner) (walk : PruneWalk) :
    Except String Planner := do
  if walk.entries.isEmpty then pure planner
  else
    let aliases ← lookupPruneAliases destination seen walk
    let found := walk.entries.foldl (planEntry destination opts root sub aliases)
      ⟨walk.shielded, ∅, ∅, ⟨[], []⟩, planner.reports⟩
    let leaves := planner.deletes.leaves ++ found.deletes.leaves
    pure <| found.deletes.dirs.items.foldl
      (planDirectory found walk.recoveryParents (protectedBy root ignored))
      ⟨⟨leaves, planner.deletes.dirs⟩, planner.deleteWalkFailed, found.reports⟩

def planWalk (destination : Destination) (opts : PruneOpts) (seen : Table Bytes Claim)
    (root sub : Bytes) (nested : List Bytes) (sorted : Option (List Bytes))
    (planner : Planner) (scanned : DestinationWalk) : Except String Planner :=
  planWalked destination opts seen root sub scanned.ignored planner
    ((scanned.entries.foldl (PruneWalk.push seen root nested)
      (PruneWalk.new seen root sorted)).finishScan root)

/-- Plan the removals below one root. -/
def planRoot (destination : Destination) (opts : PruneOpts) (seen : Table Bytes Claim)
    (roots : List (Bytes × Bytes)) (sorted : Option (List Bytes)) (planner : Planner)
    (root : Bytes × Bytes) : Except String Planner := do
  if planner.deleteWalkFailed then pure planner
  else
    match ← destination.stat root.1 with
    | none => pure planner
    | some _ => do
        let scanned ← destination.walk root.1 (if opts.deleteExcluded then [] else opts.ignore)
        if scanned.warnings.isEmpty then
          planWalk destination opts seen root.1 root.2 (rootsInside roots root.1) sorted planner
            scanned
        else
          pure { planner with
            deleteWalkFailed := true
            reports := planner.reports ++ scanned.warnings.map fun warning =>
              s!"syq: delete: {warning}" }

def rootLe (first second : Bytes × Bytes) : Bool :=
  decide (first.1 < second.1) || (first.1 = second.1 && decide (first.2 ≤ second.2))

/-- The roots in order, each once. -/
def sortedRoots (roots : List (Bytes × Bytes)) : List (Bytes × Bytes) :=
  (roots.mergeSort rootLe).dedup

/-- An index of the claims, which pays for many roots. -/
def sortedClaims (destination : Destination) (seen : Table Bytes Claim)
    (roots : List (Bytes × Bytes)) : Option (List Bytes) :=
  if 32 ≤ roots.length then
    some ((destination.enumerate seen.keys).mergeSort fun first second => decide (first ≤ second))
  else none

def planDeletes (destination : Destination) (opts : PruneOpts) (seen : Table Bytes Claim)
    (deleteRoots : List (Bytes × Bytes)) : Except String Planner :=
  let roots := sortedRoots deleteRoots
  roots.foldlM (planRoot destination opts seen roots (sortedClaims destination seen roots))
    ⟨⟨[], []⟩, false, []⟩

/-! ## Running the plan -/

def parentOf (path : Bytes) : Bytes :=
  ((above path).getLast?).getD []

/-- Take up to 64 items of each group in turn; the steps allowed here suffice when there is
one for each item and each group. -/
def rotate : Nat → List (List Item) → List Item
  | 0, groups => groups.flatten
  | _, [] => []
  | fuel + 1, group :: rest =>
    if (group.drop 64).isEmpty then group.take 64 ++ rotate fuel rest
    else group.take 64 ++ rotate fuel (rest ++ [group.drop 64])

/-- Interleave the items of different directories. -/
def spread (items : List Item) : List Item :=
  let parents : Groups Bytes Item := items.foldl
    (fun groups item => Groups.push (parentOf item.path) item groups) []
  rotate (items.length + parents.length) (parents.map Prod.snd)

inductive Op where
  | unlink (path : Bytes)
  | rmdir (path : Bytes)
  deriving DecidableEq

/-- The removals in the order in which they are made. -/
def removals (deletes : Deletes) : List Op :=
  (spread deletes.leaves).map (fun item => .unlink item.path) ++
    deletes.dirs.reverse.flatMap fun group => (spread group.2).map fun item => .rmdir item.path

def Deletes.len (deletes : Deletes) : Nat :=
  deletes.leaves.length + (deletes.dirs.map fun group => group.2.length).sum

/-- What running a plan did: the removals that were asked for and how many were made. -/
structure Ran where
  issued : List Op
  removed : Nat
  maxDeleteHit : Bool
  error : Option String
  deriving DecidableEq

/-- Ask for removals in requests of up to 1000, until a request fails as a whole. -/
def issue (apply : List Op → Except String (List (Option String))) :
    Nat → List Op → Ran → Ran
  | 0, _, ran => ran
  | fuel + 1, ops, ran =>
    if ops.isEmpty then ran
    else
      let chunk := ops.take 1000
      match apply chunk with
      | .error error => { ran with issued := ran.issued ++ chunk, error := some error }
      | .ok errors =>
        issue apply fuel (ops.drop 1000)
          { ran with
            issued := ran.issued ++ chunk
            removed := ran.removed + (errors.take chunk.length).countP Option.isNone }

/-- One run of a list of items; a list starts a request of its own. -/
def runItems (apply : List Op → Except String (List (Option String))) (ops : List Op)
    (ran : Ran) : Ran :=
  if ran.error.isSome then ran else issue apply ops.length ops ran

def runDeletes (opts : PruneOpts) (apply : List Op → Except String (List (Option String)))
    (deletes : Deletes) : Ran :=
  if opts.maxDelete.any fun max => max < deletes.len then ⟨[], 0, true, none⟩
  else if opts.dryRun then ⟨[], deletes.len, false, none⟩
  else
    let leaves := runItems apply ((spread deletes.leaves).map fun item => .unlink item.path)
      ⟨[], 0, false, none⟩
    deletes.dirs.reverse.foldl (fun ran group =>
      runItems apply ((spread group.2).map fun item => .rmdir item.path) ran) leaves

end Syq.Pruning
