import Syq.Pruning.Plan

/-!
# What the plan contains

An entry belongs to the innermost root it lies in.  What must be kept is said without the sets
that the planner builds; the entries that are neither kept nor above anything kept are exactly
the ones that are planned.
-/

namespace Syq.Pruning

open Syq.Lib Syq.Planning Bool List Finmap

/-! ## What is kept -/

/-- The path lies in the root and in no other root inside it. -/
structure Own (roots : List (Bytes × Bytes)) (root path : Bytes) : Prop where
  inside : inside path root = true
  innermost : ∀ other ∈ roots, Lib.inside other.1 root = true → other.1 ≠ root →
    path ≠ other.1 ∧ Lib.inside path other.1 = false

/-- The root stands, and its walk reports this. -/
structure Walks (destination : Destination) (opts : PruneOpts) (root : Bytes)
    (scanned : DestinationWalk) : Prop where
  stands : ∃ identity, destination.stat root = .ok (some identity)
  walk : destination.walk root (if opts.deleteExcluded then [] else opts.ignore) = .ok scanned

/-- Claims as sources make them: every root is claimed as a directory, and so is every
directory between a root and a claimed path. -/
structure Closed (seen : Table Bytes Claim) (roots : List (Bytes × Bytes)) : Prop where
  top : ∀ root ∈ roots, seen.lookup root.1 = some .dir
  upper : ∀ path ∈ seen, ∀ root ∈ roots, ∀ higher ∈ above path,
    inside higher root.1 = true → seen.lookup higher = some .dir

/-- The paths that must stay. -/
inductive Kept (destination : Destination) (opts : PruneOpts) (seen : Table Bytes Claim)
    (roots : List (Bytes × Bytes)) : Bytes → Prop where
  | claimed {path : Bytes} (claimed : path ∈ seen) : Kept destination opts seen roots path
  | root {root : Bytes × Bytes} (isRoot : root ∈ roots) : Kept destination opts seen roots root.1
  | ignored {root : Bytes × Bytes} {scanned : DestinationWalk} {relative : Bytes}
      (isRoot : root ∈ roots) (walks : Walks destination opts root.1 scanned)
      (mem : relative ∈ scanned.ignored) (own : Own roots root.1 (join root.1 relative)) :
      Kept destination opts seen roots (join root.1 relative)
  | recovery {root : Bytes × Bytes} {scanned : DestinationWalk} {entry : Entry}
      (isRoot : root ∈ roots) (walks : Walks destination opts root.1 scanned)
      (mem : entry ∈ scanned.entries) (own : Own roots root.1 (join root.1 entry.path))
      (recovery : isRecovery entry.path = true) :
      Kept destination opts seen roots (join root.1 entry.path)
  | sidecar {root : Bytes × Bytes} {scanned : DestinationWalk} {entry : Entry}
      (isRoot : root ∈ roots) (walks : Walks destination opts root.1 scanned)
      (mem : entry ∈ scanned.entries) (own : Own roots root.1 (join root.1 entry.path))
      (sidecar : isSidecar entry = true) :
      Kept destination opts seen roots (join root.1 entry.path)
  | aliased {root : Bytes × Bytes} {scanned : DestinationWalk} {entry : Entry}
      (isRoot : root ∈ roots) (walks : Walks destination opts root.1 scanned)
      (mem : entry ∈ scanned.entries) (own : Own roots root.1 (join root.1 entry.path))
      (isAlias : IsAlias destination seen root.1 scanned entry) :
      Kept destination opts seen roots (join root.1 entry.path)
  -- A directory stands where a source has something else.
  | shielded {root : Bytes × Bytes} {scanned : DestinationWalk} {directory : Entry} {claim : Claim}
      {path : Bytes} (isRoot : root ∈ roots) (walks : Walks destination opts root.1 scanned)
      (mem : directory ∈ scanned.entries) (own : Own roots root.1 (join root.1 directory.path))
      (isDir : directory.kind = .dir)
      (claimed : seen.lookup (join root.1 directory.path) = some claim) (other : claim ≠ .dir)
      (below : join root.1 directory.path ∈ above path) : Kept destination opts seen roots path
  -- The same for a directory that a claim names by another spelling.
  | aliasShielded {root : Bytes × Bytes} {scanned : DestinationWalk} {directory : Entry}
      {aliases : Table Identity Claim} {claim : Claim} {path : Bytes} (isRoot : root ∈ roots)
      (walks : Walks destination opts root.1 scanned) (mem : directory ∈ scanned.entries)
      (own : Own roots root.1 (join root.1 directory.path)) (isDir : directory.kind = .dir)
      (unclaimed : join root.1 directory.path ∉ seen)
      (looked : lookupPruneAliases destination seen
        (walked destination seen roots root.1 scanned) = .ok aliases)
      (named : aliases.lookup directory.identity = some claim) (other : claim ≠ .dir)
      (below : join root.1 directory.path ∈ above path) : Kept destination opts seen roots path

/-- A true extra: an entry that the walk of its innermost root reports, that is not kept and
that holds nothing kept. -/
def Extra (destination : Destination) (opts : PruneOpts) (seen : Table Bytes Claim)
    (roots : List (Bytes × Bytes)) (kind : Kind) (path : Bytes) : Prop :=
  (∃ root ∈ roots, ∃ scanned, Walks destination opts root.1 scanned ∧
    ∃ entry ∈ scanned.entries, entry.path ≠ [] ∧ entry.kind = kind ∧
      path = join root.1 entry.path ∧ Own roots root.1 path) ∧
  ¬ Kept destination opts seen roots path ∧
  ∀ kept, Kept destination opts seen roots kept → path ∉ above kept

/-! ## Innermost roots -/

section Roots

variable {seen : Table Bytes Claim} {roots : List (Bytes × Bytes)}
variable {path : Bytes} {first second : Bytes × Bytes}

theorem inNested_eq_false_iff {root full : Bytes} :
    inNested (nestedRoots roots root) full = false ↔
      ∀ other ∈ roots, inside other.1 root = true → other.1 ≠ root →
        full ≠ other.1 ∧ inside full other.1 = false := by
  rw [inNested, ← not_eq_true, any_eq_true]
  simp only [nestedRoots, mem_rootsInside, mem_map, or_eq_true, decide_eq_true_eq]
  constructor
  · intro none other mem isInside diff
    constructor
    · intro same
      exact none ⟨other.1, ⟨⟨other, mem, rfl⟩, isInside, diff⟩, .inl same.symm⟩
    · rw [← not_eq_true]
      intro deeper
      exact none ⟨other.1, ⟨⟨other, mem, rfl⟩, isInside, diff⟩, .inr deeper⟩
  · rintro all ⟨path, ⟨⟨other, mem, rfl⟩, isInside, diff⟩, same | deeper⟩
    · exact (all other mem isInside diff).1 same.symm
    · rw [(all other mem isInside diff).2] at deeper
      cases deeper

theorem own_iff {root rel : Bytes} (cleaned : Cleaned root) (isRel : IsRelative rel) :
    Own roots root (join root rel) ↔
      inNested (nestedRoots roots root) (join root rel) = false := by
  rw [inNested_eq_false_iff]
  exact ⟨Own.innermost, fun innermost => ⟨inside_join cleaned isRel, innermost⟩⟩

theorem Own.path_ne_nil {root : Bytes} (own : Own roots root path) : path ≠ [] := by
  rintro rfl
  have starts := inside_iff.mp own.inside
  exact lead_ne_nil root (prefix_nil.mp starts)

variable (cleaned : ∀ root ∈ roots, Cleaned root.1) (closed : Closed seen roots)

theorem Own.not_inside {root : Bytes} (own : Own roots root path) (firstRoot : first ∈ roots)
    (deeper : Lib.inside first.1 root = true) (diff : first.1 ≠ root) :
    ¬ Lib.inside path first.1 = true :=
  not_eq_true _ ▸ (own.innermost first firstRoot deeper diff).2

include cleaned

/-- What holds a path of another root inside its own root holds that root. -/
theorem Own.above_root {root below : Bytes} (own : Own roots root path) (firstRoot : first ∈ roots)
    (deeper : Lib.inside first.1 root = true) (diff : first.1 ≠ root)
    (isInside : Lib.inside below first.1 = true) (higher : path ∈ above below) :
    path ∈ above first.1 := by
  rcases above_of_inside (cleaned first firstRoot) own.path_ne_nil isInside higher with
    pathInside | same | aboveRoot
  · exact absurd pathInside (own.not_inside firstRoot deeper diff)
  · exact absurd same (own.innermost first firstRoot deeper diff).1
  · exact aboveRoot

/-- A path has one innermost root. -/
theorem Own.unique (firstRoot : first ∈ roots) (secondRoot : second ∈ roots)
    (firstOwn : Own roots first.1 path) (secondOwn : Own roots second.1 path) :
    first.1 = second.1 := by
  by_contra diff
  rcases comparable_of_inside (cleaned first firstRoot) (cleaned second secondRoot)
    firstOwn.inside secondOwn.inside with same | deeper | deeper
  · exact diff same
  · exact secondOwn.not_inside firstRoot deeper diff firstOwn.inside
  · exact firstOwn.not_inside secondRoot deeper (Ne.symm diff) secondOwn.inside

omit cleaned

include closed in
/-- An unclaimed path inside a root is not above any claim. -/
theorem Closed.not_above {root : Bytes × Bytes} {claimed : Bytes} (isRoot : root ∈ roots)
    (isInside : inside path root.1 = true) (unclaimed : path ∉ seen) (mem : claimed ∈ seen) :
    path ∉ above claimed := by
  intro higher
  exact unclaimed (mem_of_lookup_eq_some
    (closed.upper claimed mem root isRoot path higher isInside))

include closed in
theorem Closed.root_mem {root : Bytes × Bytes} (isRoot : root ∈ roots) : root.1 ∈ seen :=
  mem_of_lookup_eq_some (closed.top root isRoot)

include cleaned closed in
/-- An unclaimed path above a path has the same innermost root. -/
theorem Own.root_of_above {below : Bytes} (firstRoot : first ∈ roots) (secondRoot : second ∈ roots)
    (own : Own roots first.1 path) (belowOwn : Own roots second.1 below) (unclaimed : path ∉ seen)
    (higher : path ∈ above below) : first.1 = second.1 := by
  by_contra diff
  have belowInside := inside_of_above own.inside higher
  rcases comparable_of_inside (cleaned first firstRoot) (cleaned second secondRoot)
    belowInside belowOwn.inside with same | deeper | deeper
  · exact diff same
  · exact belowOwn.not_inside firstRoot deeper diff belowInside
  · have aboveRoot := own.above_root cleaned secondRoot deeper (Ne.symm diff) belowOwn.inside higher
    exact closed.not_above firstRoot own.inside unclaimed (closed.root_mem secondRoot) aboveRoot

include cleaned closed in
/-- What is below a path that is not claimed as a directory has the same innermost root. -/
theorem Own.root_of_below {upper : Bytes} (firstRoot : first ∈ roots) (secondRoot : second ∈ roots)
    (own : Own roots first.1 path) (upperOwn : Own roots second.1 upper)
    (noDir : seen.lookup upper ≠ some .dir) (higher : upper ∈ above path) : first.1 = second.1 := by
  by_contra diff
  have pathInside := inside_of_above upperOwn.inside higher
  rcases comparable_of_inside (cleaned first firstRoot) (cleaned second secondRoot)
    own.inside pathInside with same | deeper | deeper
  · exact diff same
  · have aboveRoot := upperOwn.above_root cleaned firstRoot deeper diff own.inside higher
    exact noDir (closed.upper first.1 (closed.root_mem firstRoot) second secondRoot upper aboveRoot
      upperOwn.inside)
  · exact own.not_inside secondRoot deeper (Ne.symm diff) pathInside

end Roots

/-! ## Inside one walk -/

section Removed

variable {dest : Destination} {opts : PruneOpts} {seen : Table Bytes Claim}
  {roots : List (Bytes × Bytes)} {root : Bytes × Bytes} {scanned : DestinationWalk}
  {aliases : Table Identity Claim} {entry other : Entry}
variable {path : Bytes} {second : Bytes × Bytes} {otherScanned : DestinationWalk} {dir : Entry}

/-- The walk plans to remove the entry. -/
structure Removed (seen : Table Bytes Claim) (roots : List (Bytes × Bytes)) (root : Bytes)
    (scanned : DestinationWalk) (aliases : Table Identity Claim) (entry : Entry) : Prop where
  mem : entry ∈ remaining seen roots root scanned
  plannable : plannable aliases (remaining seen roots root scanned) entry = true
  free : entry.kind = .dir → ¬ Held seen roots root scanned aliases (join root entry.path)

theorem not_isRecovery_of_above {upper : Bytes} (noRecovery : isRecovery path = false)
    (higher : upper ∈ above path) : isRecovery upper = false := by
  rcases mem_above_iff.mp higher with ⟨rest, rfl⟩
  unfold isRecovery names splitOn at *
  rw [splitOnP_append_cons _ _ (by simp), any_append, or_eq_false_iff] at noRecovery
  exact noRecovery.1

variable (mem : entry ∈ scanned.entries)

include mem

theorem eq_of_path_eq (otherMem : other ∈ scanned.entries)
    (same : entry.path = other.path) : entry = other :=
  List.inj_on_of_nodup_map scanned.nodup mem otherMem same

/-- Only directories are above anything the walk reports. -/
theorem kind_of_above (otherMem : other ∈ scanned.entries)
    (higher : entry.path ∈ above other.path) : entry.kind = .dir := by
  rcases append_of_mem otherMem with ⟨before, after, split⟩
  rcases scanned.parentsFirst before other after split entry.path higher with
    ⟨dir, dirMem, same, isDir⟩
  have found : dir ∈ scanned.entries := by
    rw [split]
    exact mem_append_left _ dirMem
  rwa [eq_of_path_eq mem found same.symm]

omit mem

theorem mem_remaining_iff (cleaned : Cleaned root.1) :
    entry ∈ remaining seen roots root.1 scanned ↔
      entry ∈ scanned.entries ∧ entry.path ≠ [] ∧ isRecovery entry.path = false ∧
        Own roots root.1 (join root.1 entry.path) ∧ join root.1 entry.path ∉ seen ∧
        belowShield seen roots root.1 scanned entry = false := by
  rw [remaining, mem_filter]
  simp only [passes, plain, and_eq_true, not_eq_true', isEmpty_eq_false_iff,
    Option.isNone_iff_eq_none, lookup_eq_none]
  constructor
  · rintro ⟨mem, ⟨⟨⟨ne, noRecovery⟩, isOwn⟩, unclaimed⟩, free⟩
    have isRel := (scanned.relative entry mem).resolve_left ne
    exact ⟨mem, ne, noRecovery, (own_iff cleaned isRel).mpr isOwn, unclaimed, free⟩
  · rintro ⟨mem, ne, noRecovery, own, unclaimed, free⟩
    have isRel := (scanned.relative entry mem).resolve_left ne
    exact ⟨mem, ⟨⟨⟨ne, noRecovery⟩, (own_iff cleaned isRel).mp own⟩, unclaimed⟩, free⟩

theorem belowShield_iff (cleaned : Cleaned root.1) (mem : entry ∈ scanned.entries)
    (ne : entry.path ≠ []) (noRecovery : isRecovery entry.path = false) :
    belowShield seen roots root.1 scanned entry = true ↔ ∃ dir ∈ scanned.entries,
      Own roots root.1 (join root.1 dir.path) ∧ dir.kind = .dir ∧
      (∃ claim, seen.lookup (join root.1 dir.path) = some claim ∧ claim ≠ .dir) ∧
      dir.path ∈ above entry.path := by
  have isRel := (scanned.relative entry mem).resolve_left ne
  rw [belowShield, any_eq_true]
  simp only [shields, plain, and_eq_true, not_eq_true', isEmpty_eq_false_iff,
    decide_eq_true_eq, Option.any_eq_true, bne_iff_ne]
  constructor
  · rintro ⟨dir, dirMem, ⟨⟨⟨⟨-, -⟩, isOwn⟩, isDir⟩, claim, claimed, diff⟩, higher⟩
    have dirRel := isRel.above higher
    exact ⟨dir, dirMem, (own_iff cleaned dirRel).mpr isOwn, isDir, ⟨claim, claimed, diff⟩, higher⟩
  · rintro ⟨dir, dirMem, own, isDir, ⟨claim, claimed, diff⟩, higher⟩
    have dirRel := isRel.above higher
    exact ⟨dir, dirMem, ⟨⟨⟨⟨dirRel.isPath.nonempty, not_isRecovery_of_above noRecovery higher⟩,
      (own_iff cleaned dirRel).mp own⟩, isDir⟩, claim, claimed, diff⟩, higher⟩

/-- A walk of a root, the aliases found for it and an entry that it plans to remove. -/
structure Pass (destination : Destination) (opts : PruneOpts) (seen : Table Bytes Claim)
    (roots : List (Bytes × Bytes)) (root : Bytes × Bytes) (scanned : DestinationWalk)
    (aliases : Table Identity Claim) (entry : Entry) : Prop where
  cleaned : ∀ root ∈ roots, Cleaned root.1
  closed : Closed seen roots
  isRoot : root ∈ roots
  walks : Walks destination opts root.1 scanned
  looked : lookupPruneAliases destination seen (walked destination seen roots root.1 scanned) =
    .ok aliases
  removed : Removed seen roots root.1 scanned aliases entry

/-- A walk of a root and an entry of it that lies in no other root. -/
structure Reports (destination : Destination) (opts : PruneOpts) (roots : List (Bytes × Bytes))
    (root : Bytes × Bytes) (scanned : DestinationWalk) (entry : Entry) : Prop where
  isRoot : root ∈ roots
  walks : Walks destination opts root.1 scanned
  mem : entry ∈ scanned.entries
  own : Own roots root.1 (join root.1 entry.path)

theorem Walks.unique {other : DestinationWalk} (walks : Walks dest opts root.1 scanned)
    (otherWalks : Walks dest opts root.1 other) : other = scanned := by
  have same := otherWalks.walk
  rw [walks.walk] at same
  exact (Except.ok.inj same).symm

/-- What reaches something below a directory reaches the directory or is below it. -/
theorem reaches_of_below {directory kept : Bytes} (below : directory ∈ above kept)
    (reaches : path = kept ∨ path ∈ above kept) :
    (path = directory ∨ path ∈ above directory) ∨ directory ∈ above path := by
  rcases reaches with same | higher
  · exact .inr (same ▸ below)
  · rcases comparable_of_above higher below with same | entryHigher | dirHigher
    · exact .inl (.inl same)
    · exact .inl (.inr entryHigher)
    · exact .inr dirHigher

namespace Pass

variable (pass : Pass dest opts seen roots root scanned aliases entry)

include pass

theorem rootCleaned : Cleaned root.1 :=
  pass.cleaned root pass.isRoot

theorem entryRel : IsRelative entry.path :=
  isRelative_of_remaining pass.removed.mem

theorem remains : entry ∈ scanned.entries ∧ entry.path ≠ [] ∧ isRecovery entry.path = false ∧
    Own roots root.1 (join root.1 entry.path) ∧ join root.1 entry.path ∉ seen ∧
    belowShield seen roots root.1 scanned entry = false :=
  (mem_remaining_iff pass.rootCleaned).mp pass.removed.mem

theorem plannable_parts :
    belowAlias aliases (remaining seen roots root.1 scanned) entry = false ∧
      entry.identity ∉ aliases ∧ isSidecar entry = false := by
  have parts := pass.removed.plannable
  simp only [plannable, and_eq_true, not_eq_true', Option.isNone_iff_eq_none,
    lookup_eq_none] at parts
  exact ⟨parts.1.1, parts.1.2, parts.2⟩

variable (otherMem : other ∈ scanned.entries)

include otherMem

/-- No recovery name is at or below a removed entry. -/
theorem not_recovery (ne : other.path ≠ [])
    (reaches : entry.path = other.path ∨ entry.path ∈ above other.path) :
    isRecovery other.path = false := by
  rcases pass.remains with ⟨mem, -, noRecovery, -, -, -⟩
  rw [← not_eq_true]
  intro recovery
  rcases reaches with same | higher
  · rw [← same, noRecovery] at recovery
    cases recovery
  · have otherRel := (scanned.relative other otherMem).resolve_left ne
    exact pass.removed.free (kind_of_above mem otherMem higher) (.recovery otherMem ne recovery
      ((mem_above_join_iff pass.rootCleaned otherRel pass.entryRel).mpr higher))

/-- The walk's own entries at or below a removed entry are gone through, too. -/
theorem mem_remaining (ne : other.path ≠ []) (own : Own roots root.1 (join root.1 other.path))
    (reaches : entry.path = other.path ∨ entry.path ∈ above other.path) :
    other ∈ remaining seen roots root.1 scanned := by
  have noRecovery := pass.not_recovery otherMem ne reaches
  rcases pass.remains with ⟨mem, entryNe, entryPlain, entryOwn, unclaimed, free⟩
  have otherRel := (scanned.relative other otherMem).resolve_left ne
  rcases reaches with same | higher
  · rw [← eq_of_path_eq mem otherMem same]
    exact pass.removed.mem
  have joined := (mem_above_join_iff pass.rootCleaned otherRel pass.entryRel).mpr higher
  refine (mem_remaining_iff pass.rootCleaned).mpr ⟨otherMem, ne, noRecovery, own, ?_, ?_⟩
  · intro claimed
    exact pass.closed.not_above pass.isRoot entryOwn.inside unclaimed claimed joined
  · rw [← not_eq_true]
    intro below
    rcases (belowShield_iff pass.rootCleaned otherMem ne noRecovery).mp below with
      ⟨dir, dirMem, dirOwn, isDir, ⟨claim, claimed, diff⟩, dirHigher⟩
    have dirSeen := mem_of_lookup_eq_some claimed
    rcases comparable_of_above higher dirHigher with same | entryHigher | dirAbove
    · rw [← same] at dirSeen
      exact unclaimed dirSeen
    · exact pass.closed.not_above pass.isRoot entryOwn.inside unclaimed dirSeen
        ((mem_above_join_iff pass.rootCleaned (otherRel.above dirHigher) pass.entryRel).mpr
          entryHigher)
    · have shielded := (belowShield_iff pass.rootCleaned mem entryNe entryPlain).mpr
        ⟨dir, dirMem, dirOwn, isDir, ⟨claim, claimed, diff⟩, dirAbove⟩
      rw [free] at shielded
      cases shielded

/-- The walk's own entries at or below a removed entry are no aliases and no staged files. -/
theorem clear (ne : other.path ≠ []) (own : Own roots root.1 (join root.1 other.path))
    (reaches : entry.path = other.path ∨ entry.path ∈ above other.path) :
    other.identity ∉ aliases ∧ isSidecar other = false := by
  have mem := pass.remains.1
  rcases pass.plannable_parts with ⟨outer, noAlias, noSidecar⟩
  have remains := pass.mem_remaining otherMem ne own reaches
  rcases reaches with same | higher
  · rw [← eq_of_path_eq mem otherMem same]
    exact ⟨noAlias, noSidecar⟩
  have holdsBelow : ∀ {below : Entry}, below ∈ remaining seen roots root.1 scanned →
      entry.path ∈ above below.path →
        join root.1 entry.path ∈ above (join root.1 below.path) := by
    intro below belowMem belowHigher
    exact (mem_above_join_iff pass.rootCleaned (isRelative_of_remaining belowMem)
      pass.entryRel).mpr belowHigher
  have free := pass.removed.free (kind_of_above mem otherMem higher)
  have otherOuter : belowAlias aliases (remaining seen roots root.1 scanned) other = false := by
    rw [← not_eq_true]
    intro below
    rcases exists_outermost other below with ⟨dir, dirMem, shield, dirOuter, dirHigher⟩
    have named : dir.identity ∈ aliases := by
      simp only [aliasShields, and_eq_true, Option.any_eq_true] at shield
      rcases shield.2 with ⟨claim, found, -⟩
      exact mem_of_lookup_eq_some found
    rcases comparable_of_above higher dirHigher with same | entryHigher | dirAbove
    · rw [eq_of_path_eq mem ((mem_remaining_iff pass.rootCleaned).mp dirMem).1 same] at noAlias
      exact noAlias named
    · exact free (.aliased dirMem dirOuter named (holdsBelow dirMem entryHigher))
    · rw [belowAlias_iff.mpr ⟨dir, dirMem, shield, dirAbove⟩] at outer
      cases outer
  have otherNamed : other.identity ∉ aliases := by
    intro named
    exact free (.aliased remains otherOuter named (holdsBelow remains higher))
  refine ⟨otherNamed, ?_⟩
  rw [← not_eq_true]
  intro sidecar
  exact free (.sidecar remains otherOuter otherNamed sidecar (holdsBelow remains higher))

omit otherMem

/-! ## Across the walks -/

/-- Something kept that a removed entry reaches belongs to the same walk. -/
theorem same_walk {rel : Bytes} (secondRoot : second ∈ roots)
    (secondWalks : Walks dest opts second.1 otherScanned) (isRel : IsRelative rel)
    (own : Own roots second.1 (join second.1 rel))
    (reaches : join root.1 entry.path = join second.1 rel ∨
      join root.1 entry.path ∈ above (join second.1 rel)) :
    second.1 = root.1 ∧ otherScanned = scanned ∧
      (entry.path = rel ∨ entry.path ∈ above rel) := by
  rcases pass.remains with ⟨-, -, -, entryOwn, unclaimed, -⟩
  have sameRoot : second.1 = root.1 := by
    rcases reaches with same | higher
    · rw [← same] at own
      exact Own.unique pass.cleaned secondRoot pass.isRoot own entryOwn
    · exact (entryOwn.root_of_above pass.cleaned pass.closed pass.isRoot secondRoot own unclaimed
        higher).symm
  rw [sameRoot] at secondWalks reaches
  refine ⟨sameRoot, pass.walks.unique secondWalks, reaches.imp ?_ ?_⟩
  · exact (join_inj pass.rootCleaned pass.entryRel isRel).mp
  · exact (mem_above_join_iff pass.rootCleaned isRel pass.entryRel).mp

/-- A removed entry is not claimed and holds nothing that is claimed. -/
theorem not_claimed (claimed : path ∈ seen) :
    ¬ (join root.1 entry.path = path ∨ join root.1 entry.path ∈ above path) := by
  rcases pass.remains with ⟨-, -, -, own, unclaimed, -⟩
  rintro (same | higher)
  · rw [← same] at claimed
    exact unclaimed claimed
  · exact pass.closed.not_above pass.isRoot own.inside unclaimed claimed higher

variable (reports : Reports dest opts roots second otherScanned other)

include reports

/-- An entry of any walk that a removed entry reaches is the same walk's own. -/
theorem reached (reaches : join root.1 entry.path = join second.1 other.path ∨
      join root.1 entry.path ∈ above (join second.1 other.path)) :
    second.1 = root.1 ∧ otherScanned = scanned ∧ other.path ≠ [] ∧
      Own roots root.1 (join root.1 other.path) ∧
      (entry.path = other.path ∨ entry.path ∈ above other.path) := by
  have ne : other.path ≠ [] := by
    intro empty
    rw [empty] at reaches
    exact pass.not_claimed (pass.closed.root_mem reports.isRoot) reaches
  rcases pass.same_walk reports.isRoot reports.walks
    ((otherScanned.relative other reports.mem).resolve_left ne) reports.own reaches with
    ⟨sameRoot, sameWalk, near⟩
  exact ⟨sameRoot, sameWalk, ne, sameRoot ▸ reports.own, near⟩

/-- A removed entry is not below a directory that is not claimed as one, unless the walk knows
the directory as such. -/
theorem same_walk_below (noDir : seen.lookup (join second.1 other.path) ≠ some .dir)
    (higher : join second.1 other.path ∈ above (join root.1 entry.path)) :
    second.1 = root.1 ∧ otherScanned = scanned ∧ other.path ∈ above entry.path := by
  rcases pass.remains with ⟨-, -, -, entryOwn, -, -⟩
  have sameRoot := (entryOwn.root_of_below pass.cleaned pass.closed pass.isRoot reports.isRoot
    reports.own noDir higher).symm
  have ne : other.path ≠ [] := by
    intro empty
    rw [empty] at noDir
    exact noDir (pass.closed.top second reports.isRoot)
  have otherRel := (otherScanned.relative other reports.mem).resolve_left ne
  have secondWalks := reports.walks
  rw [sameRoot] at secondWalks higher
  exact ⟨sameRoot, pass.walks.unique secondWalks,
    (mem_above_join_iff pass.rootCleaned pass.entryRel otherRel).mp higher⟩

omit reports

/-- The walk's own unclaimed entries above a removed entry are gone through, too. -/
theorem mem_remaining_of_above (otherMem : other ∈ scanned.entries)
    (own : Own roots root.1 (join root.1 other.path)) (unclaimed : join root.1 other.path ∉ seen)
    (higher : other.path ∈ above entry.path) :
    other ∈ remaining seen roots root.1 scanned := by
  have ne := (pass.entryRel.above higher).isPath.nonempty
  rcases pass.remains with ⟨entryMem, entryNe, noRecovery, -, -, free⟩
  have otherPlain := not_isRecovery_of_above noRecovery higher
  have otherFree : belowShield seen roots root.1 scanned other = false := by
    rw [← not_eq_true] at free ⊢
    intro shielded
    rcases (belowShield_iff pass.rootCleaned otherMem ne otherPlain).mp shielded
      with ⟨shield, shieldMem, shieldOwn, shieldDir, claimed, shieldHigher⟩
    exact free ((belowShield_iff pass.rootCleaned entryMem entryNe noRecovery).mpr ⟨shield,
      shieldMem, shieldOwn, shieldDir, claimed, above_trans shieldHigher higher⟩)
  exact (mem_remaining_iff pass.rootCleaned).mpr
    ⟨otherMem, ne, otherPlain, own, unclaimed, otherFree⟩

include reports

/-- A removed entry is not below a directory that is claimed as something else. -/
theorem not_below_shield {claim : Claim} (isDir : other.kind = .dir)
    (claimed : seen.lookup (join second.1 other.path) = some claim) (diff : claim ≠ .dir) :
    join second.1 other.path ∉ above (join root.1 entry.path) := by
  intro higher
  have noDir : seen.lookup (join second.1 other.path) ≠ some .dir := by
    rw [claimed]
    simpa using diff
  rcases pass.same_walk_below reports noDir higher with ⟨sameRoot, rfl, near⟩
  have own := reports.own
  rw [sameRoot] at own claimed
  rcases pass.remains with ⟨mem, ne, noRecovery, -, -, free⟩
  have shielded := (belowShield_iff pass.rootCleaned mem ne noRecovery).mpr
    ⟨other, reports.mem, own, isDir, ⟨claim, claimed, diff⟩, near⟩
  rw [free] at shielded
  cases shielded

variable {otherAliases : Table Identity Claim} (otherLooked : lookupPruneAliases dest seen
  (walked dest seen roots second.1 otherScanned) = .ok otherAliases)

include otherLooked

/-- A removed entry is not below a directory that is an alias of something else. -/
theorem not_below_alias {claim : Claim} (isDir : other.kind = .dir)
    (unclaimed : join second.1 other.path ∉ seen)
    (named : otherAliases.lookup other.identity = some claim) (diff : claim ≠ .dir) :
    join second.1 other.path ∉ above (join root.1 entry.path) := by
  intro higher
  have noDir : seen.lookup (join second.1 other.path) ≠ some .dir := by
    rw [lookup_eq_none.mpr unclaimed]
    simp
  rcases pass.same_walk_below reports noDir higher with ⟨sameRoot, rfl, near⟩
  have own := reports.own
  rw [sameRoot] at own otherLooked unclaimed
  rw [pass.looked] at otherLooked
  cases otherLooked
  have remains := pass.mem_remaining_of_above reports.mem own unclaimed near
  have shields : aliasShields aliases other = true := by
    simp [aliasShields, isDir, named, diff]
  have outer := pass.plannable_parts.1
  rw [belowAlias_iff.mpr ⟨other, remains, shields, near⟩] at outer
  cases outer

/-- A removed entry is no alias and holds none. -/
theorem not_named (named : other.identity ∈ otherAliases) :
    ¬ (join root.1 entry.path = join second.1 other.path ∨
      join root.1 entry.path ∈ above (join second.1 other.path)) := by
  intro reaches
  rcases pass.reached reports reaches with ⟨sameRoot, rfl, ne, own, near⟩
  rw [sameRoot, pass.looked] at otherLooked
  cases otherLooked
  exact (pass.clear reports.mem ne own near).1 named

omit reports otherLooked

/-- A removed entry is not kept and holds nothing that is kept. -/
theorem not_kept {kept : Bytes} (isKept : Kept dest opts seen roots kept) :
    ¬ (join root.1 entry.path = kept ∨ join root.1 entry.path ∈ above kept) := by
  have mem := pass.remains.1
  intro reaches
  cases isKept with
  | claimed claimed => exact pass.not_claimed claimed reaches
  | root otherRoot => exact pass.not_claimed (pass.closed.root_mem otherRoot) reaches
  | ignored otherRoot otherWalks otherMem otherOwn =>
    rcases pass.same_walk otherRoot otherWalks (DestinationWalk.ignoredRelative _ _ otherMem)
      otherOwn reaches with ⟨-, rfl, near⟩
    rcases near with same | higher
    · exact DestinationWalk.ignoredApart _ _ otherMem entry mem same
    · rcases DestinationWalk.ignoredParents _ _ otherMem entry.path higher with
        ⟨dir, dirMem, same, isDir⟩
      exact pass.removed.free (by rwa [eq_of_path_eq mem dirMem same.symm])
        (.ignored otherMem higher)
  | recovery otherRoot otherWalks otherMem otherOwn recovery =>
    rcases pass.reached ⟨otherRoot, otherWalks, otherMem, otherOwn⟩ reaches with
      ⟨-, rfl, ne, -, near⟩
    rw [pass.not_recovery otherMem ne near] at recovery
    cases recovery
  | sidecar otherRoot otherWalks otherMem otherOwn sidecar =>
    rcases pass.reached ⟨otherRoot, otherWalks, otherMem, otherOwn⟩ reaches with
      ⟨-, rfl, ne, own, near⟩
    rw [(pass.clear otherMem ne own near).2] at sidecar
    cases sidecar
  | aliased otherRoot otherWalks otherMem otherOwn isAlias =>
    rcases pass.reached ⟨otherRoot, otherWalks, otherMem, otherOwn⟩ reaches with
      ⟨sameRoot, rfl, ne, own, near⟩
    rw [sameRoot] at isAlias
    have remains := pass.mem_remaining otherMem ne own near
    exact (pass.clear otherMem ne own near).1
      ((mem_aliases pass.rootCleaned pass.looked remains).mpr isAlias)
  | shielded otherRoot otherWalks otherMem otherOwn isDir claimed diff below =>
    rcases reaches_of_below below reaches with reached | higher
    · exact pass.not_claimed (mem_of_lookup_eq_some claimed) reached
    · exact pass.not_below_shield ⟨otherRoot, otherWalks, otherMem, otherOwn⟩ isDir claimed diff
        higher
  | aliasShielded otherRoot otherWalks otherMem otherOwn isDir unclaimed otherLooked named diff
      below =>
      have reports : Reports _ _ _ _ _ _ := ⟨otherRoot, otherWalks, otherMem, otherOwn⟩
      rcases reaches_of_below below reaches with reached | higher
      · exact pass.not_named reports otherLooked (mem_of_lookup_eq_some named) reached
      · exact pass.not_below_alias reports otherLooked isDir unclaimed named diff higher

end Pass

/-! ## Nothing else is spared -/

/-- What a path holds has the same innermost root, or the path holds another root. -/
theorem Own.above_own_or_root {below : Bytes} (cleaned : ∀ root ∈ roots, Cleaned root.1)
    (own : Own roots root.1 path) (higher : path ∈ above below) :
    Own roots root.1 below ∨ ∃ inner ∈ roots, path ∈ above inner.1 := by
  have belowInside := inside_of_above own.inside higher
  by_cases innermost : ∀ other ∈ roots, Lib.inside other.1 root.1 = true → other.1 ≠ root.1 →
      below ≠ other.1 ∧ Lib.inside below other.1 = false
  · exact .inl ⟨belowInside, innermost⟩
  right
  push Not at innermost
  rcases innermost with ⟨inner, innerRoot, deeper, diff, reaches⟩
  refine ⟨inner, innerRoot, ?_⟩
  by_cases same : below = inner.1
  · rwa [same] at higher
  exact own.above_root cleaned innerRoot deeper diff (by simpa using reaches same) higher

/-- An entry that is not kept and holds nothing kept is removed. -/
theorem removed_of_not_kept (cleaned : ∀ root ∈ roots, Cleaned root.1) (isRoot : root ∈ roots)
    (walks : Walks dest opts root.1 scanned)
    (looked : lookupPruneAliases dest seen (walked dest seen roots root.1 scanned) =
      .ok aliases) (mem : entry ∈ scanned.entries) (ne : entry.path ≠ [])
    (own : Own roots root.1 (join root.1 entry.path))
    (notKept : ¬ Kept dest opts seen roots (join root.1 entry.path))
    (holdsNone : ∀ kept, Kept dest opts seen roots kept → join root.1 entry.path ∉ above kept) :
    Removed seen roots root.1 scanned aliases entry := by
  have rootCleaned := cleaned root isRoot
  have entryRel := (scanned.relative entry mem).resolve_left ne
  have joined : ∀ {upper}, upper ∈ above entry.path →
      join root.1 upper ∈ above (join root.1 entry.path) := by
    intro upper higher
    exact (mem_above_join_iff rootCleaned entryRel (entryRel.above higher)).mpr higher
  have noRecovery : isRecovery entry.path = false := by
    rw [← not_eq_true]
    exact fun recovery => notKept (.recovery isRoot walks mem own recovery)
  have remains : entry ∈ remaining seen roots root.1 scanned := by
    refine (mem_remaining_iff rootCleaned).mpr ⟨mem, ne, noRecovery, own, ?_, ?_⟩
    · exact fun claimed => notKept (.claimed claimed)
    · rw [← not_eq_true]
      intro below
      rcases (belowShield_iff rootCleaned mem ne noRecovery).mp below with
        ⟨dir, dirMem, dirOwn, isDir, ⟨claim, claimed, diff⟩, higher⟩
      exact notKept (.shielded isRoot walks dirMem dirOwn isDir claimed diff (joined higher))
  refine ⟨remains, ?_, ?_⟩
  · simp only [plannable, and_eq_true, not_eq_true', Option.isNone_iff_eq_none,
      lookup_eq_none]
    refine ⟨⟨?_, ?_⟩, ?_⟩
    · rw [← not_eq_true]
      intro below
      rcases belowAlias_iff.mp below with ⟨dir, dirMem, shield, higher⟩
      simp only [aliasShields, and_eq_true, decide_eq_true_eq, Option.any_eq_true] at shield
      rcases shield with ⟨isDir, claim, named, diff⟩
      rcases (mem_remaining_iff rootCleaned).mp dirMem with
        ⟨dirScanned, -, -, dirOwn, unclaimed, -⟩
      exact notKept (.aliasShielded isRoot walks dirScanned dirOwn isDir unclaimed
        looked named diff (joined higher))
    · intro named
      exact notKept
        (.aliased isRoot walks mem own ((mem_aliases rootCleaned looked remains).mp named))
    · rw [← not_eq_true]
      exact fun sidecar => notKept (.sidecar isRoot walks mem own sidecar)
  · intro isDir held
    generalize same : join root.1 entry.path = path at held own holdsNone
    cases held with
    | sidecar otherMem outer noAlias sidecar higher =>
      rcases (mem_remaining_iff rootCleaned).mp otherMem with ⟨otherScanned, -, -, otherOwn, -, -⟩
      exact holdsNone _ (.sidecar isRoot walks otherScanned otherOwn sidecar) higher
    | recovery otherMem otherNe recovery higher =>
      rcases own.above_own_or_root cleaned higher with otherOwn | ⟨inner, innerRoot, aboveInner⟩
      · exact holdsNone _ (.recovery isRoot walks otherMem otherOwn recovery) higher
      · exact holdsNone _ (.root innerRoot) aboveInner
    | aliased otherMem outer named higher =>
      rcases (mem_remaining_iff rootCleaned).mp otherMem with ⟨otherScanned, -, -, otherOwn, -, -⟩
      exact holdsNone _ (.aliased isRoot walks otherScanned otherOwn
        ((mem_aliases rootCleaned looked otherMem).mp named)) higher
    | @ignored rel upper ignored higher =>
      have relIsRel := scanned.ignoredRelative rel ignored
      have aboveIgnored := (mem_above_join_iff rootCleaned relIsRel
        (relIsRel.above higher)).mpr higher
      rcases own.above_own_or_root cleaned aboveIgnored with
        otherOwn | ⟨inner, innerRoot, aboveInner⟩
      · exact holdsNone _ (.ignored isRoot walks ignored otherOwn) aboveIgnored
      · exact holdsNone _ (.root innerRoot) aboveInner

end Removed

/-! ## The whole plan -/

section Whole

variable {dest : Destination} {opts : PruneOpts} {seen : Table Bytes Claim}
  {roots : List (Bytes × Bytes)}
variable {done : List (Bytes × Bytes)} {planner next : Planner}

/-- The walk of this root plans to remove the path. -/
def RemovedBy (destination : Destination) (opts : PruneOpts) (seen : Table Bytes Claim)
    (roots : List (Bytes × Bytes)) (root : Bytes × Bytes) (kind : Kind) (path : Bytes) : Prop :=
  ∃ scanned aliases entry, Walks destination opts root.1 scanned ∧
    lookupPruneAliases destination seen (walked destination seen roots root.1 scanned) =
      .ok aliases ∧
    Removed seen roots root.1 scanned aliases entry ∧ entry.kind = kind ∧
    path = join root.1 entry.path

/-- What is known once some roots are planned. -/
structure Plans (destination : Destination) (opts : PruneOpts) (seen : Table Bytes Claim)
    (roots done : List (Bytes × Bytes)) (planner : Planner) : Prop where
  ordered : Ordered planner.deletes.dirs
  leavesNodup : (planner.deletes.leaves.map Item.path).Nodup
  dirsNodup : (planner.deletes.dirs.items.map Item.path).Nodup
  mem_leaves : ∀ path, path ∈ planner.deletes.leaves.map Item.path ↔
    ∃ root ∈ done, ∃ kind, kind ≠ .dir ∧ RemovedBy destination opts seen roots root kind path
  mem_dirs : ∀ path, path ∈ planner.deletes.dirs.items.map Item.path ↔
    ∃ root ∈ done, RemovedBy destination opts seen roots root .dir path
  looked : ∀ root ∈ done, ∀ scanned, Walks destination opts root.1 scanned →
    ∃ aliases, lookupPruneAliases destination seen
      (walked destination seen roots root.1 scanned) = .ok aliases

theorem RemovedBy.own {root : Bytes × Bytes} (cleaned : Cleaned root.1) {kind : Kind} {path : Bytes}
    (removed : RemovedBy dest opts seen roots root kind path) : Own roots root.1 path := by
  rcases removed with ⟨scanned, aliases, entry, -, -, removed, -, rfl⟩
  exact ((mem_remaining_iff cleaned).mp removed.mem).2.2.2.1

/-- A root that does not stand adds nothing. -/
theorem Plans.skip {root : Bytes × Bytes} (plans : Plans dest opts seen roots done planner)
    (absent : dest.stat root.1 = .ok none) :
    Plans dest opts seen roots (done ++ [root]) planner := by
  have nothing : ∀ scanned, ¬ Walks dest opts root.1 scanned := by
    rintro scanned ⟨⟨identity, stands⟩, -⟩
    rw [absent] at stands
    cases stands
  have none : ∀ kind path, ¬ RemovedBy dest opts seen roots root kind path := by
    rintro kind path ⟨scanned, aliases, entry, walks, -⟩
    exact nothing scanned walks
  refine ⟨plans.ordered, plans.leavesNodup, plans.dirsNodup, ?_, ?_, ?_⟩
  · intro path
    rw [plans.mem_leaves]
    simp [or_and_right, exists_or, none]
  · intro path
    rw [plans.mem_dirs]
    simp [or_and_right, exists_or, none]
  · intro other mem scanned walks
    rcases mem_append.mp mem with old | new
    · exact plans.looked other old scanned walks
    · rw [mem_singleton.mp new] at walks
      exact absurd walks (nothing scanned)

/-- A walk adds what it plans, and nothing of it was planned before. -/
theorem Plans.walk {root : Bytes × Bytes} {sub : Bytes} {scanned : DestinationWalk}
    (cleaned : ∀ root ∈ roots, Cleaned root.1)
    (plans : Plans dest opts seen roots done planner) (doneRoots : done ⊆ roots)
    (isRoot : root ∈ roots) (new : ∀ other ∈ done, other.1 ≠ root.1)
    (walks : Walks dest opts root.1 scanned)
    (planned : planWalk dest opts seen root.1 sub (rootsInside (sortedRoots roots) root.1)
      (sortedClaims dest seen (sortedRoots roots)) planner scanned = .ok next) :
    Plans dest opts seen roots (done ++ [root]) next := by
  have rootCleaned := cleaned root isRoot
  rcases planWalk_spec rootCleaned planned with
    ⟨aliases, leaves, dirs, looked, plan, leavesEq, dirsPerm, ordered, -⟩
  have isLeaf : ∀ path, path ∈ leaves ↔
      ∃ kind, kind ≠ .dir ∧ RemovedBy dest opts seen roots root kind path := by
    intro path
    rw [plan.mem_leaves]
    constructor
    · rintro ⟨entry, mem, isPlannable, notDir, same⟩
      exact ⟨entry.kind, notDir, scanned, aliases, entry, walks, looked,
        ⟨mem, isPlannable, fun isDir => absurd isDir notDir⟩, rfl, same⟩
    · rintro ⟨kind, notDir, otherScanned, otherAliases, entry, otherWalks, otherLooked, removed,
        rfl, same⟩
      cases walks.unique otherWalks
      rw [looked] at otherLooked
      cases otherLooked
      exact ⟨entry, removed.mem, removed.plannable, notDir, same⟩
  have isDirectory : ∀ path, path ∈ dirs ↔
      RemovedBy dest opts seen roots root .dir path := by
    intro path
    rw [plan.mem_dirs]
    constructor
    · rintro ⟨entry, mem, isPlannable, isDir, rfl, free⟩
      exact ⟨scanned, aliases, entry, walks, looked, ⟨mem, isPlannable, fun _ => free⟩, isDir, rfl⟩
    · rintro ⟨otherScanned, otherAliases, entry, otherWalks, otherLooked, removed, isDir, rfl⟩
      cases walks.unique otherWalks
      rw [looked] at otherLooked
      cases otherLooked
      exact ⟨entry, removed.mem, removed.plannable, isDir, rfl, removed.free isDir⟩
  have apart : ∀ {path : Bytes} {other : Bytes × Bytes} {kind otherKind : Kind}, other ∈ done →
      RemovedBy dest opts seen roots other otherKind path →
        ¬ RemovedBy dest opts seen roots root kind path := by
    intro path other kind otherKind mem old here
    have otherRoot := doneRoots mem
    exact new other mem (Own.unique cleaned otherRoot isRoot (old.own (cleaned other otherRoot))
      (here.own rootCleaned))
  refine ⟨ordered plans.ordered, ?_, ?_, ?_, ?_, ?_⟩
  · rw [leavesEq]
    refine nodup_append.mpr ⟨plans.leavesNodup, plan.leavesNodup, ?_⟩
    rintro path oldMem _ newMem rfl
    rcases (plans.mem_leaves path).mp oldMem with ⟨other, otherMem, kind, -, old⟩
    rcases (isLeaf path).mp newMem with ⟨newKind, -, here⟩
    exact apart otherMem old here
  · refine dirsPerm.nodup_iff.mpr (nodup_append.mpr ⟨plans.dirsNodup, plan.dirsNodup, ?_⟩)
    rintro path oldMem _ newMem rfl
    rcases (plans.mem_dirs path).mp oldMem with ⟨other, otherMem, old⟩
    exact apart otherMem old ((isDirectory path).mp newMem)
  · intro path
    rw [leavesEq, mem_append, plans.mem_leaves, isLeaf]
    simp [or_and_right, exists_or]
  · intro path
    rw [dirsPerm.mem_iff, mem_append, plans.mem_dirs, isDirectory]
    simp [or_and_right, exists_or]
  · intro other mem otherScanned otherWalks
    rcases mem_append.mp mem with old | here
    · exact plans.looked other old otherScanned otherWalks
    · rw [mem_singleton.mp here] at otherWalks ⊢
      cases walks.unique otherWalks
      exact ⟨aliases, looked⟩

/-- A failed walk is not forgotten. -/
theorem planRoot_failed {root : Bytes × Bytes}
    (planned : planRoot dest opts seen (sortedRoots roots)
      (sortedClaims dest seen (sortedRoots roots)) planner root = .ok next)
    (complete : next.deleteWalkFailed = false) : planner.deleteWalkFailed = false := by
  rw [← not_eq_true]
  intro failed
  unfold planRoot at planned
  rw [if_pos failed] at planned
  cases planned
  rw [failed] at complete
  cases complete

theorem Plans.root {root : Bytes × Bytes} (cleaned : ∀ root ∈ roots, Cleaned root.1)
    (plans : Plans dest opts seen roots done planner) (doneRoots : done ⊆ roots)
    (isRoot : root ∈ roots) (new : ∀ other ∈ done, other.1 ≠ root.1)
    (planned : planRoot dest opts seen (sortedRoots roots)
      (sortedClaims dest seen (sortedRoots roots)) planner root = .ok next)
    (complete : next.deleteWalkFailed = false) :
    Plans dest opts seen roots (done ++ [root]) next := by
  have still := planRoot_failed planned complete
  unfold planRoot at planned
  rw [still, if_neg (by simp), bind_eq_ok_iff] at planned
  rcases planned with ⟨answer, stats, rest⟩
  cases answer with
  | none =>
    cases rest
    exact plans.skip stats
  | some identity =>
    rw [bind_eq_ok_iff] at rest
    rcases rest with ⟨scanned, walk, rest⟩
    split_ifs at rest with quiet
    · exact plans.walk cleaned doneRoots isRoot new ⟨⟨identity, stats⟩, walk⟩ rest
    · cases rest
      cases complete

/-- Planning all roots. -/
theorem plans_of_planDeletes (cleaned : ∀ root ∈ roots, Cleaned root.1)
    (named : ∀ first ∈ roots, ∀ second ∈ roots, first.1 = second.1 → first = second)
    (planned : planDeletes dest opts seen roots = .ok planner)
    (complete : planner.deleteWalkFailed = false) :
    Plans dest opts seen roots (sortedRoots roots) planner := by
  have start : Plans dest opts seen roots [] ⟨⟨[], []⟩, false, []⟩ := by
    have ordered : Ordered [] := ⟨List.Pairwise.nil, by simp [Groups.Keyed]⟩
    constructor <;> simp [ordered]
  revert complete
  refine foldlM_rule planned (fun _ => start) ?_
  intro done root state next sorted before first complete
  have members : ∀ other ∈ done ++ [root], other ∈ roots := fun other mem =>
    mem_sortedRoots.mp (sorted.subset mem)
  have isRoot : root ∈ roots := members root (by simp)
  have doneRoots : done ⊆ roots := fun other mem => members other (mem_append_left _ mem)
  have new : ∀ other ∈ done, other.1 ≠ root.1 := by
    intro other mem same
    have distinct := (nodup_sortedRoots roots).sublist sorted.sublist
    rw [nodup_append] at distinct
    exact distinct.2.2 other mem root (by simp) (named other (doneRoots mem) root isRoot same)
  exact (before (planRoot_failed first complete)).root cleaned doneRoots isRoot new first complete

/-- The planned removals are the true extras. -/
theorem Plans.extra_iff (cleaned : ∀ root ∈ roots, Cleaned root.1) (closed : Closed seen roots)
    (plans : Plans dest opts seen roots (sortedRoots roots) planner) (kind : Kind)
    (path : Bytes) :
    Extra dest opts seen roots kind path ↔
      ∃ root ∈ sortedRoots roots, RemovedBy dest opts seen roots root kind path := by
  constructor
  · rintro ⟨⟨root, isRoot, scanned, walks, entry, mem, ne, isKind, rfl, own⟩, notKept, holdsNone⟩
    have sortedMem := mem_sortedRoots.mpr isRoot
    rcases plans.looked root sortedMem scanned walks with ⟨aliases, looked⟩
    exact ⟨root, sortedMem, scanned, aliases, entry, walks, looked, removed_of_not_kept cleaned
      isRoot walks looked mem ne own notKept holdsNone, isKind, rfl⟩
  · rintro ⟨root, sortedMem, scanned, aliases, entry, walks, looked, removed, isKind, rfl⟩
    have isRoot := mem_sortedRoots.mp sortedMem
    rcases (mem_remaining_iff (cleaned root isRoot)).mp removed.mem with
      ⟨mem, ne, -, own, -, -⟩
    have pass : Pass _ _ _ _ _ _ _ _ := ⟨cleaned, closed, isRoot, walks, looked, removed⟩
    refine ⟨⟨root, isRoot, scanned, walks, entry, mem, ne, isKind, rfl, own⟩, ?_, ?_⟩
    · intro isKept
      exact pass.not_kept isKept (.inl rfl)
    · intro kept isKept higher
      exact pass.not_kept isKept (.inr higher)

/-- An extra has one kind. -/
theorem Extra.kind_unique (cleaned : ∀ root ∈ roots, Cleaned root.1) {first second : Kind}
    {path : Bytes} (isFirst : Extra dest opts seen roots first path)
    (isSecond : Extra dest opts seen roots second path) : first = second := by
  rcases isFirst with ⟨⟨root, isRoot, scanned, walks, entry, mem, ne, rfl, rfl, own⟩, -⟩
  rcases isSecond with
    ⟨⟨other, otherRoot, otherScanned, otherWalks, otherEntry, otherMem, otherNe, rfl, same,
      otherOwn⟩, -⟩
  have sameRoot := Own.unique cleaned otherRoot isRoot otherOwn own
  rw [sameRoot] at otherWalks same
  cases walks.unique otherWalks
  have isRel := (scanned.relative entry mem).resolve_left ne
  have otherRel := (scanned.relative otherEntry otherMem).resolve_left otherNe
  have samePath := (join_inj (cleaned root isRoot) isRel otherRel).mp same
  rw [eq_of_path_eq mem otherMem samePath]

end Whole

end Syq.Pruning
