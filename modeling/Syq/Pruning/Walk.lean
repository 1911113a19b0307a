import Syq.Lib.Guards
import Syq.Pruning.Model

/-!
# What one walk leaves to decide

The sets that a walk builds are described by what each entry does to them.  Below one root the
entries are named by their relative paths, so that "below a shielded directory" becomes "one
of the directories above is shielded".
-/

namespace Syq.Pruning

open Syq.Lib Syq.Planning PruneWalk List

/-! ## Roots -/

theorem rootLe_path {first second : Bytes × Bytes} (le : rootLe first second = true) :
    first.1 ≤ second.1 := by
  unfold rootLe at le
  rw [Bool.or_eq_true, Bool.and_eq_true, decide_eq_true_eq, decide_eq_true_eq] at le
  rcases le with less | ⟨same, -⟩
  · exact List.le_of_lt less
  · rw [same]
    exact List.le_refl _

theorem rootLe_total (first second : Bytes × Bytes) :
    (rootLe first second || rootLe second first) = true := by
  unfold rootLe
  simp only [Bool.or_eq_true, Bool.and_eq_true, decide_eq_true_eq]
  by_cases same : first.1 = second.1
  · rcases List.le_total first.2 second.2 with le | le
    · exact .inl (.inr ⟨same, le⟩)
    · exact .inr (.inr ⟨same.symm, le⟩)
  · by_cases less : first.1 < second.1
    · exact .inl (.inl less)
    · refine .inr (.inl (List.not_le.mp fun le => same (List.le_antisymm le ?_)))
      exact List.not_lt.mp less

theorem rootLe_trans (first second third : Bytes × Bytes) (lower : rootLe first second = true)
    (upper : rootLe second third = true) : rootLe first third = true := by
  unfold rootLe at *
  simp only [Bool.or_eq_true, Bool.and_eq_true, decide_eq_true_eq] at *
  rcases lower with less | ⟨same, le⟩
  · rcases upper with more | ⟨same', -⟩
    · exact .inl (List.lt_trans less more)
    · exact .inl (same' ▸ less)
  · rcases upper with more | ⟨same', le'⟩
    · exact .inl (same ▸ more)
    · exact .inr ⟨same.trans same', List.le_trans le le'⟩

@[simp]
theorem mem_sortedRoots {roots : List (Bytes × Bytes)} {root : Bytes × Bytes} :
    root ∈ sortedRoots roots ↔ root ∈ roots := by
  rw [sortedRoots, mem_dedup, (mergeSort_perm roots rootLe).mem_iff]

theorem nodup_sortedRoots (roots : List (Bytes × Bytes)) : (sortedRoots roots).Nodup :=
  List.nodup_dedup _

/-- The search finds the other roots that lie inside a root. -/
theorem mem_rootsInside {roots : List (Bytes × Bytes)} {root other : Bytes} :
    other ∈ rootsInside (sortedRoots roots) root ↔
      other ∈ roots.map Prod.fst ∧ inside other root = true ∧ other ≠ root := by
  have sorted : (sortedRoots roots).Pairwise fun first second => first.1 ≤ second.1 :=
    ((pairwise_mergeSort rootLe_trans rootLe_total roots).sublist (dedup_sublist _)).imp rootLe_path
  rw [rootsInside, startingWith_eq_filter sorted]
  simp only [mem_map, mem_filter, isPrefixOf_iff_prefix, mem_sortedRoots,
    decide_eq_true_eq, inside_iff]
  constructor
  · rintro ⟨found, ⟨⟨mem, starts⟩, diff⟩, rfl⟩
    exact ⟨⟨found, mem, rfl⟩, starts, diff⟩
  · rintro ⟨⟨found, mem, rfl⟩, starts, diff⟩
    exact ⟨found, ⟨⟨mem, starts⟩, diff⟩, rfl⟩

/-- With and without the index, the claims inside a root are the same. -/
theorem mem_claimsInside (dest : Destination) (seen : Table Bytes Claim) (root path : Bytes)
    (roots : List (Bytes × Bytes)) :
    path ∈ claimsInside seen root (sortedClaims dest seen roots) ↔
      path ∈ seen ∧ inside path root = true := by
  unfold sortedClaims
  split_ifs
  · have ordered : ((dest.enumerate seen.keys).mergeSort
        fun first second => decide (first ≤ second)).Pairwise
        fun first second => id first ≤ id second := by
      have trans : ∀ first second third : Bytes, decide (first ≤ second) = true →
          decide (second ≤ third) = true → decide (first ≤ third) = true := by
        intro first second third lower upper
        rw [decide_eq_true_eq] at *
        exact List.le_trans lower upper
      have total : ∀ first second : Bytes,
          (decide (first ≤ second) || decide (second ≤ first)) = true := by
        intro first second
        rw [Bool.or_eq_true, decide_eq_true_eq, decide_eq_true_eq]
        exact List.le_total first second
      have sorted := pairwise_mergeSort trans total (dest.enumerate seen.keys)
      exact sorted.imp fun le => of_decide_eq_true le
    rw [claimsInside, mem_toFinset, startingWith_eq_filter ordered, mem_filter,
      (mergeSort_perm _ _).mem_iff, dest.mem_enumerate, isPrefixOf_iff_prefix, inside_iff]
    rfl
  · rw [claimsInside, Finset.mem_filter, Finmap.mem_keys]

/-! ## Below a set of directories -/

theorem underAny_iff {set : Finset Bytes} {dst dstRoot : Bytes} :
    underAny set dst dstRoot = true ↔
      dstRoot ∈ set ∨ ∃ upper ∈ above dst, dstRoot.length < upper.length ∧ upper ∈ set := by
  have whole : ((above dst).reverse.takeWhile fun upper => decide (dstRoot.length < upper.length)) =
      (above dst).reverse.filter fun upper => decide (dstRoot.length < upper.length) := by
    apply takeWhile_eq_filter
    rw [pairwise_reverse]
    refine (pairwise_above dst).imp ?_
    intro shorter longer less holds
    rw [decide_eq_true_eq] at *
    omega
  unfold underAny
  split_ifs with empty root
  · simp [empty]
  · simp [root]
  · rw [whole, any_eq_true]
    simp only [mem_filter, mem_reverse, decide_eq_true_eq, root, false_or]
    constructor
    · rintro ⟨upper, ⟨mem, long⟩, found⟩
      exact ⟨upper, mem, long, found⟩
    · rintro ⟨upper, mem, long, found⟩
      exact ⟨upper, ⟨mem, long⟩, found⟩

section Below

variable {root : Bytes} {rel : Bytes}

theorem root_length_lt_lead_append (root : Bytes) (ne : rel ≠ []) :
    root.length < (lead root ++ rel).length := by
  have positive := length_pos_iff.mpr ne
  have longer : root.length ≤ (lead root).length := by
    unfold lead
    split_ifs <;> simp
  rw [length_append]
  omega

/-- Below a set of paths of the walk: one of the directories above is in the set. -/
theorem underAny_join (cleaned : Cleaned root) {set : Finset Bytes}
    (isRel : IsRelative rel)
    (inRoot : ∀ path ∈ set, ∃ below, IsRelative below ∧ path = join root below) :
    underAny set (join root rel) root = true ↔
      ∃ upper ∈ above rel, join root upper ∈ set := by
  have joined : ∀ {below}, IsRelative below → join root below = lead root ++ below :=
    fun below => join_eq_lead cleaned.nonempty below.isPath.nonempty
  rw [underAny_iff, joined isRel]
  constructor
  · rintro (found | ⟨path, mem, long, found⟩)
    · rcases inRoot root found with ⟨below, belowRel, same⟩
      have longer := root_length_lt_lead_append root belowRel.isPath.nonempty
      rw [joined belowRel] at same
      rw [← same] at longer
      omega
    · rcases inRoot path found with ⟨below, belowRel, rfl⟩
      have leadShort : (lead root).length ≤ (join root below).length := by
        rw [joined belowRel, length_append]
        omega
      rcases (mem_above_lead isRel).mp ⟨mem, leadShort⟩ with ⟨upper, upperMem, same⟩
      refine ⟨upper, upperMem, ?_⟩
      rw [joined (isRel.above upperMem), ← same]
      exact found
  · rintro ⟨upper, mem, found⟩
    have upperRel := isRel.above mem
    rw [joined upperRel] at found
    refine .inr ⟨_, ?_, root_length_lt_lead_append root upperRel.isPath.nonempty, found⟩
    exact ((mem_above_lead isRel).mpr ⟨upper, mem, rfl⟩).1

theorem join_inj (cleaned : Cleaned root) {first second : Bytes} (firstRel : IsRelative first)
    (secondRel : IsRelative second) : join root first = join root second ↔ first = second := by
  rw [join_eq_lead cleaned.nonempty firstRel.isPath.nonempty,
    join_eq_lead cleaned.nonempty secondRel.isPath.nonempty]
  exact append_right_inj _

theorem inside_join (cleaned : Cleaned root) (isRel : IsRelative rel) :
    inside (join root rel) root = true := by
  rw [inside_iff, join_eq_lead cleaned.nonempty isRel.isPath.nonempty]
  exact prefix_append _ _

end Below

/-! ## What one entry does to the walk -/

section Push

variable (seen : Table Bytes Claim) (root : Bytes) (nested : List Bytes)

/-- Whether the path belongs to the walk of a nested root. -/
def inNested (full : Bytes) : Bool :=
  nested.any fun other => other = full || inside full other

/-- An entry that is neither the root itself nor a recovery name. -/
def plain (entry : Entry) : Bool :=
  !entry.path.isEmpty && !isRecovery entry.path

/-- The walk's own entries that no source claims. -/
def passes (entry : Entry) : Bool :=
  plain entry && !inNested nested (join root entry.path) &&
    (seen.lookup (join root entry.path)).isNone

/-- The walk's own directories that stand where a source has something else. -/
def shields (entry : Entry) : Bool :=
  plain entry && !inNested nested (join root entry.path) && decide (entry.kind = .dir) &&
    (seen.lookup (join root entry.path)).any fun claim => claim != .dir

/-- An entry with its whole path. -/
def whole (entry : Entry) : Entry :=
  { entry with path := join root entry.path }

/-- What pushing entries adds to a walk. -/
structure Pushed (walk : PruneWalk) (given : List Entry) (next : PruneWalk) : Prop where
  entries : next.entries =
    walk.entries ++ (given.filter (passes seen root nested)).map (whole root)
  shielded : ∀ path, path ∈ next.shielded ↔
    path ∈ walk.shielded ∨ ∃ entry ∈ given, shields seen root nested entry = true ∧
      path = join root entry.path
  recoveryParents : ∀ path, path ∈ next.recoveryParents ↔
    path ∈ walk.recoveryParents ∨ ∃ entry ∈ given, entry.path ≠ [] ∧
      isRecovery entry.path = true ∧ path ∈ above (join root entry.path)
  unmatched : ∀ path, path ∈ next.unmatched ↔
    path ∈ walk.unmatched ∧ ¬ ∃ entry ∈ given, plain entry = true ∧ path = join root entry.path

theorem pushed_push (walk : PruneWalk) (entry : Entry) :
    Pushed seen root nested walk [entry] (push seen root nested walk entry) := by
  unfold push
  by_cases empty : entry.path = []
  · constructor <;> simp [passes, shields, plain, empty]
  by_cases recovery : isRecovery entry.path = true
  · constructor <;>
      simp [passes, shields, plain, empty, recovery, isEmpty_eq_false_iff.mpr empty]
  have isPlain : plain entry = true := by
    simp [plain, recovery, isEmpty_eq_false_iff.mpr empty]
  simp only [isEmpty_eq_false_iff.mpr empty, Bool.false_eq_true, if_false]
  by_cases inner : (nested.any fun other =>
      decide (other = join root entry.path) || inside (join root entry.path) other) = true
  · have isNested : inNested nested (join root entry.path) = true := inner
    constructor <;> simp [inner, passes, shields, isNested, isPlain, recovery, and_comm]
  · have isOwn : inNested nested (join root entry.path) = false := by
      simpa [inNested] using inner
    rw [if_neg inner]
    cases claimed : seen.lookup (join root entry.path) with
    | none =>
      constructor <;> simp [passes, shields, isOwn, isPlain, recovery, claimed, whole, and_comm]
    | some claim =>
      by_cases shield : (claim != .dir && decide (entry.kind = .dir)) = true
      · have isShield : shields seen root nested entry = true := by
          rw [Bool.and_eq_true] at shield
          simp [shields, isOwn, isPlain, claimed, shield]
        constructor <;>
          simp [shield, passes, isShield, isOwn, isPlain, recovery, claimed, and_comm, or_comm]
      · have noShield : shields seen root nested entry = false := by
          rw [Bool.and_eq_true, not_and] at shield
          simp only [shields, isOwn, isPlain, claimed, Option.any_some, Bool.true_and]
          cases isDir : (claim != Claim.dir) with
          | false => simp
          | true => simpa using shield isDir
        constructor <;>
          simp [shield, passes, noShield, isOwn, isPlain, recovery, claimed, and_comm]

theorem pushed_foldl (walk : PruneWalk) (entries : List Entry) :
    Pushed seen root nested walk entries (entries.foldl (push seen root nested) walk) := by
  induction entries generalizing walk with
  | nil => constructor <;> simp
  | cons entry rest ih =>
    have first := pushed_push seen root nested walk entry
    have later := ih (push seen root nested walk entry)
    rw [foldl_cons]
    refine ⟨?_, fun path => ?_, fun path => ?_, fun path => ?_⟩
    · rw [later.entries, first.entries, append_assoc, ← map_append, ← filter_append,
        singleton_append]
    · simp only [later.shielded, first.shielded, or_assoc, exists_mem_cons_iff, not_mem_nil,
        false_and, exists_false, or_false]
    · simp only [later.recoveryParents, first.recoveryParents, or_assoc, exists_mem_cons_iff,
        not_mem_nil, false_and, exists_false, or_false]
    · simp only [later.unmatched, first.unmatched, and_assoc, ← not_or, exists_mem_cons_iff,
        not_mem_nil, false_and, exists_false, or_false]

end Push

/-! ## The entries to go through -/

scoped instance lawfulPaths : LawfulBEq Bytes :=
  inferInstanceAs (LawfulBEq (List UInt8))

section Scanned

variable (destination : Destination) (seen : Table Bytes Claim) (roots : List (Bytes × Bytes))
  (root : Bytes) (scanned : DestinationWalk)
variable {entry : Entry} {path : Bytes}

/-- The other roots inside this one, as the search finds them. -/
def nestedRoots : List Bytes :=
  rootsInside (sortedRoots roots) root

/-- Whether an entry lies below a directory that stands where a source has something else. -/
def belowShield (entry : Entry) : Bool :=
  scanned.entries.any fun directory =>
    shields seen root (nestedRoots roots root) directory &&
      decide (directory.path ∈ above entry.path)

/-- The entries that are left to go through, with their relative paths. -/
def remaining : List Entry :=
  scanned.entries.filter fun entry =>
    passes seen root (nestedRoots roots root) entry && !belowShield seen roots root scanned entry

/-- The walk from one root, once all batches are in. -/
def walked : PruneWalk :=
  (scanned.entries.foldl (PruneWalk.push seen root (nestedRoots roots root))
    (PruneWalk.new seen root (sortedClaims destination seen (sortedRoots roots)))).finishScan root

variable {destination seen roots root scanned}

theorem path_ne_nil_of_plain (isPlain : plain entry = true) : entry.path ≠ [] := by
  rw [plain, Bool.and_eq_true] at isPlain
  simpa using isPlain.1

theorem isRelative_of_plain (mem : entry ∈ scanned.entries) (isPlain : plain entry = true) :
    IsRelative entry.path :=
  (scanned.relative entry mem).resolve_left (path_ne_nil_of_plain isPlain)

theorem plain_of_shields {nested : List Bytes} (shield : shields seen root nested entry = true) :
    plain entry = true := by
  simp only [shields, Bool.and_eq_true] at shield
  exact shield.1.1.1

theorem plain_of_passes {nested : List Bytes} (pass : passes seen root nested entry = true) :
    plain entry = true := by
  simp only [passes, Bool.and_eq_true] at pass
  exact pass.1.1

theorem mem_walked_shielded :
    path ∈ (walked destination seen roots root scanned).shielded ↔
      ∃ entry ∈ scanned.entries, shields seen root (nestedRoots roots root) entry = true ∧
        path = join root entry.path := by
  refine ((pushed_foldl seen root (nestedRoots roots root) _
    scanned.entries).shielded path).trans ?_
  simp [new]

theorem walked_shielded_inRoot
    (mem : path ∈ (walked destination seen roots root scanned).shielded) :
    ∃ below, IsRelative below ∧ path = join root below := by
  rcases mem_walked_shielded.mp mem with ⟨entry, entryMem, shield, same⟩
  exact ⟨entry.path, isRelative_of_plain entryMem (plain_of_shields shield), same⟩

theorem mem_walked_recoveryParents :
    path ∈ (walked destination seen roots root scanned).recoveryParents ↔
      ∃ entry ∈ scanned.entries, entry.path ≠ [] ∧ isRecovery entry.path = true ∧
        path ∈ above (join root entry.path) := by
  refine ((pushed_foldl seen root (nestedRoots roots root) _
    scanned.entries).recoveryParents path).trans ?_
  simp [new]

/-- A claim that the walk did not find under its own name. -/
def Unmatched (seen : Table Bytes Claim) (root : Bytes) (scanned : DestinationWalk)
    (path : Bytes) : Prop :=
  path ∈ seen ∧ inside path root = true ∧
    ∀ entry ∈ scanned.entries, plain entry = true → path ≠ join root entry.path

theorem mem_walked_unmatched :
    path ∈ (walked destination seen roots root scanned).unmatched ↔
      Unmatched seen root scanned path := by
  refine ((pushed_foldl seen root (nestedRoots roots root) _
    scanned.entries).unmatched path).trans ?_
  change path ∈ claimsInside _ _ _ ∧ _ ↔ _
  rw [mem_claimsInside, and_assoc]
  push Not
  rfl

theorem walked_entries (cleaned : Cleaned root) :
    (walked destination seen roots root scanned).entries =
      (remaining seen roots root scanned).map (whole root) := by
  have under : ∀ entry ∈ scanned.entries.filter (passes seen root (nestedRoots roots root)),
      underAny (walked destination seen roots root scanned).shielded (whole root entry).path root =
        belowShield seen roots root scanned entry := by
    intro entry mem
    rw [mem_filter] at mem
    have isRel := isRelative_of_plain mem.1 (plain_of_passes mem.2)
    rw [Bool.eq_iff_iff, whole, underAny_join cleaned isRel fun path => walked_shielded_inRoot,
      belowShield, any_eq_true]
    simp only [Bool.and_eq_true, decide_eq_true_eq, mem_walked_shielded]
    constructor
    · rintro ⟨upper, upperMem, dir, dirMem, shield, same⟩
      refine ⟨dir, dirMem, shield, ?_⟩
      have dirRel := isRelative_of_plain dirMem (plain_of_shields shield)
      rw [← (join_inj cleaned (isRel.above upperMem) dirRel).mp same]
      exact upperMem
    · rintro ⟨dir, dirMem, shield, higher⟩
      exact ⟨dir.path, higher, dir, dirMem, shield, rfl⟩
  change (PruneWalk.entries (foldl _ _ _)).filter
    (fun entry => !underAny (walked destination seen roots root scanned).shielded entry.path root) =
      _
  rw [(pushed_foldl seen root (nestedRoots roots root) _ scanned.entries).entries]
  change (([] : List Entry) ++ _).filter _ = _
  rw [nil_append, filter_map, filter_filter]
  congr 1
  apply filter_congr
  intro entry mem
  cases pass : passes seen root (nestedRoots roots root) entry with
  | false => rw [Bool.and_false, Bool.false_and]
  | true =>
    rw [Function.comp_apply, under entry (mem_filter.mpr ⟨mem, pass⟩), Bool.and_true, Bool.true_and]

end Scanned

end Syq.Pruning
