import Syq.Pruning.Walk

/-!
# The plan of one walk

Going through the remaining entries in their order, a directory that is an alias of something
else shields what comes below it later.  Since directories come before their contents, what is
below a shield does not depend on when it is asked.
-/

namespace Syq.Pruning

open Syq.Lib Syq.Planning List

/-! ## Aliases -/

section Aliases

variable {dest : Destination} {seen : Table Bytes Claim} {entries : List Entry}

theorem lookupAlias_ok {aliases next : Table Identity Claim} {path : Bytes}
    (looked : lookupAlias dest seen entries aliases path = .ok next) (identity : Identity) :
    identity ∈ next ↔ identity ∈ aliases ∨
      dest.stat path = .ok (some identity) ∧ path ∈ seen ∧
        ∃ entry ∈ entries, entry.identity = identity := by
  unfold lookupAlias at looked
  rw [bind_eq_ok_iff] at looked
  rcases looked with ⟨answer, stats, rest⟩
  rw [stats]
  cases answer with
  | none =>
    cases rest
    simp
  | some found =>
    cases claimed : seen.lookup path with
    | none =>
      rw [claimed] at rest
      cases rest
      have unseen : path ∉ seen := Finmap.lookup_eq_none.mp claimed
      simp [unseen]
    | some claim =>
      rw [claimed] at rest
      have isSeen : path ∈ seen := Finmap.mem_of_lookup_eq_some claimed
      dsimp only at rest
      split_ifs at rest with known
      · cases rest
        rw [Finmap.mem_insert, or_comm]
        simp only [isSeen, Except.ok.injEq, Option.some.injEq]
        constructor
        · rintro (old | rfl)
          · exact .inl old
          · exact .inr ⟨rfl, by simpa using known⟩
        · rintro (old | ⟨rfl, -⟩)
          · exact .inl old
          · exact .inr rfl
      · cases rest
        simp only [isSeen, true_and, Except.ok.injEq, Option.some.injEq]
        constructor
        · exact .inl
        · rintro (old | ⟨rfl, entry, mem, same⟩)
          · exact old
          · exact absurd (any_eq_true.mpr ⟨entry, mem, by simpa using same⟩) known

theorem foldlM_lookupAlias_ok {paths : List Bytes} {aliases next : Table Identity Claim}
    (looked : paths.foldlM (lookupAlias dest seen entries) aliases = .ok next)
    (identity : Identity) :
    identity ∈ next ↔ identity ∈ aliases ∨
      ∃ path ∈ paths, dest.stat path = .ok (some identity) ∧ path ∈ seen ∧
        ∃ entry ∈ entries, entry.identity = identity := by
  induction paths generalizing aliases with
  | nil =>
    cases looked
    simp
  | cons path rest ih =>
    rw [foldlM_cons, bind_eq_ok_iff] at looked
    rcases looked with ⟨middle, first, later⟩
    rw [ih later, lookupAlias_ok first, or_assoc, exists_mem_cons_iff]

end Aliases

section Plan

variable {dest : Destination} {opts : PruneOpts} {seen : Table Bytes Claim}
  {roots : List (Bytes × Bytes)} {root sub : Bytes} {scanned : DestinationWalk}
variable {aliases : Table Identity Claim} {entry : Entry}

/-- The files that claims are, if the walk did not find the claims under their own names. -/
def IsAlias (destination : Destination) (seen : Table Bytes Claim) (root : Bytes)
    (scanned : DestinationWalk) (entry : Entry) : Prop :=
  ∃ path, Unmatched seen root scanned path ∧ destination.stat path = .ok (some entry.identity)

/-- An entry that is gone through has an alias in the table exactly if some claim is its
file. -/
theorem mem_aliases (cleaned : Cleaned root)
    (looked : lookupPruneAliases dest seen (walked dest seen roots root scanned) =
      .ok aliases) (mem : entry ∈ remaining seen roots root scanned) :
    entry.identity ∈ aliases ↔ IsAlias dest seen root scanned entry := by
  have wholeMem : whole root entry ∈ (walked dest seen roots root scanned).entries := by
    rw [walked_entries cleaned]
    exact List.mem_map_of_mem mem
  unfold lookupPruneAliases at looked
  rw [if_neg (by
    rw [List.isEmpty_iff]
    exact List.ne_nil_of_mem wholeMem)] at looked
  rw [foldlM_lookupAlias_ok looked]
  simp only [dest.mem_enumerate, mem_walked_unmatched]
  constructor
  · rintro (old | ⟨path, unmatched, stats, -, -⟩)
    · exact absurd old (Finmap.notMem_empty)
    · exact ⟨path, unmatched, stats⟩
  · rintro ⟨path, unmatched, stats⟩
    exact .inr ⟨path, unmatched, stats, unmatched.1, whole root entry, wholeMem, rfl⟩

/-! ## Going through the entries -/

/-- A directory that is an alias of something else. -/
def aliasShields (aliases : Table Identity Claim) (entry : Entry) : Bool :=
  decide (entry.kind = .dir) &&
    (aliases.lookup entry.identity).any fun claim => decide (claim ≠ .dir)

def belowAlias (aliases : Table Identity Claim) (entries : List Entry) (entry : Entry) : Bool :=
  entries.any fun directory =>
    aliasShields aliases directory && decide (directory.path ∈ above entry.path)

def isSidecar (entry : Entry) : Bool :=
  decide (entry.kind = .file) && isPartialName (lastName entry.path)

/-- An entry that is neither an alias, nor below one, nor a staged file. -/
def plannable (aliases : Table Identity Claim) (entries : List Entry) (entry : Entry) : Bool :=
  !belowAlias aliases entries entry && (aliases.lookup entry.identity).isNone && !isSidecar entry

theorem belowAlias_iff {entries : List Entry} :
    belowAlias aliases entries entry = true ↔ ∃ dir ∈ entries,
      aliasShields aliases dir = true ∧ dir.path ∈ above entry.path := by
  simp [belowAlias]

/-- Below a shield there is a shield that is below no other. -/
theorem exists_outermost {entries : List Entry} (entry : Entry)
    (below : belowAlias aliases entries entry = true) :
    ∃ dir ∈ entries, aliasShields aliases dir = true ∧
      belowAlias aliases entries dir = false ∧ dir.path ∈ above entry.path := by
  induction length : entry.path.length using Nat.strong_induction_on generalizing entry with
  | _ bound ih =>
    rcases belowAlias_iff.mp below with ⟨dir, mem, shield, higher⟩
    cases again : belowAlias aliases entries dir with
    | false => exact ⟨dir, mem, shield, again, higher⟩
    | true =>
      rcases mem_above_iff.mp higher with ⟨rest, split⟩
      have shorter : dir.path.length < bound := by
        rw [← length, split, length_append, length_cons]
        omega
      rcases ih _ shorter dir again rfl with
        ⟨outer, outerMem, outerShield, outermost, outerHigher⟩
      exact ⟨outer, outerMem, outerShield, outermost, above_trans outerHigher higher⟩

/-- No later entry is above an earlier one. -/
theorem pairwise_remaining :
    (remaining seen roots root scanned).Pairwise fun first second =>
      second.path ∉ above first.path := by
  apply List.Pairwise.filter
  rw [pairwise_iff_forall_sublist]
  intro first second pair higher
  rcases cons_sublist_iff.mp pair with ⟨early, late, split, firstMem, secondMem⟩
  rw [singleton_sublist] at secondMem
  rcases append_of_mem firstMem with ⟨before, between, rfl⟩
  rw [append_assoc] at split
  rcases scanned.parentsFirst before first _ split second.path higher with
    ⟨dir, dirMem, same, -⟩
  have distinct := scanned.nodup
  rw [split, map_append, nodup_append] at distinct
  refine distinct.2.2 dir.path (mem_map_of_mem dirMem) second.path ?_ same
  exact mem_map_of_mem (mem_cons_of_mem _ (mem_append_right _ secondMem))

/-- What is above an entry that is gone through comes before it. -/
theorem mem_before_of_above {before after : List Entry} {dir : Entry}
    (split : remaining seen roots root scanned = before ++ entry :: after)
    (mem : dir ∈ remaining seen roots root scanned)
    (higher : dir.path ∈ above entry.path) : dir ∈ before := by
  have ordered : (remaining seen roots root scanned).Pairwise fun first second =>
      second.path ∉ above first.path := pairwise_remaining
  rw [split, pairwise_append, pairwise_cons] at ordered
  rw [split, mem_append, mem_cons] at mem
  rcases mem with before | rfl | later
  · exact before
  · exact absurd higher (not_mem_above_self _)
  · exact absurd higher (ordered.2.1.1 dir later)

theorem isRelative_of_remaining (mem : entry ∈ remaining seen roots root scanned) :
    IsRelative entry.path := by
  rw [remaining, mem_filter, Bool.and_eq_true] at mem
  exact isRelative_of_plain mem.1 (plain_of_passes mem.2.1)

/-- What is known after going through some of the entries. -/
structure Gone (destination : Destination) (seen : Table Bytes Claim)
    (roots : List (Bytes × Bytes)) (root : Bytes) (scanned : DestinationWalk)
    (aliases : Table Identity Claim) (before : List Entry) (found : Found) : Prop where
  shielded : ∀ path, path ∈ found.shielded ↔
    path ∈ (walked destination seen roots root scanned).shielded ∨
      ∃ entry ∈ before, aliasShields aliases entry = true ∧
        belowAlias aliases (remaining seen roots root scanned) entry = false ∧
        path = join root entry.path
  aliasParents : ∀ path, path ∈ found.aliasParents ↔
    ∃ entry ∈ before, belowAlias aliases (remaining seen roots root scanned) entry = false ∧
      entry.identity ∈ aliases ∧ path ∈ above (join root entry.path)
  partialParents : ∀ path, path ∈ found.partialParents ↔
    ∃ entry ∈ before, belowAlias aliases (remaining seen roots root scanned) entry = false ∧
      entry.identity ∉ aliases ∧ isSidecar entry = true ∧ path ∈ above (join root entry.path)
  leaves : found.deletes.leaves.map Item.path =
    (before.filter fun entry =>
      plannable aliases (remaining seen roots root scanned) entry &&
        decide (entry.kind ≠ .dir)).map fun entry => join root entry.path
  dirs : (found.deletes.dirs.items.map Item.path).Perm
    ((before.filter fun entry =>
      plannable aliases (remaining seen roots root scanned) entry &&
        decide (entry.kind = .dir)).map fun entry => join root entry.path)

theorem mem_foldl_holdPartial (rel : String) (uppers : List Bytes) (parents : Table Bytes String)
    (path : Bytes) :
    path ∈ uppers.foldl (holdPartial rel) parents ↔ path ∈ parents ∨ path ∈ uppers := by
  induction uppers generalizing parents with
  | nil => simp
  | cons upper rest ih =>
    rw [foldl_cons, ih, mem_cons]
    unfold holdPartial
    split_ifs with known
    · constructor
      · rintro (old | later)
        · exact .inl old
        · exact .inr (.inr later)
      · rintro (old | rfl | later)
        · exact .inl old
        · exact .inl known
        · exact .inr later
    · rw [Finmap.mem_insert]
      tauto

/-- The relative path again, from the whole one. -/
theorem drop_join (cleaned : Cleaned root) {relative : Bytes} (isRelative : IsRelative relative) :
    (join root relative).drop
      (root.length + if !root.isEmpty && root.getLast? ≠ some slash then 1 else 0) = relative := by
  rw [join_eq_lead cleaned.nonempty isRelative.isPath.nonempty]
  have length : root.length +
      (if !root.isEmpty && root.getLast? ≠ some slash then 1 else 0) = (lead root).length := by
    unfold lead
    have nonempty := isEmpty_eq_false_iff.mpr cleaned.nonempty
    by_cases ends : root.getLast? = some slash <;> simp [nonempty, ends]
  rw [length, drop_left]

/-! ### One more entry -/

namespace Gone

variable {before after : List Entry} {found : Found}
  (gone : Gone dest seen roots root scanned aliases before found)

include gone

/-- When an entry is met, it is under a shield exactly if it is below an alias. -/
theorem underAny (cleaned : Cleaned root)
    (split : remaining seen roots root scanned = before ++ entry :: after) :
    Pruning.underAny found.shielded (join root entry.path) root =
      belowAlias aliases (remaining seen roots root scanned) entry := by
  have mem : entry ∈ remaining seen roots root scanned := by simp [split]
  have isRel := isRelative_of_remaining mem
  have notShielded : belowShield seen roots root scanned entry = false := by
    rw [remaining, mem_filter, Bool.and_eq_true] at mem
    simpa using mem.2.2
  have earlier : before ⊆ remaining seen roots root scanned := by
    rw [split]
    exact subset_append_left _ _
  have inRoot : ∀ path ∈ found.shielded, ∃ below, IsRelative below ∧ path = join root below := by
    intro path pathMem
    rcases (gone.shielded path).mp pathMem with old | ⟨dir, dirMem, -, -, same⟩
    · exact walked_shielded_inRoot old
    · exact ⟨dir.path, isRelative_of_remaining (earlier dirMem), same⟩
  rw [Bool.eq_iff_iff, underAny_join cleaned isRel inRoot]
  constructor
  · rintro ⟨upper, higher, inShielded⟩
    have upperRel := isRel.above higher
    rcases (gone.shielded _).mp inShielded with old | ⟨dir, dirMem, shield, -, same⟩
    · rcases mem_walked_shielded.mp old with ⟨dir, dirMem, shield, same⟩
      have dirRel := isRelative_of_plain dirMem (plain_of_shields shield)
      rw [(join_inj cleaned upperRel dirRel).mp same] at higher
      have below : belowShield seen roots root scanned entry = true :=
        any_eq_true.mpr ⟨dir, dirMem, by simp [shield, higher]⟩
      rw [notShielded] at below
      cases below
    · have dirRel := isRelative_of_remaining (earlier dirMem)
      rw [(join_inj cleaned upperRel dirRel).mp same] at higher
      exact belowAlias_iff.mpr ⟨dir, earlier dirMem, shield, higher⟩
  · intro below
    rcases exists_outermost entry below with ⟨dir, dirMem, shield, outermost, higher⟩
    have first := mem_before_of_above split dirMem higher
    exact ⟨dir.path, higher, (gone.shielded _).mpr (.inr ⟨dir, first, shield, outermost, rfl⟩)⟩

/-- An entry below an alias changes nothing. -/
theorem below (below : belowAlias aliases (remaining seen roots root scanned) entry = true) :
    Gone dest seen roots root scanned aliases (before ++ [entry]) found where
  shielded := by
    intro path
    rw [gone.shielded]
    simp [below]
  aliasParents := by
    intro path
    rw [gone.aliasParents]
    simp [below]
  partialParents := by
    intro path
    rw [gone.partialParents]
    simp [below]
  leaves := by
    rw [gone.leaves]
    simp [plannable, below]
  dirs := by simpa [plannable, below] using gone.dirs

theorem keepAlias
    (outer : belowAlias aliases (remaining seen roots root scanned) entry = false) {claim : Claim}
    (claimed : aliases.lookup entry.identity = some claim) :
    Gone dest seen roots root scanned aliases (before ++ [entry])
      (Pruning.keepAlias (join root entry.path) entry.kind claim found) := by
  have isAlias : entry.identity ∈ aliases := Finmap.mem_of_lookup_eq_some claimed
  have shieldIff : aliasShields aliases entry =
      (decide (claim ≠ .dir) && decide (entry.kind = .dir)) := by
    simp [aliasShields, claimed, Bool.and_comm]
  unfold Pruning.keepAlias
  constructor
  · intro path
    split_ifs with shield
    · rw [Finset.mem_insert, gone.shielded]
      simp only [mem_append, mem_singleton, or_and_right, exists_or, exists_eq_left,
        shieldIff, shield, outer, true_and]
      rw [or_comm, or_assoc]
    · rw [gone.shielded]
      simp only [mem_append, mem_singleton, or_and_right, exists_or, exists_eq_left,
        shieldIff, shield, Bool.false_eq_true, false_and, or_false]
  · intro path
    rw [Finset.mem_union, gone.aliasParents]
    simp [outer, isAlias, or_and_right, exists_or]
  · intro path
    rw [gone.partialParents]
    simp [isAlias]
  · rw [gone.leaves]
    simp [plannable, claimed]
  · simpa [plannable, claimed] using gone.dirs

theorem planUnclaimed
    (outer : belowAlias aliases (remaining seen roots root scanned) entry = false)
    (unclaimed : aliases.lookup entry.identity = none) :
    Gone dest seen roots root scanned aliases (before ++ [entry])
      (Pruning.planUnclaimed dest opts sub (join root entry.path) entry.path entry.kind found) := by
  have noAlias : entry.identity ∉ aliases := Finmap.lookup_eq_none.mp unclaimed
  have noShield : aliasShields aliases entry = false := by simp [aliasShields, unclaimed]
  unfold Pruning.planUnclaimed
  by_cases sidecar : isSidecar entry = true
  · rw [if_pos (by simpa [isSidecar] using sidecar)]
    refine ⟨fun path => (gone.shielded path).trans (by simp [noShield]),
      fun path => (gone.aliasParents path).trans (by simp [noAlias]), ?_, ?_, ?_⟩
    · intro path
      rw [mem_foldl_holdPartial, gone.partialParents]
      simp [outer, noAlias, sidecar, or_and_right, exists_or]
    · rw [gone.leaves]
      simp [plannable, sidecar]
    · simpa [plannable, sidecar] using gone.dirs
  · have isPlannable : plannable aliases (remaining seen roots root scanned) entry = true := by
      simp [plannable, outer, unclaimed, sidecar]
    rw [if_neg (by simpa [isSidecar] using sidecar)]
    by_cases isDir : entry.kind = .dir
    · rw [if_pos isDir]
      refine ⟨fun path => (gone.shielded path).trans (by simp [noShield]),
        fun path => (gone.aliasParents path).trans (by simp [noAlias]),
        fun path => (gone.partialParents path).trans (by simp [sidecar]), ?_, ?_⟩
      · rw [gone.leaves]
        simp [isDir]
      · refine ((Groups.items_push _ _ _).map _).trans ?_
        rw [map_append, filter_append, map_append]
        refine gone.dirs.append (List.Perm.of_eq ?_)
        simp [isPlannable, isDir]
    · rw [if_neg isDir]
      refine ⟨fun path => (gone.shielded path).trans (by simp [noShield]),
        fun path => (gone.aliasParents path).trans (by simp [noAlias]),
        fun path => (gone.partialParents path).trans (by simp [sidecar]), ?_, ?_⟩
      · rw [map_append, gone.leaves]
        simp [isPlannable, isDir]
      · simpa [isDir] using gone.dirs

/-- Going through one more entry. -/
theorem planEntry (cleaned : Cleaned root)
    (split : remaining seen roots root scanned = before ++ entry :: after) :
    Gone dest seen roots root scanned aliases (before ++ [entry])
      (Pruning.planEntry dest opts root sub aliases found (whole root entry)) := by
  have under := gone.underAny cleaned split
  have isRelative : IsRelative entry.path := isRelative_of_remaining (by rw [split]; simp)
  unfold Pruning.planEntry
  simp only [whole, drop_join cleaned isRelative, under]
  cases below : belowAlias aliases (remaining seen roots root scanned) entry with
  | true =>
    exact gone.below below
  | false =>
    cases claimed : aliases.lookup entry.identity with
    | some claim => exact gone.keepAlias below claimed
    | none => exact gone.planUnclaimed below claimed

end Gone

/-- Going through all entries. -/
theorem gone_all (cleaned : Cleaned root) (reports : List String) :
    Gone dest seen roots root scanned aliases (remaining seen roots root scanned)
      (((remaining seen roots root scanned).map (whole root)).foldl
        (planEntry dest opts root sub aliases)
        ⟨(walked dest seen roots root scanned).shielded, ∅, ∅, ⟨[], []⟩, reports⟩) := by
  rw [foldl_map]
  refine foldl_rule (P := Gone dest seen roots root scanned aliases) ?_ ?_
  · constructor <;> simp [Finmap.notMem_empty]
  · rintro before entry found ⟨after, split⟩ gone
    exact gone.planEntry cleaned (by simpa using split.symm)

end Plan

/-! ## Taking over the directories -/

/-- The plan keeps its directories by their depth. -/
structure Ordered (dirs : Groups Nat Item) : Prop where
  sorted : dirs.Sorted
  keyed : dirs.Keyed fun item => depth item.path

/-- Whether one of the four sets keeps a directory. -/
def stays (found : Found) (recoveryParents protected' : Finset Bytes) (path : Bytes) : Bool :=
  decide (path ∈ found.partialParents) || decide (path ∈ recoveryParents) ||
    decide (path ∈ found.aliasParents) || decide (path ∈ protected')

theorem holds_eq_none_iff {found : Found} {recoveryParents protected' : Finset Bytes}
    {item : Item} :
    holds found recoveryParents protected' item = none ↔
      stays found recoveryParents protected' item.path = false := by
  unfold holds stays
  cases known : found.partialParents.lookup item.path with
  | some held => simp [Finmap.mem_of_lookup_eq_some known]
  | none =>
    have absent : item.path ∉ found.partialParents := Finmap.lookup_eq_none.mp known
    split_ifs <;> simp_all

theorem foldl_planDirectory_spec (found : Found) (recoveryParents protected' : Finset Bytes)
    (items : List Item) (planner : Planner) :
    let next := items.foldl (planDirectory found recoveryParents protected') planner
    next.deletes.leaves = planner.deletes.leaves ∧
      next.deleteWalkFailed = planner.deleteWalkFailed ∧
      (Ordered planner.deletes.dirs → Ordered next.deletes.dirs) ∧
      (next.deletes.dirs.items.map Item.path).Perm
        (planner.deletes.dirs.items.map Item.path ++ (items.map Item.path).filter
          fun path => !stays found recoveryParents protected' path) := by
  induction items generalizing planner with
  | nil => simp
  | cons item rest ih =>
    have later := ih
      (planDirectory found recoveryParents protected' planner item)
    dsimp only at later ⊢
    rw [foldl_cons]
    rcases later with ⟨leaves, failed, ordered, dirs⟩
    rw [leaves, failed]
    cases kept : holds found recoveryParents protected' item with
    | some report =>
      have staysHere : stays found recoveryParents protected' item.path = true := by
        rw [← Bool.not_eq_false, ← holds_eq_none_iff, kept]
        simp
      unfold planDirectory at ordered dirs ⊢
      rw [kept] at ordered dirs ⊢
      refine ⟨rfl, rfl, ordered, ?_⟩
      simpa [staysHere] using dirs
    | none =>
      have leavesHere : stays found recoveryParents protected' item.path = false :=
        holds_eq_none_iff.mp kept
      unfold planDirectory at ordered dirs ⊢
      rw [kept] at ordered dirs ⊢
      refine ⟨rfl, rfl,
        fun old => ordered ⟨old.sorted.push _ _, old.keyed.push item⟩, dirs.trans ?_⟩
      have pushed := (Groups.items_push (depth item.path) item planner.deletes.dirs).map Item.path
      refine (pushed.append_right _).trans ?_
      simp [leavesHere]

/-! ## The plan of a walk as a whole -/

section WalkPlan

variable {dest : Destination} {opts : PruneOpts} {seen : Table Bytes Claim}
  {roots : List (Bytes × Bytes)} {root sub : Bytes} {scanned : DestinationWalk}
  {aliases : Table Identity Claim}

/-- The paths of directories that stay for what they hold. -/
inductive Held (seen : Table Bytes Claim) (roots : List (Bytes × Bytes)) (root : Bytes)
    (scanned : DestinationWalk) (aliases : Table Identity Claim) : Bytes → Prop where
  | sidecar {entry : Entry} {path : Bytes} (mem : entry ∈ remaining seen roots root scanned)
      (outer : belowAlias aliases (remaining seen roots root scanned) entry = false)
      (noAlias : entry.identity ∉ aliases) (sidecar : isSidecar entry = true)
      (higher : path ∈ above (join root entry.path)) : Held seen roots root scanned aliases path
  | recovery {entry : Entry} {path : Bytes} (mem : entry ∈ scanned.entries)
      (nonempty : entry.path ≠ []) (recovery : isRecovery entry.path = true)
      (higher : path ∈ above (join root entry.path)) : Held seen roots root scanned aliases path
  | aliased {entry : Entry} {path : Bytes} (mem : entry ∈ remaining seen roots root scanned)
      (outer : belowAlias aliases (remaining seen roots root scanned) entry = false)
      (isAlias : entry.identity ∈ aliases) (higher : path ∈ above (join root entry.path)) :
      Held seen roots root scanned aliases path
  | ignored {relative upper : Bytes} (mem : relative ∈ scanned.ignored)
      (higher : upper ∈ above relative) : Held seen roots root scanned aliases (join root upper)

theorem mem_protectedBy {path : Bytes} {ignored : List Bytes} :
    path ∈ protectedBy root ignored ↔
      ∃ rel ∈ ignored, ∃ upper ∈ above rel, path = join root upper := by
  simp [protectedBy, eq_comm]

theorem stays_iff {found : Found}
    (gone : Gone dest seen roots root scanned aliases (remaining seen roots root scanned)
      found) (path : Bytes) :
    stays found (walked dest seen roots root scanned).recoveryParents
      (protectedBy root scanned.ignored) path = true ↔
        Held seen roots root scanned aliases path := by
  simp only [stays, Bool.or_eq_true, decide_eq_true_eq, gone.partialParents, gone.aliasParents,
    mem_walked_recoveryParents, mem_protectedBy]
  constructor
  · rintro (((⟨entry, mem, outer, noAlias, sidecar, higher⟩ | ⟨entry, mem, ne, recovery,
      higher⟩) | ⟨entry, mem, outer, isAlias, higher⟩) | ⟨rel, mem, upper, higher, rfl⟩)
    · exact .sidecar mem outer noAlias sidecar higher
    · exact .recovery mem ne recovery higher
    · exact .aliased mem outer isAlias higher
    · exact .ignored mem higher
  · rintro (⟨mem, outer, noAlias, sidecar, higher⟩ | ⟨mem, ne, recovery, higher⟩ |
      ⟨mem, outer, isAlias, higher⟩ | ⟨mem, higher⟩)
    · exact .inl (.inl (.inl ⟨_, mem, outer, noAlias, sidecar, higher⟩))
    · exact .inl (.inl (.inr ⟨_, mem, ne, recovery, higher⟩))
    · exact .inl (.inr ⟨_, mem, outer, isAlias, higher⟩)
    · exact .inr ⟨_, mem, _, higher, rfl⟩

/-- What one walk adds to the plan, each path once. -/
structure WalkPlan (seen : Table Bytes Claim) (roots : List (Bytes × Bytes)) (root : Bytes)
    (scanned : DestinationWalk) (aliases : Table Identity Claim) (leaves dirs : List Bytes) :
    Prop where
  leavesNodup : leaves.Nodup
  dirsNodup : dirs.Nodup
  mem_leaves : ∀ path, path ∈ leaves ↔ ∃ entry ∈ remaining seen roots root scanned,
    plannable aliases (remaining seen roots root scanned) entry = true ∧ entry.kind ≠ .dir ∧
      path = join root entry.path
  mem_dirs : ∀ path, path ∈ dirs ↔ ∃ entry ∈ remaining seen roots root scanned,
    plannable aliases (remaining seen roots root scanned) entry = true ∧ entry.kind = .dir ∧
      path = join root entry.path ∧ ¬ Held seen roots root scanned aliases path

theorem nodup_remaining_paths (cleaned : Cleaned root) :
    ((remaining seen roots root scanned).map fun entry => join root entry.path).Nodup := by
  have distinct : ((remaining seen roots root scanned).map Entry.path).Nodup :=
    scanned.nodup.sublist (filter_sublist.map _)
  have joined := distinct.map_on (f := join root) (by
    intro first firstMem second secondMem same
    rcases mem_map.mp firstMem with ⟨firstEntry, firstIn, rfl⟩
    rcases mem_map.mp secondMem with ⟨secondEntry, secondIn, rfl⟩
    exact (join_inj cleaned (isRelative_of_remaining firstIn)
      (isRelative_of_remaining secondIn)).mp same)
  rwa [map_map] at joined

theorem planWalk_spec (cleaned : Cleaned root) {planner next : Planner}
    (planned : planWalk dest opts seen root sub (rootsInside (sortedRoots roots) root)
      (sortedClaims dest seen (sortedRoots roots)) planner scanned = .ok next) :
    ∃ aliases leaves dirs,
      lookupPruneAliases dest seen (walked dest seen roots root scanned) =
        .ok aliases ∧
      WalkPlan seen roots root scanned aliases leaves dirs ∧
      next.deletes.leaves.map Item.path = planner.deletes.leaves.map Item.path ++ leaves ∧
      (next.deletes.dirs.items.map Item.path).Perm
        (planner.deletes.dirs.items.map Item.path ++ dirs) ∧
      (Ordered planner.deletes.dirs → Ordered next.deletes.dirs) ∧
      next.deleteWalkFailed = planner.deleteWalkFailed := by
  change planWalked dest opts seen root sub scanned.ignored planner
    (walked dest seen roots root scanned) = .ok next at planned
  unfold planWalked at planned
  split_ifs at planned with empty
  · cases planned
    have nothing : remaining seen roots root scanned = [] := by
      rw [walked_entries cleaned, List.isEmpty_iff, List.map_eq_nil_iff] at empty
      exact empty
    refine ⟨∅, [], [], ?_, ⟨nodup_nil, nodup_nil, ?_, ?_⟩, by simp, by simp, id, rfl⟩
    · rw [lookupPruneAliases, if_pos empty]
    · simp [nothing]
    · simp [nothing]
  · rw [bind_eq_ok_iff] at planned
    rcases planned with ⟨aliases, looked, rest⟩
    rw [pure_eq_ok_iff] at rest
    subst rest
    rw [walked_entries cleaned]
    have gone := @gone_all dest opts seen roots root sub scanned aliases cleaned
      planner.reports
    generalize foldl (planEntry dest opts root sub aliases) _ _ = found at gone ⊢
    have distinct := @nodup_remaining_paths seen roots root scanned cleaned
    rcases foldl_planDirectory_spec found
      (walked dest seen roots root scanned).recoveryParents
      (protectedBy root scanned.ignored) found.deletes.dirs.items
      ⟨⟨planner.deletes.leaves ++ found.deletes.leaves, planner.deletes.dirs⟩,
        planner.deleteWalkFailed, found.reports⟩ with ⟨leaves, failed, ordered, dirs⟩
    refine ⟨aliases, _, _, looked, ⟨?_, ?_, ?_, ?_⟩, by rw [leaves, map_append], dirs,
      ordered, failed⟩
    · rw [gone.leaves]
      exact distinct.sublist (filter_sublist.map _)
    · apply List.Nodup.filter
      rw [gone.dirs.nodup_iff]
      exact distinct.sublist (filter_sublist.map _)
    · intro path
      rw [gone.leaves]
      simp only [mem_map, mem_filter, Bool.and_eq_true, decide_eq_true_eq]
      constructor
      · rintro ⟨entry, ⟨mem, isPlannable, notDir⟩, rfl⟩
        exact ⟨entry, mem, isPlannable, notDir, rfl⟩
      · rintro ⟨entry, mem, isPlannable, notDir, rfl⟩
        exact ⟨entry, ⟨mem, isPlannable, notDir⟩, rfl⟩
    · intro path
      rw [mem_filter, gone.dirs.mem_iff, ← stays_iff gone]
      simp only [mem_map, mem_filter, Bool.and_eq_true, decide_eq_true_eq,
        Bool.not_eq_true', Bool.not_eq_true]
      constructor
      · rintro ⟨⟨entry, ⟨mem, isPlannable, isDir⟩, rfl⟩, goes⟩
        exact ⟨entry, mem, isPlannable, isDir, rfl, goes⟩
      · rintro ⟨entry, mem, isPlannable, isDir, rfl, goes⟩
        exact ⟨⟨entry, ⟨mem, isPlannable, isDir⟩, rfl⟩, goes⟩

end WalkPlan

end Syq.Pruning
