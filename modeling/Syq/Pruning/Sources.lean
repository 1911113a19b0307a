import Syq.Planning.Collision
import Syq.Pruning.Extras
import Syq.Scan.Walk

/-!
# Where claims and walks come from

The plan is made from claims that are closed upwards and from walks that report directories
before what they hold.  Both are what the other parts of a copy produce: the claims are those
of the transfer's planner, and a walk is what the pruned scan of a tree hands on.
-/

namespace Syq.Pruning

open Syq.Lib Syq.Planning List

/-! ## Claims -/

section Claims

variable {opts : Opts} {sides : Sides} {planner : Planning.Planner} {claimed : List Claimed}
variable {others : List Planned} {roots : List (Bytes × Bytes)}

/-- A path that is claimed as a directory stands as one. -/
theorem lookup_of_claimed_dir (tracks : Tracks claimed planner others) {item : Claimed}
    (mem : item ∈ claimed) (isDir : item.claim = .dir) :
    planner.dstSeen.lookup item.dst = some .dir := by
  have real : item ∈ realClaims claimed item.dst := by
    simp [realClaims, mem, isDir]
  rw [tracks.seen, standing]
  cases spelled : realClaims claimed item.dst with
  | nil => simp [spelled] at real
  | cons first rest =>
    have isFirst : first ∈ realClaims claimed item.dst := by simp [spelled]
    rcases tracks.shape item.dst with dirs | files | single
    · exact congrArg some (dirs first isFirst)
    · rcases files item real with ⟨identity, isFile⟩
      simp [isDir] at isFile
    · rw [spelled, length_cons] at single
      rw [spelled, length_eq_zero_iff.mp (by omega : rest.length = 0), mem_singleton] at real
      exact congrArg some (real ▸ isDir)

theorem claimed_of_mem (tracks : Tracks claimed planner others) {path : Bytes}
    (mem : path ∈ planner.dstSeen) : ∃ item ∈ claimed, item.dst = path := by
  by_contra unclaimed
  push Not at unclaimed
  have absent : planner.dstSeen.lookup path = none := by
    rw [tracks.seen, standing, realClaims, filter_eq_nil_iff.mpr (by simp_all)]
    simpa using unclaimed
  exact Finmap.lookup_eq_none.mp absent mem

/-- The claims of a scan without a collision are closed, if its entries are: each root, and
each directory above an entry in a root, is an entry that claims a directory. -/
theorem Closed.of_scan {found : List Planning.Found}
    (scanned : found.foldlM (handle opts sides) Planning.Planner.empty = .ok planner)
    (calm : planner.collision = false)
    (top : ∀ root ∈ roots, ∃ dir ∈ claims opts sides found, dir.dst = root.1 ∧ dir.claim = .dir)
    (upper : ∀ item ∈ claims opts sides found, ∀ root ∈ roots, ∀ higher ∈ above item.dst,
      inside higher root.1 = true →
        ∃ dir ∈ claims opts sides found, dir.dst = higher ∧ dir.claim = .dir) :
    Closed planner.dstSeen roots := by
  rcases scan_sound opts sides empty_sound scanned with collides | tracks
  · rw [calm] at collides
    cases collides
  · rw [nil_append] at tracks
    constructor
    · intro root isRoot
      rcases top root isRoot with ⟨dir, mem, same, isDir⟩
      exact same ▸ lookup_of_claimed_dir tracks mem isDir
    · intro path mem root isRoot higher isAbove isInside
      rcases claimed_of_mem tracks mem with ⟨item, itemMem, rfl⟩
      rcases upper item itemMem root isRoot higher isAbove isInside with ⟨dir, mem, same, isDir⟩
      exact same ▸ lookup_of_claimed_dir tracks mem isDir

end Claims

/-! ## Walks -/

section Walks

open Scan (DescriptorScan ParentsFirst)

variable {μ : Type} {tree : Scan.Tree μ} {entry : Scan.Entry μ}

theorem isRelative_of_mem_entries (mem : entry ∈ tree.entries) : IsRelative entry.path where
  isPath := Scan.isPath_of_mem_entries mem
  upper := by
    intro path higher
    rcases Scan.upper_of_mem_entries mem path higher with ⟨dir, dirMem, rfl, -⟩
    exact Scan.isPath_of_mem_entries dirMem

variable (kind : μ → Kind) (identity : μ → Identity)

/-- What pruning reads of a reported entry. -/
def ofScanned (entry : Scan.Entry μ) : Entry :=
  ⟨entry.path, if entry.isDirectory then .dir else kind entry.metadata, identity entry.metadata⟩

/-- What a scan hands on of a tree, below its root, and the paths that it turns away. -/
def DestinationWalk.ofScan (scan : DescriptorScan) (tree : Scan.Tree μ)
    {emitted : List (Scan.Entry μ)} (handedOn : emitted.Perm (scan.visible tree))
    (ordered : ParentsFirst emitted) (warnings : List String) : DestinationWalk where
  entries := ⟨[], .dir, identity tree.root.metadata⟩ :: emitted.map (ofScanned kind identity)
  ignored := (scan.turnedAway tree).map Scan.Entry.path
  warnings := warnings
  relative := by
    rw [forall_mem_cons, forall_mem_map]
    refine ⟨.inl rfl, fun _ mem => .inr ?_⟩
    exact isRelative_of_mem_entries (mem_of_mem_filter (handedOn.mem_iff.mp mem))
  nodup := by
    rw [map_cons, map_map, nodup_cons, mem_map]
    constructor
    · rintro ⟨entry, mem, empty⟩
      have inTree := mem_of_mem_filter (handedOn.mem_iff.mp mem)
      exact (Scan.isPath_of_mem_entries inTree).nonempty empty
    · exact (handedOn.map _).nodup_iff.mpr
        ((Scan.nodup_entries tree).sublist (filter_sublist.map Scan.Entry.path))
  parentsFirst := by
    intro before entry after split upper higher
    rcases before with - | ⟨top, before⟩
    · rw [← (cons.inj split).1] at higher
      cases higher
    · rcases map_eq_append_iff.mp (cons.inj split).2 with ⟨first, last, rfl, rfl, mapped⟩
      rcases map_eq_cons_iff.mp mapped with ⟨reported, rest, rfl, rfl, -⟩
      rcases ordered first reported rest rfl upper higher with ⟨dir, mem, same, isDir⟩
      exact ⟨ofScanned kind identity dir, mem_cons_of_mem _ (mem_map_of_mem mem), same,
        if_pos isDir⟩
  ignoredRelative := by
    rw [forall_mem_map]
    exact fun _ mem => isRelative_of_mem_entries (mem_of_mem_filter mem)
  ignoredApart := by
    rw [forall_mem_map]
    intro turned turnedMem
    rcases mem_filter.mp turnedMem with ⟨inTree, verdict⟩
    rw [forall_mem_cons, forall_mem_map]
    refine ⟨(Scan.isPath_of_mem_entries inTree).nonempty.symm, fun entry mem same => ?_⟩
    rcases mem_filter.mp (handedOn.mem_iff.mp mem) with ⟨entryIn, passes⟩
    have equal := inj_on_of_nodup_map (Scan.nodup_entries tree) entryIn inTree same
    simp [equal] at passes
    simp [passes] at verdict
  ignoredParents := by
    rw [forall_mem_map]
    intro turned turnedMem upper higher
    rcases mem_filter.mp turnedMem with ⟨inTree, verdict⟩
    rcases Scan.upper_of_mem_entries inTree upper higher with ⟨dir, dirMem, rfl, isDir⟩
    have entered := all_eq_true.mp (Bool.and_eq_true_iff.mp verdict).2 dir.path higher
    have visible : dir ∈ scan.visible tree := mem_filter.mpr ⟨dirMem, isDir.symm ▸ entered⟩
    exact ⟨ofScanned kind identity dir,
      mem_cons_of_mem _ (mem_map_of_mem (handedOn.mem_iff.mpr visible)), rfl, if_pos isDir⟩

end Walks

end Syq.Pruning
