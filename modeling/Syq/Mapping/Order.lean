import Syq.Mapping.Agreement

/-!
# The order of a mapping's entries

The receiver inserts the destinations of a mapping one after another.  Which ones it takes and
what its index holds then follow from the set of them.  An insert that fails may leave one path
too many in the index; the admission it belongs to is closed.
-/

namespace Syq.Mapping

open Syq.Lib List

variable {Metadata Digest : Type} {maxEntries : Nat}
  {permissions next : Permissions Metadata Digest}
  {entries others : List (ManifestEntry Metadata Digest)}

namespace Permissions

/-- The index that noting directories leaves, up to the first that is refused. -/
def parentsLeft (maxEntries : Nat) :
    List Bytes → Permissions Metadata Digest → Permissions Metadata Digest
  | [], permissions => permissions
  | parent :: rest, permissions =>
    match permissions.insertParent maxEntries parent with
    | .ok noted => parentsLeft maxEntries rest noted
    | .error _ =>
      if (permissions.entries.lookup parent).any notDir then permissions
      -- The limit is checked with the directory noted.
      else { permissions with parents := Insert.insert parent permissions.parents }

/-- The index that an insert leaves, whether or not it fails. -/
def insertLeft (maxEntries : Nat) (permissions : Permissions Metadata Digest)
    (entry : ManifestEntry Metadata Digest) : Permissions Metadata Digest :=
  if maxPathBytes < entry.dst.length ∨ entry.dst ∈ permissions.entries ∨
      (notDir entry.kind = true ∧ entry.dst ∈ permissions.parents) then permissions
  else
    match (ancestors entry.dst).foldlM (insertParent maxEntries) permissions with
    | .ok noted => noted.add entry
    | .error _ => permissions.parentsLeft maxEntries (ancestors entry.dst)

theorem insertLeft_of_insert {formats : Formats Metadata Digest}
    {entry : ManifestEntry Metadata Digest}
    (inserts : permissions.insert formats maxEntries entry = .ok next) :
    permissions.insertLeft maxEntries entry = next := by
  unfold Permissions.insert at inserts
  simp only [guard_eq_ok_iff, bind_eq_ok_iff, pure_eq_ok_iff] at inserts
  rcases inserts with ⟨short, fresh, notParent, noted, notes, _, -, rfl⟩
  have free : ¬ (maxPathBytes < entry.dst.length ∨ entry.dst ∈ permissions.entries ∨
      (notDir entry.kind = true ∧ entry.dst ∈ permissions.parents)) := by
    simp_all
  rw [insertLeft, if_neg free, notes]

theorem count_of_insertParent {parent : Bytes}
    (inserts : permissions.insertParent maxEntries parent = .ok next) :
    next.count ≤ max permissions.count maxEntries := by
  rw [insertParent, guard_eq_ok_iff] at inserts
  rcases inserts with ⟨-, inserts⟩
  split_ifs at inserts
  · cases inserts
    exact le_max_left _ _
  · simp only [bind_eq_ok_iff, checkLimit_eq_ok_iff, pure_eq_ok_iff] at inserts
    rcases inserts with ⟨_, fits, rfl⟩
    exact fits.trans (le_max_right _ _)

theorem count_of_insertParents {above : List Bytes}
    (notes : above.foldlM (insertParent maxEntries) permissions = .ok next) :
    next.count ≤ max permissions.count maxEntries := by
  refine foldlM_rule notes (le_max_left ..) fun _ before first => ?_
  have bound := count_of_insertParent first
  omega

theorem count_parentsLeft_le (above : List Bytes) (permissions : Permissions Metadata Digest) :
    (permissions.parentsLeft maxEntries above).count ≤ max permissions.count maxEntries + 1 := by
  induction above generalizing permissions with
  | nil => exact (le_max_left _ _).trans (Nat.le_succ _)
  | cons parent rest ih =>
    unfold parentsLeft
    split
    next noted inserts =>
      have bound := count_of_insertParent inserts
      have laterBound := ih noted
      omega
    next =>
      have added := Finset.card_insert_le parent permissions.parents
      split_ifs
      · omega
      · simp only [count]
        omega

/-- An insert leaves at most one path too many. -/
theorem count_insertLeft_le (entry : ManifestEntry Metadata Digest) :
    (permissions.insertLeft maxEntries entry).count ≤ max permissions.count maxEntries + 1 := by
  unfold insertLeft
  split_ifs
  · exact (le_max_left _ _).trans (Nat.le_succ _)
  split
  next noted notes =>
    have bound : noted.entries.keys.card + noted.parents.card ≤ max permissions.count maxEntries :=
      count_of_insertParents notes
    have keys : (noted.add entry).entries.keys = Insert.insert entry.dst noted.entries.keys := by
      ext path
      simp [add, Finmap.mem_keys]
    have entriesBound := Finset.card_insert_le entry.dst noted.entries.keys
    have parentsBound := Finset.card_erase_le (s := noted.parents) (a := entry.dst)
    have parts : (noted.add entry).count =
        (Insert.insert entry.dst noted.entries.keys).card +
          (noted.parents.erase entry.dst).card := by
      rw [count, keys]
      rfl
    omega
  next => exact count_parentsLeft_le _ _

/-- An index holds the same for the same entries. -/
theorem Holds.eq_of_perm (holds : permissions.Holds entries) (nextHolds : next.Holds others)
    (perm : entries.Perm others) :
    permissions.entries = next.entries ∧ permissions.parents = next.parents := by
  constructor
  · refine Finmap.ext_lookup fun path => Option.ext fun kind => ?_
    simp only [holds.lookup, nextHolds.lookup, perm.mem_iff]
  · ext path
    simp only [holds.parents, nextHolds.parents, perm.mem_iff]

end Permissions

theorem Mappable.of_perm (mappable : Mappable entries) (perm : entries.Perm others) :
    Mappable others where
  short entry mem := mappable.short entry (perm.mem_iff.mpr mem)
  distinct := (perm.map _).nodup_iff.mp mappable.distinct
  below entry mem upper upperMem :=
    mappable.below entry (perm.mem_iff.mpr mem) upper (perm.mem_iff.mpr upperMem)

/-- Entries are taken in one order if they are in another. -/
theorem exists_insertAll_of_perm {formats : Formats Metadata Digest}
    (named : ∀ entry ∈ entries, entry.dst ≠ []) (perm : entries.Perm others)
    (inserts : insertAll formats maxEntries entries = .ok permissions) :
    ∃ permissions, insertAll formats maxEntries others = .ok permissions := by
  rcases insertAll_eq_ok named inserts with ⟨-, mappable, fits⟩
  refine exists_insertAll (fun entry mem => named entry (perm.mem_iff.mpr mem))
    (mappable.of_perm perm) ?_
  rwa [coveredPaths, ← List.toFinset_eq_of_perm _ _ (perm.flatMap_right _)]

/-- For all orders of the same entries, the receiver takes all or fails, and its index holds the
same.  It has the entries, and the directories above them and the root of the mapping, where they
are not entries; the paths are within the limit, and an insert that fails leaves one too many at
most. -/
theorem permissions_ignore_order (formats : Formats Metadata Digest)
    (named : ∀ entry ∈ entries, entry.dst ≠ []) (perm : entries.Perm others) :
    ((∃ permissions, insertAll formats maxEntries entries = .ok permissions) ↔
      ∃ permissions, insertAll formats maxEntries others = .ok permissions) ∧
    ∀ permissions, insertAll formats maxEntries entries = .ok permissions →
      (∀ next, insertAll formats maxEntries others = .ok next →
        permissions.entries = next.entries ∧ permissions.parents = next.parents) ∧
      (∀ path, path ∈ permissions.parents ↔
        (path = [] ∨ ∃ entry ∈ entries, path ∈ ancestors entry.dst) ∧
          path ∉ entries.map ManifestEntry.dst) ∧
      (∀ path, permissions.allows path (some false) = true ↔
        path ∈ entries.map ManifestEntry.dst) ∧
      (∀ path directory, directory ≠ some false → (permissions.allows path directory = true ↔
        path ∈ entries.map ManifestEntry.dst ∨ path = [] ∨
          ∃ entry ∈ entries, path ∈ ancestors entry.dst)) ∧
      (entries ≠ [] → permissions.entries.keys.card + permissions.parents.card ≤ maxEntries) ∧
      ∀ entry, (permissions.insertLeft maxEntries entry).count ≤
          max permissions.count maxEntries + 1 ∧
        ∀ next, permissions.insert formats maxEntries entry = .ok next →
          permissions.insertLeft maxEntries entry = next := by
  have othersNamed : ∀ entry ∈ others, entry.dst ≠ [] :=
    fun entry mem => named entry (perm.mem_iff.mpr mem)
  refine ⟨⟨fun ⟨_, inserts⟩ => exists_insertAll_of_perm named perm inserts,
    fun ⟨_, inserts⟩ => exists_insertAll_of_perm othersNamed perm.symm inserts⟩, ?_⟩
  intro permissions inserts
  rcases insertAll_eq_ok named inserts with ⟨holds, -, fits⟩
  have parents : ∀ path, path ∈ permissions.parents ↔
      (path = [] ∨ ∃ entry ∈ entries, path ∈ ancestors entry.dst) ∧
        path ∉ entries.map ManifestEntry.dst := by
    intro path
    rw [holds.parents]
    simp
  refine ⟨?_, parents, holds.allows_iff, ?_, ?_, ?_⟩
  · intro next nextInserts
    exact holds.eq_of_perm (insertAll_eq_ok othersNamed nextInserts).1 perm
  · intro path directory any
    have listed : path ∈ permissions.entries ↔ path ∈ entries.map ManifestEntry.dst := by
      rw [holds.mem]
      simp
    simp only [Permissions.allows, Bool.or_eq_true, decide_eq_true_eq, Bool.and_eq_true, bne_iff_ne,
      ne_eq, any, not_false_eq_true, listed, parents]
    tauto
  · intro nonempty
    rw [← holds.count_eq nonempty] at fits
    exact fits
  · intro entry
    exact ⟨Permissions.count_insertLeft_le entry, fun next => Permissions.insertLeft_of_insert⟩

/-- A destination and one below it, in both orders. -/
theorem permissions_ignore_order_nested :
    let above : ManifestEntry Unit Unit := ⟨[97], [97], none, none, none⟩
    let below : ManifestEntry Unit Unit := ⟨[97], [97, 47, 98], none, none, none⟩
    ∃ permissions, insertAll .plain 3 [below, above] = .ok permissions :=
  (@permissions_ignore_order _ _ 3 _ _ Formats.plain (by simp) (.swap _ _ _)).1.mp
    ⟨_, rfl⟩

/-- The directory above a destination is no parent where it is a destination, too, and a refused
destination leaves its directory behind. -/
theorem listed_directory_is_no_parent :
    let above : ManifestEntry Unit Unit := ⟨[97], [97], none, none, none⟩
    let below : ManifestEntry Unit Unit := ⟨[97], [97, 47, 98], none, none, none⟩
    (insertAll Formats.plain 3 [above, below]).toOption.map (·.parents) = some {[]} ∧
      [97] ∈ ancestors below.dst ∧
      (Permissions.new.insert Formats.plain 1 below).toOption.isNone ∧
      (Permissions.new.insertLeft 1 below).count = 2 := by
  decide +kernel

end Syq.Mapping
