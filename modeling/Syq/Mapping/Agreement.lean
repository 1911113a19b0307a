import Syq.Lib.Guards
import Syq.Mapping.Chunks

/-!
# Planner and receiver agree on mappings

The planner reads a manifest whole and the receiver line by line, with an index of the
destinations so far.  Both accept the same entries: distinct short destinations, none of
them below one that is declared not to be a directory.
-/

namespace Syq.Mapping

open Syq.Lib List Option

variable {Metadata Digest Hash : Type}

/-! ## Entries of a manifest -/

section Entries

variable (formats : Formats Metadata Digest)

/-- The entry on a line, where it has one. -/
def lineEntry (line : Bytes) : Except String (Option (ManifestEntry Metadata Digest)) := do
  formats.fromUtf8 line
  if (trimLine line).isEmpty then pure none
  else some <$> parseManifestEntry formats (trimLine line)

/-- The entries on the lines of a manifest. -/
def manifestEntries : List Bytes → Except String (List (ManifestEntry Metadata Digest))
  | [] => .ok []
  | line :: rest => do
      let entry ← lineEntry formats line
      let entries ← manifestEntries rest
      pure (entry.toList ++ entries)

/-- The destinations of some entries and the directories above them, the root of the
mapping included. -/
def coveredPaths (entries : List (ManifestEntry Metadata Digest)) : Finset Bytes :=
  (entries.flatMap fun entry => entry.dst :: [] :: ancestors entry.dst).toFinset

/-- What both sides ask of the entries of a restricted mapping. -/
structure Mappable (entries : List (ManifestEntry Metadata Digest)) : Prop where
  short : ∀ entry ∈ entries, entry.dst.length ≤ maxPathBytes
  distinct : (entries.map ManifestEntry.dst).Nodup
  below : ∀ entry ∈ entries, ∀ upper ∈ entries, upper.dst ∈ ancestors entry.dst →
    notDir upper.kind = false

end Entries

theorem not_mem_ancestors_self (path : Bytes) : path ∉ ancestors path := by
  intro mem
  simp only [ancestors, List.mem_map, List.mem_filter] at mem
  rcases mem with ⟨⟨byte, index⟩, ⟨item, -⟩, same⟩
  have bound : index < path.length := (List.mk_mem_zipIdx_iff_getElem?.mp item |>
    List.getElem?_eq_some_iff.mp).1
  have length := congrArg List.length same
  rw [List.length_take] at length
  omega

variable {entry : ManifestEntry Metadata Digest}

/-- A parsed destination is not empty. -/
theorem parseManifestEntry_dst {formats : Formats Metadata Digest} {text : Bytes}
    (parses : parseManifestEntry formats text = .ok entry) : entry.dst ≠ [] := by
  simp only [parseManifestEntry, WirePath.decode, bind_eq_ok_iff, pure_eq_ok_iff] at parses
  rcases parses with ⟨-, -, kind, -, src, -, dst, ⟨bytes, -, ⟨⟩, valid, rfl⟩, rfl⟩
  rintro rfl
  simp [validateManifestPath] at valid

variable {lines : List Bytes} {entries : List (ManifestEntry Metadata Digest)}

theorem manifestEntries_dst {formats : Formats Metadata Digest}
    (parses : manifestEntries formats lines = .ok entries) :
    ∀ entry ∈ entries, entry.dst ≠ [] := by
  induction lines generalizing entries with
  | nil => cases parses; simp
  | cons line rest ih =>
    simp only [manifestEntries, lineEntry, bind_eq_ok_iff, pure_eq_ok_iff] at parses
    rcases parses with ⟨first, ⟨-, -, parse⟩, later, parsesLater, rfl⟩
    intro entry mem
    rcases mem_append.mp mem with mem | mem
    · split at parse
      · cases parse
        cases mem
      · simp only [Functor.map, Except.map] at parse
        split at parse
        · cases parse
        · cases parse
          rw [toList_some, mem_singleton] at mem
          rw [mem]
          exact parseManifestEntry_dst ‹_›
    · exact ih parsesLater entry mem

/-! ## The receiver's index -/

namespace Permissions

variable {formats : Formats Metadata Digest} {maxEntries : Nat}
  {permissions next : Permissions Metadata Digest}

/-- The paths a permission counts. -/
def count (permissions : Permissions Metadata Digest) : Nat :=
  permissions.entries.keys.card + permissions.parents.card

theorem checkLimit_eq_ok_iff {result : Unit} :
    permissions.checkLimit maxEntries = .ok result ↔ permissions.count ≤ maxEntries := by
  simp [checkLimit, count]

/-- The permissions with the directories above a destination noted. -/
def noted (permissions : Permissions Metadata Digest) (above : List Bytes) :
    Permissions Metadata Digest :=
  { permissions with
    parents := permissions.parents ∪ (above.toFinset \ permissions.entries.keys) }

theorem noted_nil : permissions.noted [] = permissions := by
  simp [noted]

theorem noted_cons (parent : Bytes) (above : List Bytes) :
    permissions.noted (parent :: above) = (permissions.noted [parent]).noted above := by
  simp only [noted, mk.injEq, true_and]
  ext path
  simp only [Finset.mem_union, Finset.mem_sdiff, List.mem_toFinset, List.mem_cons, List.not_mem_nil]
  tauto

theorem insertParent_eq_ok_iff {parent : Bytes} :
    permissions.insertParent maxEntries parent = .ok next ↔
      (permissions.entries.lookup parent).any notDir = false ∧
        (parent ∉ permissions.entries → (permissions.noted [parent]).count ≤ maxEntries) ∧
        permissions.noted [parent] = next := by
  rw [insertParent, guard_eq_ok_iff, Bool.not_eq_true]
  apply and_congr_right
  intro _
  by_cases listed : parent ∈ permissions.entries
  · have old : [parent].toFinset \ permissions.entries.keys = ∅ := by
      simpa [Finset.sdiff_eq_empty_iff_subset, Finmap.mem_keys] using listed
    have same : permissions.noted [parent] = permissions := by
      rw [noted, old, Finset.union_empty]
    simp [listed, same]
  · have new : [parent].toFinset \ permissions.entries.keys = {parent} := by
      simpa [Finset.sdiff_eq_self_iff_disjoint, Finmap.mem_keys] using listed
    have added : { permissions with parents := Insert.insert parent permissions.parents } =
        permissions.noted [parent] := by
      rw [noted, new, Finset.union_comm, ← Finset.insert_eq]
    rw [if_neg listed]
    simp only [bind_eq_ok_iff, added, checkLimit_eq_ok_iff]
    simp [listed]

/-- What noting the directories above a destination establishes. -/
theorem insertParents_eq_ok {above : List Bytes}
    (notes : above.foldlM (insertParent maxEntries) permissions = .ok next) :
    next = permissions.noted above ∧
      ∀ parent ∈ above, (permissions.entries.lookup parent).any notDir = false := by
  induction above generalizing permissions with
  | nil =>
    cases notes
    exact ⟨noted_nil.symm, by simp⟩
  | cons parent rest ih =>
    rw [foldlM_cons, bind_eq_ok_iff] at notes
    rcases notes with ⟨middle, first, later⟩
    rcases insertParent_eq_ok_iff.mp first with ⟨dir, -, rfl⟩
    rcases ih later with ⟨nextEq, dirs⟩
    rw [noted_cons, forall_mem_cons]
    exact ⟨nextEq, dir, dirs⟩

theorem count_noted_le (above more : List Bytes) :
    (permissions.noted above).count ≤ (permissions.noted (above ++ more)).count := by
  apply Nat.add_le_add_left
  apply Finset.card_le_card
  apply Finset.union_subset_union_right
  apply Finset.sdiff_subset_sdiff _ (Finset.Subset.refl _)
  intro path mem
  simp only [toFinset_append, Finset.mem_union]
  exact .inl mem

/-- The directories above a destination are noted when none of them is declared otherwise
and they are within the limit. -/
theorem insertParents_of_count {above : List Bytes}
    (dirs : ∀ parent ∈ above, (permissions.entries.lookup parent).any notDir = false)
    (fits : (permissions.noted above).count ≤ maxEntries) :
    above.foldlM (insertParent maxEntries) permissions = .ok (permissions.noted above) := by
  induction above generalizing permissions with
  | nil => rw [noted_nil]; rfl
  | cons parent rest ih =>
    rw [forall_mem_cons] at dirs
    have first : permissions.insertParent maxEntries parent = .ok (permissions.noted [parent]) :=
      insertParent_eq_ok_iff.mpr
        ⟨dirs.1, fun _ => (count_noted_le [parent] rest).trans fits, rfl⟩
    have later : ∀ path ∈ rest, ((permissions.noted [parent]).entries.lookup path).any
        notDir = false := dirs.2
    rw [noted_cons] at fits ⊢
    rw [foldlM_cons, first]
    exact ih later fits

/-- Adding a destination does not lower the count. -/
theorem count_le_add (fresh : entry.dst ∉ permissions.entries) :
    permissions.count ≤ (permissions.add entry).count := by
  have keys : (permissions.add entry).entries.keys =
      Insert.insert entry.dst permissions.entries.keys := by
    ext path
    simp [add, Finmap.mem_keys]
  have parents := Finset.pred_card_le_card_erase (s := permissions.parents) (a := entry.dst)
  rw [count, count, keys, Finset.card_insert_of_notMem (by simpa [Finmap.mem_keys] using fresh)]
  dsimp only [add]
  omega

/-- What the receiver asks of a destination, and what it becomes with it. -/
theorem insert_eq_ok_iff :
    permissions.insert formats maxEntries entry = .ok next ↔
      entry.dst.length ≤ maxPathBytes ∧ entry.dst ∉ permissions.entries ∧
        (notDir entry.kind = true → entry.dst ∉ permissions.parents) ∧
        (∀ parent ∈ ancestors entry.dst, (permissions.entries.lookup parent).any notDir = false) ∧
        next.count ≤ maxEntries ∧
        next = (permissions.noted (ancestors entry.dst)).add entry := by
  simp only [Permissions.insert, guard_eq_ok_iff, bind_eq_ok_iff,
    pure_eq_ok_iff, checkLimit_eq_ok_iff, Bool.and_eq_true, decide_eq_true_eq, not_and,
    Nat.not_lt]
  apply and_congr_right
  intro _
  apply and_congr_right
  intro fresh
  apply and_congr_right
  intro _
  constructor
  · rintro ⟨noted, notes, ⟨⟩, fits, rfl⟩
    rcases insertParents_eq_ok notes with ⟨rfl, dirs⟩
    exact ⟨dirs, fits, rfl⟩
  · rintro ⟨dirs, fits, rfl⟩
    have freshNoted : entry.dst ∉ (permissions.noted (ancestors entry.dst)).entries := fresh
    have notes := insertParents_of_count dirs ((count_le_add freshNoted).trans fits)
    exact ⟨_, notes, ⟨⟩, fits, rfl⟩

/-- What the index holds after some entries: each destination with its kind, and the
directories above them that are not destinations. -/
structure Holds (entries : List (ManifestEntry Metadata Digest))
    (permissions : Permissions Metadata Digest) : Prop where
  lookup : ∀ path kind, permissions.entries.lookup path = some kind ↔
    ∃ entry ∈ entries, entry.dst = path ∧ entry.kind = kind
  parents : ∀ path, path ∈ permissions.parents ↔
    (path = [] ∨ ∃ entry ∈ entries, path ∈ ancestors entry.dst) ∧
      ∀ entry ∈ entries, entry.dst ≠ path

theorem Holds.new : Holds [] (new : Permissions Metadata Digest) where
  lookup := by simp [Permissions.new]
  parents := by simp [Permissions.new]

namespace Holds

variable {entries : List (ManifestEntry Metadata Digest)}
  {entry : ManifestEntry Metadata Digest}

section

variable (holds : Holds entries permissions)

include holds

theorem mem (path : Bytes) : path ∈ permissions.entries ↔ ∃ entry ∈ entries, entry.dst = path :=
  Tabulates.mem_iff holds.lookup path

/-- A path is declared no directory when a destination says so. -/
theorem any_notDir (path : Bytes) :
    (permissions.entries.lookup path).any notDir = false ↔
      ∀ entry ∈ entries, entry.dst = path → notDir entry.kind = false := by
  constructor
  · intro dir entry mem same
    rw [(holds.lookup path entry.kind).mpr ⟨entry, mem, same, rfl⟩] at dir
    exact dir
  · intro dirs
    cases found : permissions.entries.lookup path with
    | none => rfl
    | some kind =>
      rcases (holds.lookup path kind).mp found with ⟨entry, mem, same, rfl⟩
      exact dirs entry mem same

/-- The paths counted are the destinations and the directories above them. -/
theorem count_eq (ne : entries ≠ []) : permissions.count = (coveredPaths entries).card := by
  have apart : Disjoint permissions.entries.keys permissions.parents := by
    rw [Finset.disjoint_left]
    intro path listed parent
    rcases (holds.mem path).mp (Finmap.mem_keys.mp listed) with ⟨entry, mem, same⟩
    exact ((holds.parents path).mp parent).2 entry mem same
  rw [count, ← Finset.card_union_of_disjoint apart]
  congr 1
  ext path
  rw [Finset.mem_union, Finmap.mem_keys, holds.mem, holds.parents]
  simp only [coveredPaths, List.mem_toFinset, List.mem_flatMap, List.mem_cons]
  rcases List.exists_mem_of_ne_nil entries ne with ⟨some, someMem⟩
  constructor
  · rintro (⟨entry, mem, same⟩ | ⟨root | ⟨entry, mem, above⟩, -⟩)
    · exact ⟨entry, mem, .inl same.symm⟩
    · exact ⟨some, someMem, .inr (.inl root)⟩
    · exact ⟨entry, mem, .inr (.inr above)⟩
  · rintro ⟨entry, mem, covers⟩
    by_cases listed : ∃ entry ∈ entries, entry.dst = path
    · exact .inl listed
    · push Not at listed
      rcases covers with same | root | above
      · exact absurd same.symm (listed entry mem)
      · exact .inr ⟨.inl root, listed⟩
      · exact .inr ⟨.inr ⟨entry, mem, above⟩, listed⟩

/-- Adding a destination adds it to what the index holds. -/
theorem add (fresh : entry.dst ∉ permissions.entries) :
    Holds (entries ++ [entry]) ((permissions.noted (ancestors entry.dst)).add entry) where
  lookup := Tabulates.concat holds.lookup fresh
  parents := by
    intro path
    have listed := holds.mem path
    simp only [Permissions.add, noted, Finset.mem_erase, Finset.mem_union, Finset.mem_sdiff,
      List.mem_toFinset, Finmap.mem_keys, holds.parents, listed, List.mem_append,
      List.mem_singleton]
    constructor
    · rintro ⟨other, ⟨above, unlisted⟩ | ⟨above, unlisted⟩⟩
      · refine ⟨above.imp_right fun ⟨lower, mem, isAbove⟩ => ⟨lower, .inl mem, isAbove⟩, ?_⟩
        rintro lower (mem | rfl)
        · exact unlisted lower mem
        · exact Ne.symm other
      · refine ⟨.inr ⟨entry, .inr rfl, above⟩, ?_⟩
        rintro lower (mem | rfl)
        · exact fun same => unlisted ⟨lower, mem, same⟩
        · exact Ne.symm other
    · rintro ⟨above, unlisted⟩
      refine ⟨Ne.symm (unlisted entry (.inr rfl)), ?_⟩
      rcases above with root | ⟨lower, mem | rfl, isAbove⟩
      · exact .inl ⟨.inl root, fun other mem => unlisted other (.inl mem)⟩
      · exact .inl ⟨.inr ⟨lower, mem, isAbove⟩, fun other mem => unlisted other (.inl mem)⟩
      · exact .inr ⟨isAbove, fun ⟨other, mem, same⟩ => unlisted other (.inl mem) same⟩

end

end Holds

end Permissions

/-! ## What both sides accept -/

section Mappable

variable {entries : List (ManifestEntry Metadata Digest)}
  {entry : ManifestEntry Metadata Digest}
variable {permissions next : Permissions Metadata Digest}

/-- One more entry is mappable when it is short and new, no destination above it is
declared otherwise, and it is not declared otherwise above one. -/
theorem mappable_concat_iff :
    Mappable (entries ++ [entry]) ↔
      Mappable entries ∧ entry.dst.length ≤ maxPathBytes ∧
        (∀ other ∈ entries, other.dst ≠ entry.dst) ∧
        (∀ upper ∈ entries, upper.dst ∈ ancestors entry.dst → notDir upper.kind = false) ∧
        (∀ lower ∈ entries, entry.dst ∈ ancestors lower.dst → notDir entry.kind = false) := by
  constructor
  · rintro ⟨short, distinct, below⟩
    simp only [mem_append, mem_singleton] at short below
    rw [map_append, nodup_append] at distinct
    refine ⟨⟨fun other mem => short other (.inl mem), distinct.1, fun other mem upper upperMem =>
      below other (.inl mem) upper (.inl upperMem)⟩, short entry (.inr rfl), ?_,
      fun upper mem => below entry (.inr rfl) upper (.inl mem),
      fun lower mem => below lower (.inl mem) entry (.inr rfl)⟩
    intro other mem
    exact distinct.2.2 other.dst (mem_map_of_mem mem) entry.dst (by simp)
  · rintro ⟨⟨short, distinct, below⟩, shortEntry, fresh, above, under⟩
    constructor
    · simpa [or_imp, forall_and] using ⟨short, shortEntry⟩
    · rw [map_append, nodup_append]
      refine ⟨distinct, by simp, ?_⟩
      rintro path mem other otherMem
      rcases mem_map.mp mem with ⟨lower, lowerMem, rfl⟩
      rw [map_singleton, mem_singleton] at otherMem
      rw [otherMem]
      exact fresh lower lowerMem
    · intro lower lowerMem upper upperMem isAbove
      rw [mem_append, mem_singleton] at lowerMem upperMem
      rcases lowerMem with lowerMem | rfl <;> rcases upperMem with upperMem | rfl
      · exact below lower lowerMem upper upperMem isAbove
      · exact under lower lowerMem isAbove
      · exact above upper upperMem isAbove
      · exact absurd isAbove (not_mem_ancestors_self _)

/-- A new destination is above an earlier one when the index has it as a directory. -/
theorem Permissions.Holds.parent_iff (holds : permissions.Holds entries) (named : entry.dst ≠ [])
    (fresh : ∀ other ∈ entries, other.dst ≠ entry.dst) :
    entry.dst ∈ permissions.parents ↔ ∃ lower ∈ entries, entry.dst ∈ ancestors lower.dst := by
  rw [holds.parents]
  constructor
  · rintro ⟨root | above, -⟩
    · exact absurd root named
    · exact above
  · intro above
    exact ⟨.inr above, fresh⟩

variable {formats : Formats Metadata Digest} {maxEntries : Nat}

/-- The receiver takes one more entry when it stays mappable and within the limit. -/
theorem Permissions.Holds.insert_iff (holds : permissions.Holds entries)
    (mappable : Mappable entries) (named : entry.dst ≠ []) :
    permissions.insert formats maxEntries entry = .ok next ↔
      Mappable (entries ++ [entry]) ∧ (coveredPaths (entries ++ [entry])).card ≤ maxEntries ∧
        next = (permissions.noted (ancestors entry.dst)).add entry := by
  have listed : entry.dst ∉ permissions.entries ↔ ∀ other ∈ entries, other.dst ≠ entry.dst := by
    rw [holds.mem]
    push Not
    exact Iff.rfl
  have counted (fresh : entry.dst ∉ permissions.entries) :
      ((permissions.noted (ancestors entry.dst)).add entry).count =
        (coveredPaths (entries ++ [entry])).card :=
    (holds.add fresh).count_eq (by simp)
  rw [Permissions.insert_eq_ok_iff, mappable_concat_iff]
  constructor
  · rintro ⟨short, fresh, notParent, dirs, fits, rfl⟩
    rw [counted fresh] at fits
    refine ⟨⟨mappable, short, listed.mp fresh, ?_, ?_⟩, fits, rfl⟩
    · intro upper mem above
      exact (holds.any_notDir upper.dst).mp (dirs upper.dst above) upper mem rfl
    · intro lower mem above
      by_contra declared
      apply notParent (by simpa using declared)
      exact (holds.parent_iff named (listed.mp fresh)).mpr ⟨lower, mem, above⟩
  · rintro ⟨⟨-, short, fresh, above, under⟩, fits, rfl⟩
    rw [← counted (listed.mpr fresh)] at fits
    refine ⟨short, listed.mpr fresh, ?_, ?_, fits, rfl⟩
    · intro declared parent
      rcases (holds.parent_iff named fresh).mp parent with ⟨lower, mem, isAbove⟩
      rw [under lower mem isAbove] at declared
      cases declared
    · intro parent isAbove
      rw [holds.any_notDir]
      rintro upper mem rfl
      exact above upper mem isAbove

variable (formats maxEntries) in
/-- Insert entries one after another. -/
def insertAll (entries : List (ManifestEntry Metadata Digest)) :
    Except String (Permissions Metadata Digest) :=
  entries.foldlM (fun permissions entry => permissions.insert formats maxEntries entry) .new

/-- The entries the receiver has taken are mappable and within its limit. -/
theorem insertAll_eq_ok (named : ∀ entry ∈ entries, entry.dst ≠ [])
    (inserts : insertAll formats maxEntries entries = .ok permissions) :
    permissions.Holds entries ∧ Mappable entries ∧
      (coveredPaths entries).card ≤ maxEntries := by
  induction entries using reverseRecOn generalizing permissions with
  | nil =>
    cases inserts
    exact ⟨.new, ⟨by simp, by simp, by simp⟩, by simp [coveredPaths]⟩
  | append_singleton entries entry ih =>
    rw [forall_mem_append, forall_mem_singleton] at named
    rcases foldlM_concat_eq_ok_iff.mp inserts with ⟨before, earlier, last⟩
    rcases ih named.1 earlier with ⟨holds, mappable, -⟩
    rcases (holds.insert_iff mappable named.2).mp last with ⟨more, fits, rfl⟩
    have fresh := (Permissions.insert_eq_ok_iff.mp last).2.1
    exact ⟨holds.add fresh, more, fits⟩

/-- Mappable entries within its limit are taken by the receiver. -/
theorem exists_insertAll (named : ∀ entry ∈ entries, entry.dst ≠ []) (mappable : Mappable entries)
    (fits : (coveredPaths entries).card ≤ maxEntries) :
    ∃ permissions, insertAll formats maxEntries entries = .ok permissions := by
  induction entries using reverseRecOn with
  | nil => exact ⟨.new, rfl⟩
  | append_singleton entries entry ih =>
    rw [forall_mem_append, forall_mem_singleton] at named
    have earlier := (mappable_concat_iff.mp mappable).1
    have fewer : coveredPaths entries ⊆ coveredPaths (entries ++ [entry]) := by
      intro path mem
      simp only [coveredPaths, flatMap_append, toFinset_append, Finset.mem_union] at mem ⊢
      exact .inl mem
    rcases ih named.1 earlier ((Finset.card_le_card fewer).trans fits) with ⟨before, inserts⟩
    have holds := (insertAll_eq_ok named.1 inserts).1
    have last : before.insert formats maxEntries entry = .ok _ :=
      (holds.insert_iff earlier named.2).mpr ⟨mappable, fits, rfl⟩
    exact ⟨_, foldlM_concat_eq_ok_iff.mpr ⟨before, inserts, last⟩⟩

/-- The receiver takes a line by taking its entry. -/
theorem admitText_eq_ok_iff {line : Bytes} :
    admitText formats maxEntries permissions line = .ok next ↔
      ∃ entry, lineEntry formats line = .ok entry ∧
        entry.toList.foldlM (fun permissions entry =>
          permissions.insert formats maxEntries entry) permissions = .ok next := by
  simp only [admitText, lineEntry]
  cases formats.fromUtf8 line with
  | error error => simp [bind, Except.bind]
  | ok _ =>
    by_cases empty : (trimLine line).isEmpty
    · simp [bind, Except.bind, empty]
    · cases parseManifestEntry formats (trimLine line) <;>
        simp [bind, Except.bind, empty, Functor.map, Except.map, pure, Except.pure]

theorem admitLines_foldlM_eq_ok_iff :
    lines.foldlM (admitLine formats maxEntries) permissions = .ok next ↔
      (∀ line ∈ lines, line.length ≤ chunkBytes) ∧
        ∃ entries, manifestEntries formats lines = .ok entries ∧
          entries.foldlM (fun permissions entry =>
            permissions.insert formats maxEntries entry) permissions = .ok next := by
  induction lines generalizing permissions with
  | nil => simp [manifestEntries]
  | cons line rest ih =>
    simp only [foldlM_cons, admitLine, bind_eq_ok_iff, guard_eq_ok_iff,
      ih, admitText_eq_ok_iff, manifestEntries, pure_eq_ok_iff,
      forall_mem_cons, Nat.not_lt]
    constructor
    · rintro ⟨middle, ⟨short, entry, parse, inserts⟩, shortRest, entries, parses, later⟩
      refine ⟨⟨short, shortRest⟩, _, ⟨entry, parse, entries, parses, rfl⟩, ?_⟩
      rw [foldlM_append, inserts]
      exact later
    · rintro ⟨⟨short, shortRest⟩, _, ⟨entry, parse, entries, parses, rfl⟩, inserts⟩
      rw [foldlM_append, bind_eq_ok_iff] at inserts
      rcases inserts with ⟨middle, inserts, later⟩
      exact ⟨middle, ⟨short, entry, parse, inserts⟩, shortRest, entries, parses, later⟩

end Mappable

/-! ## The planner's reading -/

section Planner

variable {formats : Formats Metadata Digest} {declared : Declared}

/-- What the planner notes of a line and its entry. -/
structure Reads (lines : List Bytes) (entries : List (ManifestEntry Metadata Digest))
    (before after : Reading Metadata Digest) : Prop where
  noted : after.entries.map Prod.snd = before.entries.map Prod.snd ++ entries
  bounds : after.restrictedBoundsError = none ↔ before.restrictedBoundsError = none ∧
    (∀ line ∈ lines, line.length ≤ chunkBytes) ∧
    ∀ entry ∈ entries, entry.dst.length ≤ maxPathBytes

theorem Reads.trans {first second : List Bytes}
    {earlier later : List (ManifestEntry Metadata Digest)}
    {before middle after : Reading Metadata Digest} (reads : Reads first earlier before middle)
    (more : Reads second later middle after) :
    Reads (first ++ second) (earlier ++ later) before after where
  noted := by rw [more.noted, reads.noted, List.append_assoc]
  bounds := by
    rw [more.bounds, reads.bounds, forall_mem_append, forall_mem_append]
    tauto

/-- A line is read when its entry is parsed. -/
theorem readLine_eq_ok {reading next : Reading Metadata Digest} {line : Bytes}
    (reads : readLine formats reading line = .ok next) :
    ∃ entry, lineEntry formats line = .ok entry ∧ Reads [line] entry.toList reading next := by
  rw [readLine, bind_eq_ok_iff] at reads
  rcases reads with ⟨⟨⟩, utf8, reads⟩
  rw [mapError_eq_ok_iff] at utf8
  rw [lineEntry, utf8]
  by_cases empty : (trimLine line).isEmpty = true
  · rw [if_pos empty] at reads
    cases reads
    refine ⟨none, by simp [empty, bind, Except.bind, pure, Except.pure], by simp, ?_⟩
    simp
  · rw [if_neg empty] at reads
    simp only [bind_eq_ok_iff, mapError_eq_ok_iff, pure_eq_ok_iff] at reads
    rcases reads with ⟨entry, parse, rfl⟩
    refine ⟨some entry, by simp [empty, bind, Except.bind, parse, Functor.map, Except.map],
      by simp, ?_⟩
    simp [and_assoc]

theorem exists_readLine {line : Bytes} {entry : Option (ManifestEntry Metadata Digest)}
    (parse : lineEntry formats line = .ok entry) (reading : Reading Metadata Digest) :
    ∃ next, readLine formats reading line = .ok next := by
  rw [lineEntry, bind_eq_ok_iff] at parse
  rcases parse with ⟨⟨⟩, utf8, parse⟩
  rw [readLine, utf8]
  by_cases empty : (trimLine line).isEmpty = true
  · exact ⟨_, by simp [empty, bind, Except.bind, Except.mapError]; rfl⟩
  · rw [if_neg empty] at parse
    cases parses : parseManifestEntry formats (trimLine line) with
    | error error => rw [parses] at parse; cases parse
    | ok entry => exact ⟨_, by simp [empty, bind, Except.bind, Except.mapError, parses]; rfl⟩

theorem readLines_eq_ok {reading last : Reading Metadata Digest}
    (reads : lines.foldlM (readLine formats) reading = .ok last) :
    ∃ entries, manifestEntries formats lines = .ok entries ∧ Reads lines entries reading last := by
  induction lines generalizing reading with
  | nil =>
    cases reads
    exact ⟨[], rfl, by simp, by simp⟩
  | cons line rest ih =>
    rw [foldlM_cons, bind_eq_ok_iff] at reads
    rcases reads with ⟨middle, first, later⟩
    rcases readLine_eq_ok first with ⟨entry, parse, readsFirst⟩
    rcases ih later with ⟨entries, parses, readsLater⟩
    refine ⟨entry.toList ++ entries, ?_, readsFirst.trans readsLater⟩
    rw [manifestEntries, parse, parses]
    rfl

theorem exists_readLines
    (parses : manifestEntries formats lines = .ok entries) (reading : Reading Metadata Digest) :
    ∃ last, lines.foldlM (readLine formats) reading = .ok last := by
  induction lines generalizing entries reading with
  | nil => exact ⟨reading, rfl⟩
  | cons line rest ih =>
    simp only [manifestEntries, bind_eq_ok_iff] at parses
    rcases parses with ⟨entry, parse, later, parsesLater, -⟩
    rcases exists_readLine parse reading with ⟨middle, first⟩
    rcases ih parsesLater middle with ⟨last, reads⟩
    exact ⟨last, by rw [foldlM_cons, first]; exact reads⟩

/-! ## The planner's destinations -/

/-- What is declared: each destination with its line and kind. -/
def Declares (destinations : List Destination) (declared : Declared) : Prop :=
  ∀ path value, declared.lookup path = some value ↔
    ∃ destination ∈ destinations, destination.path = path ∧
      (destination.line, destination.kind) = value

variable {dests : List Destination}

theorem Declares.mem (declares : Declares dests declared)
    (path : Bytes) : path ∈ declared ↔ ∃ dest ∈ dests, dest.path = path :=
  Tabulates.mem_iff declares path

/-- Destinations that are declared are distinct. -/
theorem declareAll_eq_ok (declares : dests.foldlM (declare formats) ∅ = .ok declared) :
    (dests.map Destination.path).Nodup ∧ Declares dests declared := by
  induction dests using reverseRecOn generalizing declared with
  | nil =>
    cases declares
    exact ⟨by simp, by simp [Declares]⟩
  | append_singleton dests dest ih =>
    rcases foldlM_concat_eq_ok_iff.mp declares with ⟨before, earlier, last⟩
    rcases ih earlier with ⟨distinct, declaresBefore⟩
    rw [declare, guard_eq_ok_iff] at last
    rcases last with ⟨fresh, ⟨⟩⟩
    refine ⟨?_, Tabulates.concat declaresBefore fresh⟩
    rw [declaresBefore.mem] at fresh
    rw [map_append, nodup_append]
    refine ⟨distinct, by simp, ?_⟩
    rintro path mem other otherMem rfl
    rcases mem_map.mp mem with ⟨earlier, earlierMem, same⟩
    exact fresh ⟨earlier, earlierMem, same.trans (mem_singleton.mp otherMem)⟩

/-- Distinct destinations are declared. -/
theorem exists_declareAll (distinct : (dests.map Destination.path).Nodup) :
    ∃ declared, dests.foldlM (declare formats) ∅ = .ok declared := by
  induction dests using reverseRecOn with
  | nil => exact ⟨∅, rfl⟩
  | append_singleton dests dest ih =>
    rw [map_append, nodup_append] at distinct
    rcases ih distinct.1 with ⟨before, earlier⟩
    have fresh : dest.path ∉ before := by
      rw [(declareAll_eq_ok earlier).2.mem]
      rintro ⟨other, mem, same⟩
      exact distinct.2.2 other.path (mem_map_of_mem mem) dest.path (by simp) same
    have last : declare formats before dest = .ok _ :=
      guard_eq_ok_iff.mpr ⟨fresh, rfl⟩
    exact ⟨_, foldlM_concat_eq_ok_iff.mpr ⟨before, earlier, last⟩⟩

theorem checkAncestor_eq_ok_iff
    (declares : Declares dests declared) (dest : Destination) (ancestor : Bytes) :
    checkAncestor formats declared dest ancestor = .ok () ↔
      ∀ upper ∈ dests, upper.path = ancestor → notDir upper.kind = false := by
  constructor
  · intro checks upper mem same
    rw [checkAncestor, (declares ancestor _).mpr ⟨upper, mem, same, rfl⟩] at checks
    cases kind : upper.kind with
    | none => rfl
    | some kind' =>
      rw [kind] at checks
      simp only [ite_eq_left_iff, reduceCtorEq, imp_false, not_not] at checks
      rw [checks]
      rfl
  · intro dirs
    rw [checkAncestor]
    split
    · rename_i found
      rcases (declares ancestor _).mp found with ⟨upper, mem, same, value⟩
      have dir := dirs upper mem same
      have kind := (Prod.ext_iff.mp value).2
      dsimp only at kind
      rw [kind] at dir
      rw [if_pos (by simpa [notDir] using dir)]
    · rfl

/-- The planner accepts destinations that are distinct and not below one that is declared
no directory. -/
theorem validateDestinations_eq_ok_iff {destinations : List Destination} :
    validateDestinations formats destinations = .ok () ↔
      (destinations.map Destination.path).Nodup ∧
        ∀ lower ∈ destinations, ∀ upper ∈ destinations, upper.path ∈ ancestors lower.path →
          notDir upper.kind = false := by
  rw [validateDestinations, bind_eq_ok_iff]
  simp only [forM_eq_ok_iff]
  constructor
  · rintro ⟨declared, declares, checks⟩
    rcases declareAll_eq_ok declares with ⟨distinct, declares⟩
    refine ⟨distinct, fun lower lowerMem upper upperMem above => ?_⟩
    exact (checkAncestor_eq_ok_iff declares lower upper.path).mp
      (checks lower lowerMem upper.path above) upper upperMem rfl
  · rintro ⟨distinct, below⟩
    rcases exists_declareAll distinct with ⟨declared, declares⟩
    refine ⟨declared, declares, fun lower lowerMem ancestor above => ?_⟩
    rw [checkAncestor_eq_ok_iff (declareAll_eq_ok declares).2]
    rintro upper upperMem rfl
    exact below lower lowerMem upper upperMem above

end Planner

/-! ## Planner and receiver -/

namespace ParsedManifest

/-- The entries of a manifest. -/
def manifestEntries (manifest : ParsedManifest Metadata Digest) :
    List (ManifestEntry Metadata Digest) :=
  manifest.entries.map Prod.snd

/-- The destinations of a manifest. -/
def destinations (manifest : ParsedManifest Metadata Digest) : List Bytes :=
  manifest.manifestEntries.map ManifestEntry.dst

/-- The destinations of a manifest and the directories above them, counted. -/
def pathCount (manifest : ParsedManifest Metadata Digest) : Nat :=
  (coveredPaths manifest.manifestEntries).card

end ParsedManifest

section Both

variable {formats : Formats Metadata Digest} {contents : Contents}

/-- The planner's check of a manifest's destinations is about its entries. -/
theorem validateEntries_eq_ok_iff (numbered : List (Nat × ManifestEntry Metadata Digest)) :
    validateDestinations formats
        (numbered.map fun entry => ⟨entry.1, entry.2.dst, entry.2.kind⟩) = .ok () ↔
      ((numbered.map Prod.snd).map ManifestEntry.dst).Nodup ∧
        ∀ lower ∈ numbered.map Prod.snd, ∀ upper ∈ numbered.map Prod.snd,
          upper.dst ∈ ancestors lower.dst → notDir upper.kind = false := by
  rw [validateDestinations_eq_ok_iff, List.map_map, List.map_map]
  simp only [List.forall_mem_map]
  exact Iff.rfl

theorem validateRestrictedBounds_eq_ok_iff {input : Input} :
    input.validateRestrictedBounds = .ok () ↔ input.restrictedBoundsError = none := by
  rw [Input.validateRestrictedBounds]
  cases input.restrictedBoundsError <;> simp

/-- The planner accepts a manifest for a restricted receiver when its lines are within the
bounds and its entries are mappable. -/
theorem plan_iff :
    (∃ manifest, readMappingManifest formats contents = .ok manifest ∧
      manifest.input.validateRestrictedBounds = .ok () ∧ manifest.manifestEntries = entries) ↔
      (∀ line ∈ splitInclusive 10 contents.val, line.length ≤ chunkBytes) ∧
        manifestEntries formats (splitInclusive 10 contents.val) = .ok entries ∧
        Mappable entries := by
  simp only [readMappingManifest, parsedManifest, bind_eq_ok_iff, pure_eq_ok_iff,
    validateRestrictedBounds_eq_ok_iff]
  constructor
  · rintro ⟨_, ⟨reading, reads, ⟨⟩, valid, rfl⟩, bounds, rfl⟩
    rcases readLines_eq_ok reads with ⟨entries, parses, noted, bounded⟩
    rcases bounded.mp bounds with ⟨-, lines, short⟩
    rcases (validateEntries_eq_ok_iff _).mp valid with ⟨distinct, below⟩
    have same : reading.entries.map Prod.snd = entries := noted
    rw [same] at distinct below
    dsimp only [ParsedManifest.manifestEntries]
    rw [same]
    exact ⟨lines, parses, short, distinct, below⟩
  · rintro ⟨lines, parses, short, distinct, below⟩
    rcases exists_readLines parses ⟨0, [], none⟩ with ⟨reading, reads⟩
    rcases readLines_eq_ok reads with ⟨read, parsesRead, noted, bounded⟩
    obtain rfl : entries = read := Except.ok.inj (parses.symm.trans parsesRead)
    have same : reading.entries.map Prod.snd = entries := noted
    have valid : validateDestinations formats _ = .ok () :=
      (validateEntries_eq_ok_iff reading.entries).mpr (by rw [same]; exact ⟨distinct, below⟩)
    exact ⟨_, ⟨reading, reads, ⟨⟩, valid, rfl⟩, bounded.mpr ⟨rfl, lines, short⟩, same⟩

variable [DecidableEq Hash] {hash : Bytes → Hash} {maxEntries : Nat}

/-- The receiver admits a whole manifest when its lines are within the bounds and its
entries are mappable and within the limit. -/
theorem admitWhole_fromContents_iff {permissions : Permissions Metadata Digest} :
    admitWhole formats maxEntries hash (.fromContents hash contents) contents.val =
        .ok permissions ↔
      (∀ line ∈ splitInclusive 10 contents.val, line.length ≤ chunkBytes) ∧
        ∃ entries, manifestEntries formats (splitInclusive 10 contents.val) = .ok entries ∧
          insertAll formats maxEntries entries = .ok permissions := by
  rw [admitWhole, if_neg (by simp [Authorization.fromContents]), admitLines,
    admitLines_foldlM_eq_ok_iff]
  rfl

theorem Permissions.Holds.allows_iff {perms : Permissions Metadata Digest}
    (holds : perms.Holds entries) (path : Bytes) :
    perms.allows path (some false) = true ↔ path ∈ entries.map ManifestEntry.dst := by
  simp [Permissions.allows, holds.mem]

end Both

/-- The planner's acceptance of a manifest for a restricted receiver, with its paths within
the receiver's limit, is the receiver's acceptance of its bytes, however they are cut into
chunks; and what the receiver allows as files are the manifest's destinations. -/
theorem planner_and_receiver_agree [DecidableEq Hash] (formats : Formats Metadata Digest)
    (hash : Bytes → Hash) (maxEntries : Nat) (contents : Contents) (chunks : List Bytes)
    (nonempty : chunks ≠ []) (within : ∀ data ∈ chunks, data.length ≤ chunkBytes)
    (split : chunks.flatten = contents.val) :
    let outcome := (Admission.new (.fromContents hash contents) maxEntries).appendAll formats
      hash (inOrder 0 chunks)
    (∀ manifest, readMappingManifest formats contents = .ok manifest →
      manifest.input.validateRestrictedBounds = .ok () → manifest.pathCount ≤ maxEntries →
        (∀ result ∈ outcome.1, result.isOk = true) ∧
          ∃ permissions, outcome.2.permissions = some permissions ∧
            ∀ path, permissions.allows path (some false) = true ↔ path ∈ manifest.destinations) ∧
    ((∀ result ∈ outcome.1, result.isOk = true) →
      ∃ manifest, readMappingManifest formats contents = .ok manifest ∧
        manifest.input.validateRestrictedBounds = .ok () ∧ manifest.pathCount ≤ maxEntries ∧
        ∃ permissions, outcome.2.permissions = some permissions ∧
          ∀ path, permissions.allows path (some false) = true ↔ path ∈ manifest.destinations) := by
  intro outcome
  rcases Admission.new_appendAll_inOrder formats hash (.fromContents hash contents) maxEntries
    nonempty within with ⟨verdict, given⟩
  rw [split] at verdict given
  constructor
  · intro manifest reads bounds count
    rcases plan_iff.mp ⟨manifest, reads, bounds, rfl⟩ with ⟨lines, parses, mappable⟩
    rcases exists_insertAll (manifestEntries_dst parses) mappable count with
      ⟨permissions, inserts⟩
    have admits : admitWhole formats maxEntries hash (.fromContents hash contents) contents.val =
        .ok permissions := admitWhole_fromContents_iff.mpr ⟨lines, _, parses, inserts⟩
    rw [admits] at verdict given
    have holds := (insertAll_eq_ok (manifestEntries_dst parses) inserts).1
    exact ⟨verdict.mpr rfl, permissions, given, holds.allows_iff⟩
  · intro accepted
    cases admits : admitWhole formats maxEntries hash (.fromContents hash contents)
        contents.val with
    | error error =>
      rw [admits] at verdict
      cases verdict.mp accepted
    | ok permissions =>
      rw [admits] at given
      rcases admitWhole_fromContents_iff.mp admits with ⟨lines, entries, parses, inserts⟩
      rcases insertAll_eq_ok (manifestEntries_dst parses) inserts with ⟨holds, mappable, count⟩
      rcases plan_iff.mpr ⟨lines, parses, mappable⟩ with ⟨manifest, reads, bounds, rfl⟩
      exact ⟨manifest, reads, bounds, count, permissions, given, holds.allows_iff⟩

/-- Two destinations, one below the other, in three chunks. -/
theorem planner_and_receiver_agree_on_nested :
    let contents : Contents := ⟨[97, 47, 98, 10, 97, 10], by decide⟩
    let outcome := (Admission.new (.fromContents id contents) 3).appendAll .plain id
      (inOrder 0 [[97, 47], [98, 10, 97], [10]])
    (∀ result ∈ outcome.1, result.isOk = true) ∧
      ∃ permissions, outcome.2.permissions = some permissions ∧
        ∀ path, permissions.allows path (some false) = true ↔ path ∈ [[97, 47, 98], [97]] := by
  intro contents outcome
  have agree := planner_and_receiver_agree Formats.plain id 3 contents
    [[97, 47], [98, 10, 97], [10]] (by decide) (by decide) rfl
  have planned : ((readMappingManifest Formats.plain contents).toOption.map fun manifest =>
      (manifest.input.restrictedBoundsError, manifest.destinations, manifest.pathCount)) =
        some (none, [[97, 47, 98], [97]], 3) := by decide +kernel
  rcases map_eq_some_iff.mp planned with ⟨manifest, read, facts⟩
  simp only [Prod.mk.injEq] at facts
  rw [← facts.2.1]
  apply agree.1 manifest
  · cases reads : readMappingManifest Formats.plain contents with
    | error error => rw [reads] at read; cases read
    | ok other =>
      rw [reads] at read
      cases read
      rfl
  · exact validateRestrictedBounds_eq_ok_iff.mpr facts.1
  · exact facts.2.2.le

/-! ## Sending -/

/-- What `send` sends of a manifest is taken whole just when the planner accepts the manifest
and its paths fit.  The receiver then allows the manifest's destinations for every request, and
the directories above them and the root for requests that may be about a directory, and nothing
else. -/
theorem sent_mapping_grants_its_paths [DecidableEq Hash] (formats : Formats Metadata Digest)
    (hash : Bytes → Hash) (maxEntries : Nat) (contents : Contents) :
    let outcome := (Admission.new (.fromContents hash contents) maxEntries).appendAll formats
      hash (send contents.val)
    ((∀ result ∈ outcome.1, result.isOk = true) ↔
      ∃ manifest, readMappingManifest formats contents = .ok manifest ∧
        manifest.input.validateRestrictedBounds = .ok () ∧ manifest.pathCount ≤ maxEntries) ∧
    ∀ manifest, readMappingManifest formats contents = .ok manifest →
      (∀ result ∈ outcome.1, result.isOk = true) →
        ∃ permissions, outcome.2.permissions = some permissions ∧
          ∀ path directory, permissions.allows path directory = true ↔
            path ∈ manifest.destinations ∨ directory ≠ some false ∧
              (path = [] ∨ ∃ dst ∈ manifest.destinations, path ∈ ancestors dst) := by
  intro outcome
  rcases send_eq_inOrder contents.val with ⟨chunks, nonempty, within, split, sent⟩
  rcases Admission.new_appendAll_inOrder formats hash (.fromContents hash contents) maxEntries
    nonempty within with ⟨verdict, given⟩
  rw [← sent, split] at verdict given
  rw [verdict, given]
  cases admits : admitWhole formats maxEntries hash (.fromContents hash contents) contents.val with
  | error error =>
    refine ⟨iff_of_false nofun ?_, nofun⟩
    rintro ⟨manifest, reads, bounds, count⟩
    rcases plan_iff.mp ⟨manifest, reads, bounds, rfl⟩ with ⟨lines, parses, mappable⟩
    rcases exists_insertAll (manifestEntries_dst parses) mappable count with ⟨permissions, inserts⟩
    cases admits.symm.trans (admitWhole_fromContents_iff.mpr ⟨lines, _, parses, inserts⟩)
  | ok permissions =>
    rcases admitWhole_fromContents_iff.mp admits with ⟨lines, entries, parses, inserts⟩
    rcases insertAll_eq_ok (manifestEntries_dst parses) inserts with ⟨holds, mappable, count⟩
    rcases plan_iff.mpr ⟨lines, parses, mappable⟩ with ⟨manifest, reads, bounds, rfl⟩
    refine ⟨iff_of_true rfl ⟨manifest, reads, bounds, count⟩, ?_⟩
    intro other otherReads _
    cases reads.symm.trans otherReads
    refine ⟨permissions, rfl, fun path directory => ?_⟩
    have unlisted : (∀ entry ∈ manifest.manifestEntries, entry.dst ≠ path) ↔
        ¬ ∃ entry ∈ manifest.manifestEntries, entry.dst = path := by simp
    simp only [Permissions.allows, Bool.or_eq_true, Bool.and_eq_true, decide_eq_true_eq,
      bne_iff_ne, holds.mem, holds.parents, unlisted, ParsedManifest.destinations, List.mem_map,
      exists_exists_and_eq_and]
    by_cases listed : ∃ entry ∈ manifest.manifestEntries, entry.dst = path
    · simp only [listed, true_or]
    · simp only [listed, false_or, not_false_eq_true, and_true]

end Syq.Mapping
