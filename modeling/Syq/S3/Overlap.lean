import Syq.Lib.PathSet

/-!
# The overlap check of a server-side copy

Sources and targets are keys, or prefixes that stand for every key that starts with them.  A copy
within one bucket is refused if some source and some target have a key in common.  The check looks
up each target in the ordered sets of the sources and does not compare pairs.
-/

namespace Syq.S3

open Syq.Lib

/-- A key, and whether it stands for all keys that start with it. -/
structure Selected where
  key : List UInt8
  isPrefix : Bool

namespace Selected

def Covers (selected : Selected) (key : List UInt8) : Prop :=
  if selected.isPrefix then selected.key <+: key else key = selected.key

/-- Two selections have a key in common. -/
def Meets (source target : Selected) : Prop :=
  ∃ key, source.Covers key ∧ target.Covers key

/-- A prefix is empty or ends in a slash. -/
def Closed (selected : Selected) : Prop :=
  selected.isPrefix = true → selected.key = [] ∨ selected.key.getLast? = some slash

theorem covers_self (selected : Selected) : selected.Covers selected.key := by
  unfold Covers
  split_ifs
  · exact List.prefix_rfl
  · rfl

end Selected

open Selected

/-- The sources that are prefixes, or those that are not. -/
def selectedKeys (isPrefix : Bool) (sources : List Selected) : PathSet :=
  ((sources.filter fun source => source.isPrefix == isPrefix).map key).foldl PathSet.insert .empty

/-- Whether a target meets one of the sources. -/
def overlaps (exactKeys prefixes : PathSet) (target : Selected) : Bool :=
  let ⟨key, isPrefix⟩ := target
  let insideSource := decide ([] ∈ prefixes) ||
    (above key).any fun parent => decide (parent ++ [slash] ∈ prefixes)
  let containsSource := isPrefix && (exactKeys.anyFrom key || prefixes.anyFrom key)
  decide (key ∈ exactKeys) || insideSource || containsSource

def checkOverlap (sources targets : List Selected) : Except String Unit :=
  let exactKeys := selectedKeys false sources
  let prefixes := selectedKeys true sources
  targets.forM fun target =>
    if overlaps exactKeys prefixes target then
      .error "S3 source and destination paths overlap in the same bucket"
    else .ok ()

variable {sources targets : List Selected} {key : List UInt8} {isPrefix : Bool}

theorem mem_foldl_insert {keys : List (List UInt8)} {set : PathSet} :
    key ∈ keys.foldl PathSet.insert set ↔ key ∈ keys ∨ key ∈ set := by
  induction keys generalizing set with
  | nil => simp
  | cons first rest ih =>
    rw [List.foldl_cons, ih, PathSet.mem_insert, List.mem_cons]
    tauto

theorem mem_selectedKeys : key ∈ selectedKeys isPrefix sources ↔ ⟨key, isPrefix⟩ ∈ sources := by
  simp only [selectedKeys, mem_foldl_insert, List.mem_map, List.mem_filter, beq_iff_eq,
    PathSet.not_mem_empty, or_false]
  constructor
  · rintro ⟨source, ⟨mem, rfl⟩, rfl⟩
    exact mem
  · intro mem
    exact ⟨_, ⟨mem, rfl⟩, rfl⟩

/-- Every prefix of the sources that a key starts with is found at one of the key's slashes. -/
theorem insideSource_iff (closed : ∀ source ∈ sources, source.Closed) :
    [] ∈ selectedKeys true sources ∨
        (∃ parent ∈ above key, parent ++ [slash] ∈ selectedKeys true sources) ↔
      ∃ start, ⟨start, true⟩ ∈ sources ∧ start <+: key := by
  simp only [mem_selectedKeys]
  constructor
  · rintro (whole | ⟨parent, isAbove, mem⟩)
    · exact ⟨[], whole, List.nil_prefix⟩
    · rcases mem_above_iff.mp isAbove with ⟨rest, rfl⟩
      exact ⟨_, mem, rest, by simp⟩
  · rintro ⟨start, mem, rest, rfl⟩
    rcases closed _ mem rfl with empty | ends
    · left
      rwa [← empty]
    · right
      rcases List.getLast?_eq_some_iff.mp ends with ⟨parent, split⟩
      refine ⟨parent, mem_above_iff.mpr ⟨rest, ?_⟩, ?_⟩
      · simp_all
      · rwa [← split]

/-- The looks at the ordered sets find every source that meets the target. -/
theorem overlaps_iff (closed : ∀ source ∈ sources, source.Closed) (target : Selected) :
    overlaps (selectedKeys false sources) (selectedKeys true sources) target = true ↔
      ∃ source ∈ sources, source.Meets target := by
  rcases target with ⟨key, isPrefix⟩
  have inside := @insideSource_iff sources key closed
  simp only [overlaps, Bool.or_eq_true, Bool.and_eq_true, decide_eq_true_eq, List.any_eq_true,
    PathSet.anyFrom_iff, inside]
  simp only [mem_selectedKeys]
  constructor
  · rintro ((same | ⟨start, mem, starts⟩) | ⟨rfl, ⟨path, mem, starts⟩ | ⟨path, mem, starts⟩⟩)
    · exact ⟨_, same, key, covers_self _, covers_self ⟨key, isPrefix⟩⟩
    · exact ⟨_, mem, key, starts, covers_self ⟨key, isPrefix⟩⟩
    · exact ⟨_, mem, path, covers_self _, starts⟩
    · exact ⟨_, mem, path, covers_self _, starts⟩
  · rintro ⟨⟨start, _ | _⟩, mem, common, inSource, inTarget⟩
    · obtain rfl : common = start := inSource
      cases isPrefix with
      | false =>
        obtain rfl : common = key := inTarget
        exact .inl (.inl mem)
      | true => exact .inr ⟨rfl, .inl ⟨common, mem, inTarget⟩⟩
    · change start <+: common at inSource
      cases isPrefix with
      | false =>
        obtain rfl : common = key := inTarget
        exact .inl (.inr ⟨start, mem, inSource⟩)
      | true =>
        -- Of two prefixes of one key the shorter is a prefix of the longer.
        rcases List.prefix_or_prefix_of_prefix inSource inTarget with outer | inner
        · exact .inl (.inr ⟨start, mem, outer⟩)
        · exact .inr ⟨rfl, .inr ⟨start, mem, inner⟩⟩

theorem forM_refuse {refuse : Selected → Bool} {error : String} :
    targets.forM (fun target => if refuse target then Except.error error else Except.ok ()) =
      if targets.any refuse then .error error else .ok () := by
  induction targets with
  | nil => rfl
  | cons target rest ih =>
    rw [List.forM, ih]
    cases refused : refuse target <;> simp [refused, bind, Except.bind]

/-- The check fails exactly when a source and a target have a key in common, whatever the order
of the lists and however often they name a key. -/
theorem overlap_check_is_exact (sources targets : List Selected)
    (closed : ∀ source ∈ sources, source.Closed) :
    (checkOverlap sources targets =
        .error "S3 source and destination paths overlap in the same bucket" ↔
      ∃ target ∈ targets, ∃ source ∈ sources, source.Meets target) ∧
    ∀ others more, (∀ item, item ∈ others ↔ item ∈ sources) →
      (∀ item, item ∈ more ↔ item ∈ targets) →
      checkOverlap others more = checkOverlap sources targets := by
  have failed : ∀ {first second : List Selected}, (∀ source ∈ first, source.Closed) →
      (second.any (overlaps (selectedKeys false first) (selectedKeys true first)) = true ↔
        ∃ target ∈ second, ∃ source ∈ first, source.Meets target) := by
    intro first second firstClosed
    simp only [List.any_eq_true, overlaps_iff firstClosed]
  constructor
  · rw [← failed closed, checkOverlap, forM_refuse]
    simp
  · intro others more sameSources sameTargets
    have othersClosed : ∀ source ∈ others, source.Closed := fun source mem =>
      closed source ((sameSources source).mp mem)
    have same := @failed others more othersClosed
    simp only [sameSources, sameTargets, ← failed closed] at same
    rw [checkOverlap, checkOverlap, forM_refuse, forM_refuse, Bool.eq_iff_iff.mpr same]

theorem overlap_with_the_directory_of_a_key :
    checkOverlap [⟨[97, slash], true⟩] [⟨[97, slash, 98], false⟩] =
      .error "S3 source and destination paths overlap in the same bucket" := by
  apply (overlap_check_is_exact _ _ _).1.mpr
  · exact ⟨_, List.mem_singleton_self _, _, List.mem_singleton_self _, _, ⟨[98], rfl⟩, rfl⟩
  · intro source mem _
    rw [List.mem_singleton] at mem
    subst mem
    exact .inr rfl

end Syq.S3
