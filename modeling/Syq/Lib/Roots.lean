import Syq.Lib.Paths

/-!
# Paths below a root

A cleaned root is not empty and ends with a slash only if it is the root of everything.  The
paths inside it are the ones that start with it and a slash; in a sorted list they stand
together.
-/

namespace Syq.Lib

open List Option

variable {path root relative first second : List UInt8}

/-- What every path inside a root starts with. -/
def lead (root : List UInt8) : List UInt8 :=
  if root.getLast? = some slash then root else root ++ [slash]

def inside (path root : List UInt8) : Bool :=
  root.isPrefixOf path && (root.getLast? = some slash || path[root.length]? = some slash)

/-- A path that is made up of names. -/
structure IsRelative (path : List UInt8) : Prop where
  isPath : IsPath path
  upper : ∀ higher ∈ above path, IsPath higher

structure Cleaned (root : List UInt8) : Prop where
  nonempty : root ≠ []
  closed : root = [slash] ∨ root.getLast? ≠ some slash

theorem inside_iff : inside path root = true ↔ lead root <+: path := by
  unfold inside lead
  split_ifs with ends
  · simp [ends]
  · simp only [ends, decide_false, Bool.false_or, Bool.and_eq_true, isPrefixOf_iff_prefix,
      decide_eq_true_eq]
    constructor
    · rintro ⟨⟨rest, rfl⟩, next⟩
      cases rest with
      | nil => simp at next
      | cons byte rest =>
        simp only [getElem?_append_right (Nat.le_refl _), Nat.sub_self,
          getElem?_cons_zero, some.injEq] at next
        exact ⟨rest, by simp [next]⟩
    · rintro ⟨rest, rfl⟩
      exact ⟨⟨slash :: rest, by simp⟩, by simp⟩

theorem join_eq_lead (rooted : root ≠ []) (nonempty : relative ≠ []) :
    join root relative = lead root ++ relative := by
  unfold join lead
  simp only [isEmpty_eq_false_iff.mpr rooted, isEmpty_eq_false_iff.mpr nonempty,
    Bool.false_eq_true, if_false]
  split_ifs <;> simp

theorem lead_getLast (root : List UInt8) : (lead root).getLast? = some slash := by
  unfold lead
  split_ifs with ends
  · exact ends
  · simp

theorem lead_ne_nil (root : List UInt8) : lead root ≠ [] := by
  intro empty
  have last := lead_getLast root
  rw [empty] at last
  cases last

theorem lead_eq_of_closed (closed : root.getLast? ≠ some slash) : lead root = root ++ [slash] :=
  if_neg closed

theorem Cleaned.eq_slash_of_lead (cleaned : Cleaned root) (same : lead root = lead [slash]) :
    root = [slash] := by
  rcases cleaned.closed with top | closed
  · exact top
  · rw [lead_eq_of_closed closed] at same
    have lengths := congrArg length same
    simp [lead] at lengths
    exact absurd lengths cleaned.nonempty

/-- Two cleaned roots with the same inside are one. -/
theorem lead_inj (firstCleaned : Cleaned first) (secondCleaned : Cleaned second)
    (same : lead first = lead second) : first = second := by
  rcases firstCleaned.closed with rfl | firstClosed
  · exact (secondCleaned.eq_slash_of_lead same.symm).symm
  · rcases secondCleaned.closed with rfl | secondClosed
    · exact firstCleaned.eq_slash_of_lead same
    · rw [lead_eq_of_closed firstClosed, lead_eq_of_closed secondClosed] at same
      exact append_cancel_right same

/-- The directories between a root and a path below it. -/
theorem mem_above_lead (isRelative : IsRelative relative) :
    path ∈ above (lead root ++ relative) ∧ (lead root).length ≤ path.length ↔
      ∃ upper ∈ above relative, path = lead root ++ upper := by
  constructor
  · rintro ⟨mem, long⟩
    rcases mem_above_iff.mp mem with ⟨rest, split⟩
    rcases append_eq_append_iff.mp split with ⟨between, rfl, spelled⟩ | ⟨between, short, spelled⟩
    · exact ⟨between, mem_above_iff.mpr ⟨rest, spelled⟩, rfl⟩
    · have empty : between = [] := by
        have lengths := congrArg length short
        rw [length_append] at lengths
        exact length_eq_zero_iff.mp (by omega)
      rw [empty] at spelled
      have top : [] ∈ above relative := mem_above_iff.mpr ⟨rest, spelled.symm⟩
      exact absurd rfl (isRelative.upper [] top).nonempty
  · rintro ⟨upper, mem, rfl⟩
    rcases mem_above_iff.mp mem with ⟨rest, rfl⟩
    refine ⟨mem_above_iff.mpr ⟨rest, by simp⟩, by simp⟩

theorem IsRelative.above {higher : List UInt8} (isRel : IsRelative relative)
    (mem : higher ∈ above relative) : IsRelative higher where
  isPath := isRel.upper higher mem
  upper := fun _ higherMem => isRel.upper _ (above_trans higherMem mem)

theorem IsRelative.join {parent name : List UInt8} (possible : parent = [] ∨ IsRelative parent)
    (isName : IsName name) : IsRelative (join parent name) := by
  have isParent : parent = [] ∨ IsPath parent := possible.imp_right IsRelative.isPath
  refine ⟨isPath_join isParent isName, ?_⟩
  intro higher mem
  rcases (mem_above_join isParent isName).mp mem with ⟨ne, upper⟩
  have isRel := possible.resolve_left ne
  rcases upper with rfl | upper
  · exact isRel.isPath
  · exact isRel.upper higher upper

/-! ## Directories above the same path -/

theorem comparable_of_above (firstMem : first ∈ above path) (secondMem : second ∈ above path) :
    first = second ∨ first ∈ above second ∨ second ∈ above first := by
  rcases mem_above_iff.mp firstMem with ⟨firstRest, firstSplit⟩
  rcases mem_above_iff.mp secondMem with ⟨secondRest, secondSplit⟩
  rw [firstSplit] at secondSplit
  rcases append_eq_append_iff.mp secondSplit with
    ⟨between, rfl, spelled⟩ | ⟨between, rfl, spelled⟩
  · cases between with
    | nil => simp
    | cons byte between =>
      rw [cons_append, cons.injEq] at spelled
      exact .inr (.inl (mem_above_iff.mpr ⟨between, by rw [spelled.1]⟩))
  · cases between with
    | nil => simp
    | cons byte between =>
      rw [cons_append, cons.injEq] at spelled
      exact .inr (.inr (mem_above_iff.mpr ⟨between, by rw [spelled.1]⟩))

theorem inside_of_above {below : List UInt8} (isInside : inside path root = true)
    (higher : path ∈ above below) : inside below root = true := by
  rw [inside_iff] at *
  rcases mem_above_iff.mp higher with ⟨rest, rfl⟩
  exact isInside.trans (prefix_append _ _)

/-- A directory above a path inside a root is inside the root, the root, or above it. -/
theorem above_of_inside {below : List UInt8} (cleaned : Cleaned root) (ne : path ≠ [])
    (isInside : inside below root = true) (higher : path ∈ above below) :
    inside path root = true ∨ path = root ∨ path ∈ above root := by
  rw [inside_iff] at *
  rcases mem_above_iff.mp higher with ⟨rest, rfl⟩
  by_cases long : (lead root).length ≤ path.length
  · exact .inl (prefix_of_prefix_length_le isInside (prefix_append _ _) long)
  right
  rcases cleaned.closed with rfl | closed
  · have positive := length_pos_iff.mpr ne
    have short : (lead [slash]).length = 1 := by simp [lead]
    omega
  · rw [lead_eq_of_closed closed] at isInside long
    have starts : path ++ [slash] <+: root ++ [slash] := by
      refine prefix_of_prefix_length_le ⟨rest, by simp⟩ isInside ?_
      rw [length_append]
      simp only [length_singleton]
      omega
    rcases prefix_concat_iff.mp starts with same | shorter
    · exact .inl (append_cancel_right same)
    · rcases shorter with ⟨tail, rfl⟩
      exact .inr (mem_above_iff.mpr ⟨tail, by simp⟩)

theorem inside_of_lead {outer inner : List UInt8} (outerCleaned : Cleaned outer)
    (innerCleaned : Cleaned inner) (starts : lead outer <+: lead inner) (diff : outer ≠ inner) :
    inside inner outer = true := by
  have distinct : lead outer ≠ lead inner := fun same =>
    diff (lead_inj outerCleaned innerCleaned same)
  rw [inside_iff]
  rcases innerCleaned.closed with rfl | closed
  · have top : lead [slash] = [] ++ [slash] := by simp [lead]
    rw [top] at starts distinct
    rcases prefix_concat_iff.mp starts with same | shorter
    · exact absurd same distinct
    · exact absurd (prefix_nil.mp shorter) (lead_ne_nil outer)
  · rw [lead_eq_of_closed closed] at starts distinct
    rcases prefix_concat_iff.mp starts with same | shorter
    · exact absurd same distinct
    · exact shorter

/-- Of two roots with a common path inside, one is inside the other. -/
theorem comparable_of_inside (firstCleaned : Cleaned first) (secondCleaned : Cleaned second)
    (inFirst : inside path first = true) (inSecond : inside path second = true) :
    first = second ∨ inside first second = true ∨ inside second first = true := by
  by_cases same : first = second
  · exact .inl same
  rw [inside_iff] at inFirst inSecond
  rcases prefix_or_prefix_of_prefix inFirst inSecond with starts | starts
  · exact .inr (.inr (inside_of_lead firstCleaned secondCleaned starts same))
  · exact .inr (.inl (inside_of_lead secondCleaned firstCleaned starts (Ne.symm same)))

theorem mem_above_join_iff {upper : List UInt8} (cleaned : Cleaned root)
    (isRelative : IsRelative relative) (isUpper : IsRelative upper) :
    join root upper ∈ above (join root relative) ↔ upper ∈ above relative := by
  rw [join_eq_lead cleaned.nonempty isRelative.isPath.nonempty,
    join_eq_lead cleaned.nonempty isUpper.isPath.nonempty]
  have between := @mem_above_lead (lead root ++ upper) root relative isRelative
  rw [and_iff_left (by simp)] at between
  rw [between]
  simp

/-! ## Paths with a common start in a sorted list -/

theorem le_of_isPrefix {start : List UInt8} (starts : start <+: path) : start ≤ path := by
  rcases starts with ⟨rest, rfl⟩
  induction start with
  | nil => exact nil_le _
  | cons byte start ih =>
    rw [cons_append, cons_le_cons_iff]
    exact .inr ⟨rfl, ih⟩

theorem isPrefix_between {start between : List UInt8} (lower : start ≤ between)
    (upper : between ≤ path) (starts : start <+: path) : start <+: between := by
  induction start generalizing between path with
  | nil => exact nil_prefix
  | cons byte start ih =>
    rcases starts with ⟨rest, rfl⟩
    cases between with
    | nil => exact absurd lower (by simp)
    | cons other between =>
      rw [cons_append, cons_le_cons_iff] at upper
      rw [cons_le_cons_iff] at lower
      have same : byte = other ∧ start ≤ between ∧ between ≤ start ++ rest := by
        rcases lower with less | ⟨rfl, lower⟩
        · rcases upper with more | ⟨rfl, -⟩
          · exact absurd less (UInt8.lt_asymm more)
          · exact absurd less (UInt8.lt_irrefl _)
        · rcases upper with more | ⟨-, upper⟩
          · exact absurd more (UInt8.lt_irrefl _)
          · exact ⟨rfl, lower, upper⟩
      rcases same with ⟨rfl, lower, upper⟩
      rw [prefix_cons_inj]
      exact ih lower upper (prefix_append _ _)

/-- The block of a sorted list that a search for a common start finds. -/
def startingWith {α : Type} (start : List UInt8) (key : α → List UInt8) (sorted : List α) :
    List α :=
  (sorted.dropWhile fun item => decide (key item < start)).takeWhile fun item =>
    start.isPrefixOf (key item)

/-- A property that stops holding once and for all is searched for as far as it holds. -/
theorem takeWhile_eq_filter {α : Type} {holds : α → Bool} {items : List α}
    (ends : items.Pairwise fun first second => holds second = true → holds first = true) :
    items.takeWhile holds = items.filter holds := by
  induction items with
  | nil => rfl
  | cons item rest ih =>
    rcases pairwise_cons.mp ends with ⟨first, later⟩
    rw [takeWhile_cons, filter_cons]
    split_ifs with here
    · rw [ih later]
    · symm
      apply filter_eq_nil_iff.mpr
      intro other mem otherHolds
      exact here (first other mem otherHolds)

section StartingWith

variable {α : Type} {start : List UInt8} {key : α → List UInt8}

theorem startingWith_eq_filter {sorted : List α}
    (ordered : sorted.Pairwise fun first second => key first ≤ key second) :
    startingWith start key sorted = sorted.filter fun item => start.isPrefixOf (key item) := by
  unfold startingWith
  induction sorted with
  | nil => rfl
  | cons item rest ih =>
    rcases pairwise_cons.mp ordered with ⟨first, later⟩
    rw [dropWhile_cons]
    by_cases smaller : key item < start
    · have misses : ¬ start.isPrefixOf (key item) = true := by
        intro starts
        rw [List.isPrefixOf_iff_prefix] at starts
        exact List.not_lt.mpr (le_of_isPrefix starts) smaller
      rw [filter_cons, if_neg misses, if_pos (by simpa using smaller)]
      exact ih later
    · have lower : start ≤ key item := List.not_lt.mp smaller
      rw [if_neg (by simpa using smaller)]
      apply takeWhile_eq_filter
      refine List.Pairwise.imp_of_mem ?_ ordered
      intro early late earlyMem _ le starts
      have lowerEarly : start ≤ key early := by
        rcases mem_cons.mp earlyMem with rfl | earlyMem
        · exact lower
        · exact List.le_trans lower (first early earlyMem)
      rw [List.isPrefixOf_iff_prefix] at starts ⊢
      exact isPrefix_between lowerEarly le starts

end StartingWith

end Syq.Lib
