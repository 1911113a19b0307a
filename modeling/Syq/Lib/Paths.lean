import Mathlib

/-!
# Paths as bytes

A relative path is its names separated by slashes; the empty path is the directory that
the other paths are relative to.
-/

namespace Syq.Lib

variable {name parent path first second : List UInt8}

/-- The byte that separates the names of a path. -/
abbrev slash : UInt8 :=
  47

/-- The path of `relative` below `root`. -/
def join (root relative : List UInt8) : List UInt8 :=
  if relative.isEmpty then root
  else if root.isEmpty then relative
  else if root.getLast? = some slash then root ++ relative
  else root ++ slash :: relative

/-- The paths above a path, from the outermost: its parts before each slash, whatever stands
between the slashes. -/
def above : List UInt8 → List (List UInt8)
  | [] => []
  | byte :: rest =>
    (if byte = slash then [[]] else []) ++ (above rest).map (byte :: ·)

/-- A name that a directory can hold. -/
def IsName (name : List UInt8) : Prop :=
  name ≠ [] ∧ slash ∉ name

/-- A path that a name ends. -/
structure IsPath (path : List UInt8) : Prop where
  nonempty : path ≠ []
  closed : path.getLast? ≠ some slash

theorem IsName.isPath (isName : IsName name) : IsPath name where
  nonempty := isName.1
  closed := by
    intro last
    exact isName.2 (List.mem_of_getLast? last)

@[simp]
theorem join_nil_left (isName : IsName name) : join [] name = name := by
  simp [join, isName.1]

theorem join_of_isPath (isPath : IsPath parent) (isName : IsName name) :
    join parent name = parent ++ slash :: name := by
  simp [join, isName.1, isPath.nonempty, isPath.closed]

theorem isPath_join (possible : parent = [] ∨ IsPath parent) (isName : IsName name) :
    IsPath (join parent name) := by
  rcases possible with rfl | isPath
  · rw [join_nil_left isName]
    exact isName.isPath
  · rw [join_of_isPath isPath isName]
    constructor
    · simp
    · rw [List.getLast?_append_cons, List.getLast?_cons_of_ne_nil isName.1]
      exact isName.isPath.closed

/-! ## The paths above a path -/

@[simp]
theorem above_nil : above [] = [] :=
  rfl

theorem above_eq_nil (plain : slash ∉ name) : above name = [] := by
  induction name with
  | nil => rfl
  | cons byte rest ih =>
    rw [List.mem_cons, not_or] at plain
    simp [above, Ne.symm plain.1, ih plain.2]

theorem above_append_slash (parent : List UInt8) (plain : slash ∉ name) :
    above (parent ++ slash :: name) = above parent ++ [parent] := by
  induction parent with
  | nil => simp [above, above_eq_nil plain]
  | cons byte rest ih =>
    simp [above, ih, List.append_assoc]

theorem mem_above_iff : parent ∈ above path ↔ ∃ relative, path = parent ++ slash :: relative := by
  induction path generalizing parent with
  | nil => simp [above]
  | cons byte rest ih =>
    cases parent with
    | nil =>
      by_cases here : byte = slash <;> simp [above, here]
    | cons first parent =>
      have later : first :: parent ∈ above (byte :: rest) ↔
          first = byte ∧ parent ∈ above rest := by
        by_cases here : byte = slash <;> simp [above, here, and_comm, eq_comm]
      rw [later, ih]
      simp [eq_comm]

theorem above_trans {third : List UInt8} (upper : first ∈ above second)
    (lower : second ∈ above third) : first ∈ above third := by
  rcases mem_above_iff.mp upper with ⟨between, rfl⟩
  rcases mem_above_iff.mp lower with ⟨relative, rfl⟩
  exact mem_above_iff.mpr ⟨between ++ slash :: relative, by simp⟩

/-- The paths above a path are met from the shortest to the longest. -/
theorem pairwise_above (path : List UInt8) :
    (above path).Pairwise fun first second => first.length < second.length := by
  induction path with
  | nil => exact List.Pairwise.nil
  | cons byte rest ih =>
    unfold above
    rw [List.pairwise_append]
    refine ⟨?_, ?_, ?_⟩
    · split_ifs <;> simp
    · rw [List.pairwise_map]
      simpa using ih
    · intro first firstMem second secondMem
      rcases List.mem_map.mp secondMem with ⟨upper, -, rfl⟩
      split_ifs at firstMem
      · rw [List.mem_singleton] at firstMem
        simp [firstMem]
      · cases firstMem

theorem not_mem_above_self (path : List UInt8) : path ∉ above path := by
  intro mem
  rcases mem_above_iff.mp mem with ⟨relative, same⟩
  have lengths := congrArg List.length same
  simp at lengths

/-- Above an entry of a directory lie the directory and what is above it. -/
theorem mem_above_join (possible : parent = [] ∨ IsPath parent) (isName : IsName name) :
    path ∈ above (join parent name) ↔ parent ≠ [] ∧ (path = parent ∨ path ∈ above parent) := by
  rcases possible with rfl | isPath
  · simp [join_nil_left isName, above_eq_nil isName.2]
  · rw [join_of_isPath isPath isName, above_append_slash parent isName.2]
    simp [isPath.nonempty, or_comm]

/-! ## What lies within a path -/

/-- The path itself, and every path below it. -/
def Within (root path : List UInt8) : Prop :=
  path = root ∨ root ∈ above path

theorem Within.refl (path : List UInt8) : Within path path :=
  .inl rfl

theorem Within.trans {third : List UInt8} (upper : Within first second)
    (lower : Within second third) : Within first third := by
  rcases lower with rfl | lower
  · exact upper
  · rcases upper with rfl | upper
    · exact .inr lower
    · exact .inr (above_trans upper lower)

theorem within_join (isPath : IsPath parent) (isName : IsName name) :
    Within parent (join parent name) :=
  .inr (mem_above_iff.mpr ⟨name, join_of_isPath isPath isName⟩)

/-- What follows a name in a path starts with a slash, so the name ends where the slash
stands. -/
theorem takeWhile_name {rest : List UInt8} (plain : slash ∉ name)
    (closed : rest = [] ∨ ∃ rel, rest = slash :: rel) :
    (name ++ rest).takeWhile (· ≠ slash) = name := by
  have whole : ∀ byte ∈ name, decide (byte ≠ slash) = true := by
    intro byte mem
    simp only [decide_eq_true_eq]
    rintro rfl
    exact plain mem
  rw [List.takeWhile_append_of_pos whole]
  rcases closed with rfl | ⟨rel, rfl⟩ <;> simp

/-- The entries of a directory share what stands before their names. -/
theorem exists_join_eq_append (possible : parent = [] ∨ IsPath parent) :
    ∃ lead, ∀ {name}, IsName name → join parent name = lead ++ name := by
  rcases possible with rfl | isPath
  · exact ⟨[], fun isName => join_nil_left isName⟩
  · refine ⟨parent ++ [slash], fun isName => ?_⟩
    rw [join_of_isPath isPath isName]
    simp

/-- Nothing lies within two entries of one directory. -/
theorem within_join_inj (possible : parent = [] ∨ IsPath parent) (firstName : IsName first)
    (secondName : IsName second) (inFirst : Within (join parent first) path)
    (inSecond : Within (join parent second) path) : first = second := by
  rcases exists_join_eq_append possible with ⟨lead, joined⟩
  have spelled : ∀ {name}, IsName name → Within (join parent name) path →
      (path.drop lead.length).takeWhile (· ≠ slash) = name := by
    intro name isName within
    rw [joined isName] at within
    rcases within with rfl | within
    · simpa using takeWhile_name isName.2 (.inl rfl)
    · rcases mem_above_iff.mp within with ⟨relative, rfl⟩
      simpa using takeWhile_name isName.2 (.inr ⟨relative, rfl⟩)
  rw [← spelled firstName inFirst, spelled secondName inSecond]

end Syq.Lib
