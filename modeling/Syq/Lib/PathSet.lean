import Syq.Lib.Roots

/-!
# Ordered sets of paths

A set of paths is kept in order, so that the paths below a directory are found by looking at
the first one that is not smaller than the directory's own path and a slash.
-/

namespace Syq.Lib

structure PathSet where
  paths : List (List UInt8)
  ordered : paths.Pairwise (· < ·)

namespace PathSet

variable {path : List UInt8} {set : PathSet}

instance : Membership (List UInt8) PathSet where
  mem set path := path ∈ set.paths

instance (path : List UInt8) (set : PathSet) : Decidable (path ∈ set) :=
  inferInstanceAs (Decidable (path ∈ set.paths))

theorem mem_def : path ∈ set ↔ path ∈ set.paths :=
  Iff.rfl

def empty : PathSet where
  paths := []
  ordered := List.Pairwise.nil

@[simp]
theorem not_mem_empty (path : List UInt8) : path ∉ empty :=
  List.not_mem_nil

/-- Put a path where it belongs, unless it is there already. -/
def insertPath (path : List UInt8) : List (List UInt8) → List (List UInt8)
  | [] => [path]
  | first :: rest =>
    if path < first then path :: first :: rest
    else if path = first then first :: rest
    else first :: insertPath path rest

theorem mem_insertPath {other : List UInt8} {paths : List (List UInt8)} :
    other ∈ insertPath path paths ↔ other = path ∨ other ∈ paths := by
  induction paths with
  | nil => simp [insertPath]
  | cons first rest ih =>
    unfold insertPath
    split_ifs with smaller same
    · simp
    · simp [same]
    · simp only [List.mem_cons]
      tauto

theorem pairwise_insertPath {paths : List (List UInt8)} (ordered : paths.Pairwise (· < ·)) :
    (insertPath path paths).Pairwise (· < ·) := by
  induction paths with
  | nil => simp [insertPath]
  | cons first rest ih =>
    rcases List.pairwise_cons.mp ordered with ⟨least, later⟩
    unfold insertPath
    split_ifs with smaller same
    · exact List.pairwise_cons.mpr ⟨List.forall_mem_cons.mpr
        ⟨smaller, fun other mem => List.lt_trans smaller (least other mem)⟩, ordered⟩
    · exact ordered
    · refine List.pairwise_cons.mpr ⟨?_, ih later⟩
      intro other mem
      rcases mem_insertPath.mp mem with rfl | mem
      · exact Std.lt_of_le_of_ne (List.not_lt.mp smaller) (Ne.symm same)
      · exact least other mem

def insert (set : PathSet) (path : List UInt8) : PathSet where
  paths := insertPath path set.paths
  ordered := pairwise_insertPath set.ordered

@[simp]
theorem mem_insert {other : List UInt8} : other ∈ set.insert path ↔ other = path ∨ other ∈ set :=
  mem_insertPath

/-- Whether the first path from `start` on begins with it. -/
def anyFrom (set : PathSet) (start : List UInt8) : Bool :=
  (set.paths.find? fun path => decide (start ≤ path)).any fun path => start.isPrefixOf path

/-- Between `start` and a path that begins with it, every path begins with it: one look at the
first path decides. -/
theorem anyFrom_iff {start : List UInt8} :
    set.anyFrom start = true ↔ ∃ path ∈ set, start <+: path := by
  unfold anyFrom
  rw [Option.any_eq_true]
  constructor
  · rintro ⟨path, found, starts⟩
    exact ⟨path, List.mem_of_find?_eq_some found, List.isPrefixOf_iff_prefix.mp starts⟩
  · rintro ⟨path, mem, starts⟩
    have least : ∃ first, set.paths.find? (fun other => decide (start ≤ other)) = some first := by
      rw [← Option.isSome_iff_exists, List.find?_isSome]
      exact ⟨path, mem, by simpa using le_of_isPrefix starts⟩
    rcases least with ⟨first, found⟩
    refine ⟨first, found, List.isPrefixOf_iff_prefix.mpr ?_⟩
    rcases List.find?_eq_some_iff_append.mp found with ⟨lower, before, after, split, smaller⟩
    refine isPrefix_between (by simpa using lower) ?_ starts
    have ordered := set.ordered
    rw [mem_def, split] at mem
    rw [split] at ordered
    rcases List.mem_append.mp mem with early | late
    · have refused := smaller path early
      simp [le_of_isPrefix starts] at refused
    · rcases List.mem_cons.mp late with rfl | late
      · exact List.le_refl _
      · have pairs := (List.pairwise_append.mp ordered).2.1
        exact List.le_of_lt ((List.pairwise_cons.mp pairs).1 path late)

end PathSet

end Syq.Lib
