import Syq.Pruning.Extras

/-!
# Running the plan

The removals are asked for in their order: leaves, then directories from the deepest up.  A
request that fails as a whole ends the run, so what was asked for is always a beginning of that
order.
-/

namespace Syq.Pruning

open Syq.Lib Syq.Planning List Function

/-! ## The order of the removals -/

theorem rotate_perm (fuel : Nat) (groups : List (List Item)) :
    (rotate fuel groups).Perm groups.flatten := by
  induction fuel generalizing groups with
  | zero => exact List.Perm.refl _
  | succ fuel ih =>
    cases groups with
    | nil => exact List.Perm.refl _
    | cons group rest =>
      unfold rotate
      split_ifs with last
      · rw [List.isEmpty_iff, List.drop_eq_nil_iff] at last
        rw [List.take_of_length_le last]
        exact (ih rest).append_left _
      · refine ((ih _).append_left _).trans ?_
        rw [flatten_append, flatten_singleton, flatten_cons]
        refine (perm_append_comm.append_left _).trans (List.Perm.of_eq ?_)
        rw [← append_assoc, take_append_drop]

theorem spread_perm (items : List Item) : (spread items).Perm items := by
  have grouped : ∀ (items : List Item) (groups : Groups Bytes Item),
      (items.foldl (fun groups item => Groups.push (parentOf item.path) item groups)
        groups).items.Perm (groups.items ++ items) := by
    intro items
    induction items with
    | nil => simp
    | cons item rest ih =>
      intro groups
      refine (ih _).trans ?_
      refine ((Groups.items_push _ _ _).append_right rest).trans ?_
      simp
  refine (rotate_perm _ _).trans ?_
  simpa [Groups.items, flatMap_def] using grouped items []

/-- The directories in the order in which they are removed. -/
def dirsInOrder (deletes : Deletes) : List Item :=
  deletes.dirs.reverse.flatMap fun group => spread group.2

theorem dirsInOrder_perm (deletes : Deletes) : (dirsInOrder deletes).Perm deletes.dirs.items := by
  have groups := List.Perm.flatMap_left deletes.dirs.reverse fun group _ => spread_perm group.2
  exact groups.trans ((reverse_perm _).flatMap_right _)

theorem removals_eq (deletes : Deletes) :
    removals deletes = ((spread deletes.leaves).map Item.path).map .unlink ++
      ((dirsInOrder deletes).map Item.path).map .rmdir := by
  simp [removals, dirsInOrder, map_flatMap, comp_def]

/-! ## Requests -/

section Requests

variable {apply : List Op → Except String (List (Option String))}

/-- What was asked for is a beginning of what was to be asked for, and all of it if no request
failed. -/
structure Asked (ops : List Op) (ran : Ran) : Prop where
  beginning : ran.issued <+: ops
  complete : ran.error = none → ran.issued = ops

theorem issue_asked (fuel : Nat) (ops before : List Op) (ran : Ran) (enough : ops.length ≤ fuel)
    (good : ran.error = none) (start : ran.issued = before) :
    Asked (before ++ ops) (issue apply fuel ops ran) := by
  induction fuel generalizing ops before ran with
  | zero =>
    have empty : ops = [] := length_eq_zero_iff.mp (Nat.le_zero.mp enough)
    rw [empty, append_nil, ← start]
    exact ⟨prefix_refl _, fun _ => rfl⟩
  | succ fuel ih =>
    unfold issue
    split_ifs with empty
    · rw [isEmpty_iff.mp empty, append_nil, ← start]
      exact ⟨prefix_refl _, fun _ => rfl⟩
    · have split : before ++ ops = before ++ ops.take 1000 ++ ops.drop 1000 := by
        rw [append_assoc, take_append_drop]
      rw [split]
      dsimp only
      cases apply (ops.take 1000) with
      | error failure =>
        refine ⟨?_, fun good => by cases good⟩
        rw [start]
        exact prefix_append _ _
      | ok errors =>
        apply ih
        · rw [length_drop]
          omega
        · exact good
        · rw [start]

theorem Asked.runItems {before : List Op} {ran : Ran} (asked : Asked before ran) (ops : List Op) :
    Asked (before ++ ops) (runItems apply ops ran) := by
  unfold Pruning.runItems
  split_ifs with failed
  · refine ⟨asked.beginning.trans (prefix_append _ _), fun good => ?_⟩
    rw [good] at failed
    cases failed
  · have good : ran.error = none := by simpa using failed
    exact issue_asked ops.length ops before ran le_rfl good (asked.complete good)

theorem Asked.foldl_runItems {before : List Op} {ran : Ran} (asked : Asked before ran)
    (groups : List (Nat × List Item)) :
    Asked (before ++ groups.flatMap fun group => (spread group.2).map fun item => .rmdir item.path)
      (groups.foldl (fun ran group =>
        Pruning.runItems apply ((spread group.2).map fun item => .rmdir item.path) ran) ran) := by
  induction groups generalizing before ran with
  | nil => simpa using asked
  | cons group rest ih =>
    rw [flatMap_cons, ← append_assoc]
    exact ih (asked.runItems _)

/-- Within the maximum, the run asks for the removals in their order. -/
theorem runDeletes_asked {opts : PruneOpts} {deletes : Deletes}
    (within : ∀ max, opts.maxDelete = some max → deletes.len ≤ max) (real : opts.dryRun = false) :
    Asked (removals deletes) (runDeletes opts apply deletes) := by
  have small : ¬ (opts.maxDelete.any fun max => decide (max < deletes.len)) = true := by
    rw [Option.any_eq_true]
    rintro ⟨max, isMax, exceeds⟩
    rw [decide_eq_true_eq] at exceeds
    exact absurd (within max isMax) (by omega)
  unfold runDeletes removals
  rw [if_neg small, real]
  have start : Asked [] ⟨[], 0, false, none⟩ := ⟨prefix_refl _, fun _ => rfl⟩
  have leaves := @Asked.runItems apply _ _ start
    ((spread deletes.leaves).map fun item => .unlink item.path)
  exact leaves.foldl_runItems _

end Requests

/-! ## Pruning as a whole -/

/-- Pruning removes the true extras, leaves first and directories from the deepest up, and
nothing if there are more of them than allowed. -/
theorem pruning_removes_exactly_the_extras {destination : Destination} {opts : PruneOpts}
    {seen : Table Bytes Claim} {roots : List (Bytes × Bytes)} {planner : Planner}
    (cleaned : ∀ root ∈ roots, Cleaned root.1)
    (named : ∀ first ∈ roots, ∀ second ∈ roots, first.1 = second.1 → first = second)
    (closed : Closed seen roots)
    (planned : planDeletes destination opts seen roots = .ok planner)
    (complete : planner.deleteWalkFailed = false) :
    ∃ leaves dirs : List Bytes,
      leaves.Perm (planner.deletes.leaves.map Item.path) ∧
      dirs.Perm (planner.deletes.dirs.items.map Item.path) ∧
      (leaves ++ dirs).Nodup ∧
      (∀ path, path ∈ leaves ↔ ∃ kind, kind ≠ .dir ∧ Extra destination opts seen roots kind path) ∧
      (∀ path, path ∈ dirs ↔ Extra destination opts seen roots .dir path) ∧
      (dirs.Pairwise fun first second => depth second ≤ depth first) ∧
      ∀ apply : List Op → Except String (List (Option String)),
        (∀ max, opts.maxDelete = some max → max < leaves.length + dirs.length →
          (runDeletes opts apply planner.deletes).issued = []) ∧
        ((∀ max, opts.maxDelete = some max → leaves.length + dirs.length ≤ max) →
          opts.dryRun = false →
            Asked (leaves.map Op.unlink ++ dirs.map Op.rmdir)
              (runDeletes opts apply planner.deletes)) := by
  have plans := plans_of_planDeletes cleaned named planned complete
  have extra := plans.extra_iff cleaned closed
  have leavesPerm := (spread_perm planner.deletes.leaves).map Item.path
  have dirsPerm := (dirsInOrder_perm planner.deletes).map Item.path
  have isLeaf : ∀ path, path ∈ (spread planner.deletes.leaves).map Item.path ↔
      ∃ kind, kind ≠ .dir ∧ Extra destination opts seen roots kind path := by
    intro path
    rw [leavesPerm.mem_iff, plans.mem_leaves]
    simp only [extra]
    constructor
    · rintro ⟨root, mem, kind, notDir, removed⟩
      exact ⟨kind, notDir, root, mem, removed⟩
    · rintro ⟨kind, notDir, root, mem, removed⟩
      exact ⟨root, mem, kind, notDir, removed⟩
  have isDirectory : ∀ path, path ∈ (dirsInOrder planner.deletes).map Item.path ↔
      Extra destination opts seen roots .dir path := by
    intro path
    rw [dirsPerm.mem_iff, plans.mem_dirs, extra]
  refine ⟨_, _, leavesPerm, dirsPerm, ?_, isLeaf, isDirectory, ?_, ?_⟩
  · refine nodup_append.mpr
      ⟨leavesPerm.nodup_iff.mpr plans.leavesNodup, dirsPerm.nodup_iff.mpr plans.dirsNodup, ?_⟩
    rintro path leaf _ directory rfl
    rcases (isLeaf path).mp leaf with ⟨kind, notDir, isExtra⟩
    exact notDir (isExtra.kind_unique cleaned ((isDirectory path).mp directory))
  · rw [pairwise_map]
    exact Groups.pairwise_items_reverse plans.ordered.sorted plans.ordered.keyed spread spread_perm
  · intro apply
    have whole := (spread_perm planner.deletes.leaves).length_eq
    rw [length_map, length_map, whole, (dirsInOrder_perm planner.deletes).length_eq, Groups.items,
      length_flatMap, ← Deletes.len, ← removals_eq]
    constructor
    · intro max isMax exceeds
      rw [runDeletes, if_pos (by simpa [isMax] using exceeds)]
    · exact runDeletes_asked

/-! ## A small destination -/

/-- A walk of a root that holds no deeper entries. -/
def flatWalk (entries : List Entry) (ignored : List Bytes)
    (named : ∀ entry ∈ entries, entry.path = [] ∨ IsName entry.path)
    (nodup : (entries.map Entry.path).Nodup) (ignoredNamed : ∀ path ∈ ignored, IsName path)
    (apart : ∀ path ∈ ignored, ∀ entry ∈ entries, entry.path ≠ path) : DestinationWalk :=
  have single : ∀ path : Bytes, IsName path → above path = [] := fun _ isName =>
    above_eq_nil isName.2
  { entries := entries
    ignored := ignored
    warnings := []
    relative := fun entry mem => (named entry mem).imp_right fun isName =>
      ⟨isName.isPath, by simp [single _ isName]⟩
    nodup := nodup
    parentsFirst := by
      rintro before entry after rfl upper higher
      rcases named entry (by simp) with empty | isName
      · simp [empty] at higher
      · simp [single _ isName] at higher
    ignoredRelative := fun path mem => ⟨(ignoredNamed path mem).isPath, by
      simp [single _ (ignoredNamed path mem)]⟩
    ignoredApart := apart
    ignoredParents := by
      intro path mem upper higher
      simp [single _ (ignoredNamed path mem)] at higher }

def inOrder (paths : Finset Bytes) : List Bytes :=
  @Finset.sort _ paths (fun first second => first ≤ second) _
    ⟨fun _ _ _ => List.le_trans⟩ ⟨fun _ _ => List.le_antisymm⟩ ⟨List.le_total⟩

/-- A destination that answers every walk from a table. -/
def sampleDestination (walk : Bytes → DestinationWalk) : Destination where
  stat := fun _ => .ok (some ⟨1, 1⟩)
  walk := fun root _ => .ok (walk root)
  enumerate := inOrder
  mem_enumerate := by simp [inOrder]
  display := fun _ => ""

def sampleOpts : PruneOpts :=
  ⟨[], false, 0, false, some 5, false⟩

/-- The directory `d` and the file `d/a` are claimed. -/
def sampleSeen : Table Bytes Claim :=
  (Finmap.singleton [100] Claim.dir).insert [100, 47, 97] (.file ⟨2, 2⟩)

/-- In `d` there are files `a` and `b` and a directory `c`. -/
def sampleWalk : DestinationWalk :=
  flatWalk [⟨[], .dir, ⟨1, 1⟩⟩, ⟨[97], .file, ⟨1, 2⟩⟩, ⟨[98], .file, ⟨1, 3⟩⟩, ⟨[99], .dir, ⟨1, 4⟩⟩]
    [] (by unfold IsName; decide) (by decide) (by simp) (by simp)

def samplePlanner : Planner :=
  ⟨⟨[⟨[100, 47, 98], "", "file"⟩], [(1, [⟨[100, 47, 99], "/", "dir"⟩])]⟩, false, []⟩

theorem sampleSeen_closed : Closed sampleSeen [([100], [])] where
  top := by simp [sampleSeen]
  upper := by
    intro path mem root isRoot higher isAbove isInside
    rw [mem_singleton] at isRoot
    subst isRoot
    rw [sampleSeen, Finmap.mem_insert, Finmap.mem_singleton] at mem
    rcases mem with rfl | rfl
    · have only : above [100, 47, 97] = [[100]] := by decide
      rw [only, mem_singleton] at isAbove
      subst isAbove
      exact absurd isInside (by decide)
    · have only : above [100] = [] := by decide
      cases isAbove

theorem pruning_of_sample :
    planDeletes (sampleDestination fun _ => sampleWalk) sampleOpts sampleSeen [([100], [])] =
        .ok samplePlanner ∧
      (∀ path, path ∈ samplePlanner.deletes.leaves.map Item.path → ∃ kind, kind ≠ .dir ∧
          Extra (sampleDestination fun _ => sampleWalk) sampleOpts sampleSeen [([100], [])]
            kind path) := by
  have planned : planDeletes (sampleDestination fun _ => sampleWalk) sampleOpts sampleSeen
      [([100], [])] = .ok samplePlanner := by
    decide +kernel
  refine ⟨planned, ?_⟩
  rcases pruning_removes_exactly_the_extras
    (by
      intro root isRoot
      rw [mem_singleton.mp isRoot]
      exact ⟨by decide, by decide⟩)
    (by
      intro first firstMem second secondMem _
      rw [mem_singleton.mp firstMem, mem_singleton.mp secondMem])
    sampleSeen_closed planned rfl with ⟨leaves, dirs, leavesPerm, -, -, isLeaf, -, -, -⟩
  intro path mem
  exact (isLeaf path).mp (leavesPerm.mem_iff.mpr mem)

/-! ## Names of staged files on other entries, and patterns of outer roots -/

/-- The name `.syq-tmp.` followed by sixteen times the letter `a`. -/
def stagedName : Bytes :=
  partialMarker ++ List.replicate 16 97

/-- In `d` there is a directory whose name is that of a staged file. -/
def stagedNameWalk : DestinationWalk :=
  flatWalk [⟨[], .dir, ⟨1, 1⟩⟩, ⟨stagedName, .dir, ⟨1, 2⟩⟩]
    [] (by unfold IsName; decide +kernel) (by decide +kernel) (by simp) (by simp)

/-- The walk of `d` ignores `e/x`. -/
def outerWalk : DestinationWalk :=
  { flatWalk [⟨[], .dir, ⟨1, 1⟩⟩, ⟨[101], .dir, ⟨1, 2⟩⟩] [] (by unfold IsName; decide) (by decide)
      (by simp) (by simp) with
    ignored := [[101, 47, 120]]
    ignoredRelative := by
      intro path mem
      rw [List.mem_singleton.mp mem]
      have alone : above [101] = [] := by decide
      have outer : IsRelative [101] := ⟨⟨by decide, by decide⟩, by simp [alone]⟩
      have isName : IsName [120] := ⟨by decide, by decide⟩
      exact IsRelative.join (.inr outer) isName
    ignoredApart := by decide
    ignoredParents := by decide }

/-- The walk of `d/e` reports `x`. -/
def innerWalk : DestinationWalk :=
  flatWalk [⟨[], .dir, ⟨1, 2⟩⟩, ⟨[120], .file, ⟨1, 3⟩⟩] [] (by unfold IsName; decide) (by decide)
    (by simp) (by simp)

/-- A directory with the name of a staged file is planned, and so is a path that only the walk
of an outer root ignores. -/
theorem staged_name_and_outer_pattern_are_planned :
    (isPartialName stagedName = true ∧
      ((planDeletes (sampleDestination fun _ => stagedNameWalk) sampleOpts
        (Finmap.singleton [100] Claim.dir) [([100], [])]).toOption.map fun planner =>
          planner.deletes.dirs.items.map Item.path) = some [[100, 47] ++ stagedName]) ∧
      [101, 47, 120] ∈ outerWalk.ignored ∧
      ((planDeletes
        (sampleDestination fun root => if root = [100] then outerWalk else innerWalk) sampleOpts
        ((Finmap.singleton [100] Claim.dir).insert [100, 47, 101] Claim.dir)
        [([100], []), ([100, 47, 101], [101])]).toOption.map fun planner =>
          planner.deletes.leaves.map Item.path) = some [[100, 47, 101, 47, 120]] := by
  refine ⟨by decide +kernel, by decide, ?_⟩
  unfold planDeletes
  rw [sortedRoots, mergeSort_of_pairwise (by decide)]
  decide +kernel

end Syq.Pruning
