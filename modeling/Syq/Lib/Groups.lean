import Mathlib

/-!
# Items grouped under ordered keys

An ordered map from keys to lists, written as a list of groups.  A new item goes to the end of
the group of its key.
-/

namespace Syq.Lib

open List

universe u v

variable {κ : Type u} {α : Type v}

/-- Groups of items, in the order of their keys. -/
abbrev Groups (κ : Type u) (α : Type v) := List (κ × List α)

namespace Groups

section Push

variable [DecidableEq κ] [LT κ] [DecidableLT κ]

def push (key : κ) (item : α) : Groups κ α → Groups κ α
  | [] => [(key, [item])]
  | (first, items) :: rest =>
    if first = key then (first, items ++ [item]) :: rest
    else if key < first then (key, [item]) :: (first, items) :: rest
    else (first, items) :: push key item rest

/-- All items, group by group. -/
def items (groups : Groups κ α) : List α :=
  groups.flatMap Prod.snd

omit [DecidableEq κ] [LT κ] [DecidableLT κ] in
@[simp]
theorem items_nil : items ([] : Groups κ α) = [] :=
  rfl

omit [DecidableEq κ] [LT κ] [DecidableLT κ] in
@[simp]
theorem items_cons (key : κ) (first : List α) (rest : Groups κ α) :
    items ((key, first) :: rest) = first ++ items rest :=
  rfl

theorem items_push (key : κ) (item : α) (groups : Groups κ α) :
    (items (push key item groups)).Perm (items groups ++ [item]) := by
  induction groups with
  | nil => simp [push]
  | cons group rest ih =>
    unfold push
    split_ifs
    · rw [items_cons, items_cons, append_assoc, append_assoc]
      exact perm_append_comm.append_left _
    · exact perm_append_comm
    · rw [items_cons, items_cons, append_assoc]
      exact ih.append_left _

/-- Every item stands in the group of its key. -/
def Keyed (keyOf : α → κ) (groups : Groups κ α) : Prop :=
  ∀ group ∈ groups, ∀ item ∈ group.2, keyOf item = group.1

theorem Keyed.push {keyOf : α → κ} {groups : Groups κ α} (keyed : Keyed keyOf groups) (item : α) :
    Keyed keyOf (push (keyOf item) item groups) := by
  induction groups with
  | nil => simp [Groups.push, Keyed]
  | cons group rest ih =>
    unfold Keyed at keyed
    rw [forall_mem_cons] at keyed
    unfold Groups.push Keyed
    split_ifs with same before
    · rw [forall_mem_cons, forall_mem_append, forall_mem_singleton]
      exact ⟨⟨keyed.1, same.symm⟩, keyed.2⟩
    · rw [forall_mem_cons, forall_mem_singleton, forall_mem_cons]
      exact ⟨rfl, keyed⟩
    · rw [forall_mem_cons]
      exact ⟨keyed.1, ih keyed.2⟩

end Push

/-! ## Sorted keys -/

section Sorted

variable [LinearOrder κ] {groups : Groups κ α}

/-- The keys strictly increase. -/
def Sorted (groups : Groups κ α) : Prop :=
  groups.Pairwise fun first second => first.1 < second.1

theorem mem_keys_push {key other : κ} {item : α} {group : κ × List α}
    (mem : group ∈ push key item groups) (after : ∀ old ∈ groups, other < old.1)
    (new : other < key) : other < group.1 := by
  induction groups with
  | nil =>
    rw [push, mem_singleton] at mem
    rw [mem]
    exact new
  | cons first rest ih =>
    rw [forall_mem_cons] at after
    unfold push at mem
    split_ifs at mem
    · rcases mem_cons.mp mem with rfl | old
      · exact after.1
      · exact after.2 _ old
    · rcases mem_cons.mp mem with rfl | old
      · exact new
      · rcases mem_cons.mp old with rfl | older
        · exact after.1
        · exact after.2 _ older
    · rcases mem_cons.mp mem with rfl | old
      · exact after.1
      · exact ih old after.2

theorem Sorted.push (sorted : Sorted groups) (key : κ) (item : α) :
    Sorted (push key item groups) := by
  induction groups with
  | nil => simp [Groups.push, Sorted]
  | cons first rest ih =>
    have parts := pairwise_cons.mp sorted
    unfold Groups.push Sorted
    split_ifs with same before
    · exact pairwise_cons.mpr parts
    · refine pairwise_cons.mpr ⟨?_, sorted⟩
      rw [forall_mem_cons]
      exact ⟨before, fun group mem => before.trans (parts.1 group mem)⟩
    · refine pairwise_cons.mpr ⟨?_, ih parts.2⟩
      intro group mem
      exact mem_keys_push mem parts.1 (lt_of_le_of_ne (not_lt.mp before) same)

/-- Taken from the last group to the first, the items' keys never increase. -/
theorem pairwise_items_reverse {keyOf : α → κ} (sorted : Sorted groups) (keyed : Keyed keyOf groups)
    (arrange : List α → List α) (arranged : ∀ items, (arrange items).Perm items) :
    (groups.reverse.flatMap fun group => arrange group.2).Pairwise
      fun first second => keyOf second ≤ keyOf first := by
  rw [pairwise_flatMap]
  constructor
  · intro group mem
    have same : ∀ item ∈ arrange group.2, keyOf item = group.1 := fun item itemMem =>
      keyed group (mem_reverse.mp mem) item ((arranged _).mem_iff.mp itemMem)
    rw [pairwise_iff_forall_sublist]
    intro first second pair
    have members := pair.subset
    rw [same first (members (by simp)), same second (members (by simp))]
  · rw [pairwise_reverse]
    refine List.Pairwise.imp_of_mem ?_ sorted
    intro lower upper lowerMem upperMem less first firstMem second secondMem
    rw [keyed upper upperMem first ((arranged _).mem_iff.mp firstMem),
      keyed lower lowerMem second ((arranged _).mem_iff.mp secondMem)]
    exact less.le

end Sorted

end Groups

end Syq.Lib
