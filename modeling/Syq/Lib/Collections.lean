import Mathlib

/-!
# Collections with accounting

Ordered sets with their least and greatest element, finite maps with a total
over their entries, lists whose sums are taken apart at one element, and
subtraction that fails instead of wrapping.  The accounting lemmas all have the
same shape: they say what one operation does to a total.
-/

namespace Syq.Lib

open Finmap Function

universe u v

/-! ## Bounded arithmetic -/

/-- The largest value of an unsigned 64-bit counter. -/
def u64Max : Nat :=
  2 ^ 64 - 1

/-- Addition that stops at the largest 64-bit value. -/
def saturatingAdd (left right : Nat) : Nat :=
  min (left + right) u64Max

/-- Subtraction of an unsigned counter; `none` is an underflow. -/
def checkedSub (value amount : Nat) : Option Nat :=
  if amount ≤ value then some (value - amount) else none

@[simp]
theorem checkedSub_eq_some_iff {value amount result : Nat} :
    checkedSub value amount = some result ↔ value = result + amount := by
  unfold checkedSub
  split <;> simp <;> omega

theorem checkedSub_of_le {value amount : Nat} (le : amount ≤ value) :
    checkedSub value amount = some (value - amount) :=
  if_pos le

/-- Addition of 64-bit counters that wraps around. -/
def wrappingAdd (left right : Nat) : Nat :=
  (left + right) % 2 ^ 64

/-- Subtraction of 64-bit counters that wraps around. -/
def wrappingSub (value amount : Nat) : Nat :=
  (value + (2 ^ 64 - amount % 2 ^ 64)) % 2 ^ 64

theorem wrappingAdd_mod (total more : Nat) :
    wrappingAdd (total % 2 ^ 64) more = (total + more) % 2 ^ 64 :=
  Nat.mod_add_mod ..

theorem wrappingSub_mod (amount rest : Nat) :
    wrappingSub ((amount + rest) % 2 ^ 64) amount = rest % 2 ^ 64 := by
  unfold wrappingSub
  omega

/-! ## Ordered sets -/

section OrderedSet

variable {α : Type u} [LinearOrder α] {a : α} {set : Finset α}

/-- The greatest element of an ordered set. -/
def last (set : Finset α) : Option α :=
  if nonempty : set.Nonempty then some (set.max' nonempty) else none

/-- The least element of an ordered set. -/
def first (set : Finset α) : Option α :=
  if nonempty : set.Nonempty then some (set.min' nonempty) else none

theorem last_eq_some_iff : last set = some a ↔ a ∈ set ∧ ∀ b ∈ set, b ≤ a := by
  unfold last
  split
  · rename_i ne
    constructor
    · intro equal
      obtain rfl := Option.some.inj equal
      exact ⟨set.max'_mem ne, fun b => set.le_max' b⟩
    · rintro ⟨mem, upper⟩
      exact congrArg some (le_antisymm (upper _ (set.max'_mem ne)) (set.le_max' a mem))
  · rename_i empty
    simp [Finset.not_nonempty_iff_eq_empty.mp empty]

@[simp]
theorem last_eq_none_iff : last set = none ↔ set = ∅ := by
  unfold last
  split
  · rename_i ne
    simp [ne.ne_empty]
  · rename_i empty
    simp [Finset.not_nonempty_iff_eq_empty.mp empty]

theorem mem_of_last (lastEq : last set = some a) : a ∈ set :=
  (last_eq_some_iff.mp lastEq).1

theorem mem_of_first (firstEq : first set = some a) : a ∈ set := by
  unfold first at firstEq
  split at firstEq
  · obtain rfl := Option.some.inj firstEq
    exact set.min'_mem _
  · cases firstEq

/-- Insert an element that must be new. -/
def insertNew (set : Finset α) (a : α) : Option (Finset α) :=
  if a ∈ set then none else some (insert a set)

/-- Remove an element that must be present. -/
def removeOld (set : Finset α) (a : α) : Option (Finset α) :=
  if a ∈ set then some (set.erase a) else none

theorem insertNew_of_notMem (absent : a ∉ set) : insertNew set a = some (insert a set) := by
  simp [insertNew, absent]

theorem removeOld_of_mem (present : a ∈ set) : removeOld set a = some (set.erase a) := by
  simp [removeOld, present]

end OrderedSet

/-! ## Totals over finite maps -/

section Total

variable {κ : Type u} [DecidableEq κ] {β : Type v}

/-- A finite map whose values all have one type. -/
abbrev Table (κ : Type u) (β : Type v) := Finmap fun _ : κ => β

variable {key : κ} {table : Table κ β} {value : β}

/-- The sum of `weight` over the entries of a finite map. -/
def total (weight : κ → β → Nat) (table : Table κ β) : Nat :=
  (table.entries.map fun entry => weight entry.1 entry.2).sum

omit [DecidableEq κ] in
@[simp]
theorem total_empty (weight : κ → β → Nat) : total weight (∅ : Table κ β) = 0 :=
  rfl

theorem total_insert_of_notMem (weight : κ → β → Nat) (absent : key ∉ table) (value : β) :
    total weight (table.insert key value) = weight key value + total weight table := by
  simp [total, entries_insert_of_notMem absent]

theorem insert_erase_self (table : Table κ β) (key : κ) (value : β) :
    (table.erase key).insert key value = table.insert key value := by
  refine ext_lookup fun other => ?_
  by_cases same : other = key
  · subst same
    simp
  · rw [lookup_insert_of_ne _ same, lookup_insert_of_ne _ same, lookup_erase_ne same]

theorem insert_of_lookup (found : table.lookup key = some value) :
    table.insert key value = table := by
  refine ext_lookup fun other => ?_
  by_cases same : other = key
  · subst same
    simp [found]
  · rw [lookup_insert_of_ne _ same]

/-- A key found after an insert is the inserted one, or was there before. -/
theorem cases_of_insert {other : κ} {found : β}
    (eq : (table.insert key value).lookup other = some found) :
    other = key ∧ value = found ∨ other ≠ key ∧ table.lookup other = some found := by
  by_cases same : other = key
  · subst same
    rw [lookup_insert] at eq
    exact .inl ⟨rfl, Option.some.inj eq⟩
  · rw [lookup_insert_of_ne _ same] at eq
    exact .inr ⟨same, eq⟩

/-- What holds of the inserted value and of those before holds of every value after. -/
theorem forall_of_insert {P : κ → β → Prop}
    (old : ∀ {other found}, table.lookup other = some found → P other found) (new : P key value)
    {other : κ} {found : β} (eq : (table.insert key value).lookup other = some found) :
    P other found := by
  rcases cases_of_insert eq with ⟨rfl, rfl⟩ | ⟨-, before⟩
  · exact new
  · exact old before

theorem lookup_of_erase {other : κ} {found : β}
    (eq : (table.erase key).lookup other = some found) : table.lookup other = some found := by
  by_cases same : other = key
  · subst same
    simp at eq
  · rwa [lookup_erase_ne same] at eq

theorem insert_eq_self_iff : table.insert key value = table ↔ table.lookup key = some value := by
  constructor
  · intro same
    rw [← same, lookup_insert]
  · exact insert_of_lookup

section

variable (weight : κ → β → Nat)

include weight

/-- Inserting is erasing and counting the new value. -/
theorem total_insert (table : Table κ β) (key : κ) (value : β) :
    total weight (table.insert key value) =
      weight key value + total weight (table.erase key) := by
  rw [← insert_erase_self, total_insert_of_notMem weight notMem_erase_self]

variable (found : table.lookup key = some value)

include found

/-- Taking one entry out of a total. -/
theorem total_of_lookup :
    total weight table = weight key value + total weight (table.erase key) := by
  rw [← total_insert weight table key value, insert_of_lookup found]

/-- Replacing the value of a key replaces one summand. -/
theorem total_update (newValue : β) :
    total weight (table.insert key newValue) + weight key value =
      total weight table + weight key newValue := by
  rw [total_insert, total_of_lookup weight found]
  omega

/-- Replacing a value by one of the same weight changes no total. -/
theorem total_update_eq {newValue : β} (same : weight key newValue = weight key value) :
    total weight (table.insert key newValue) = total weight table := by
  have changed := total_update weight found newValue
  omega

theorem le_total_of_lookup :
    weight key value ≤ total weight table := by
  rw [total_of_lookup weight found]
  exact Nat.le_add_right _ _

end

omit [DecidableEq κ] in
theorem total_eq_zero [DecidableEq κ] (weight : κ → β → Nat)
    (nothing : ∀ {key value}, table.lookup key = some value → weight key value = 0) :
    total weight table = 0 := by
  rw [total, Multiset.sum_eq_zero_iff]
  intro item mem
  rcases Multiset.mem_map.mp mem with ⟨entry, entryMem, rfl⟩
  exact nothing (mem_lookup_iff.mpr entryMem)

theorem erase_of_lookup_none (absent : table.lookup key = none) : table.erase key = table := by
  refine ext_lookup fun other => ?_
  by_cases same : other = key
  · subst same
    simp [absent]
  · rw [lookup_erase_ne same]

section Tabulates

variable {α : Type*} {items : List α} {item : α} {key : α → κ} {value : α → β}

/-- A table that has the value of each item under its key, and nothing else. -/
def Tabulates (key : α → κ) (value : α → β) (items : List α) (table : Table κ β) : Prop :=
  ∀ place found, table.lookup place = some found ↔
    ∃ item ∈ items, key item = place ∧ value item = found

variable (tabulates : Tabulates key value items table)

include tabulates

theorem Tabulates.mem_iff (place : κ) : place ∈ table ↔ ∃ item ∈ items, key item = place := by
  rw [Finmap.mem_iff]
  constructor
  · rintro ⟨found, isFound⟩
    rcases (tabulates place found).mp isFound with ⟨item, mem, same, -⟩
    exact ⟨item, mem, same⟩
  · rintro ⟨item, mem, same⟩
    exact ⟨_, (tabulates place _).mpr ⟨item, mem, same, rfl⟩⟩

theorem Tabulates.concat (fresh : key item ∉ table) :
    Tabulates key value (items ++ [item]) (table.insert (key item) (value item)) := by
  intro place found
  rw [tabulates.mem_iff] at fresh
  simp only [List.mem_append, List.mem_singleton]
  by_cases same : place = key item
  · rw [same, Finmap.lookup_insert]
    constructor
    · rintro ⟨⟩
      exact ⟨item, .inr rfl, rfl, rfl⟩
    · rintro ⟨other, mem | rfl, keys, rfl⟩
      · exact absurd ⟨other, mem, keys⟩ fresh
      · rfl
  · rw [Finmap.lookup_insert_of_ne _ same, tabulates]
    constructor
    · rintro ⟨other, mem, isFound⟩
      exact ⟨other, .inl mem, isFound⟩
    · rintro ⟨other, mem | rfl, keys, isFound⟩
      · exact ⟨other, mem, keys, isFound⟩
      · exact absurd keys.symm same

end Tabulates

end Total

/-! ## Largest element of a list -/

theorem max?_eq_foldr (items : List Nat) :
    items.max? = if items = [] then none else some (items.foldr max 0) := by
  induction items with
  | nil => rfl
  | cons item rest ih =>
    rw [List.max?_cons, ih]
    by_cases empty : rest = []
    · simp [empty]
    · simp [empty]

theorem foldr_max_append (first second : List Nat) :
    (first ++ second).foldr max 0 = max (first.foldr max 0) (second.foldr max 0) := by
  induction first with
  | nil => simp
  | cons item rest ih =>
    rw [List.cons_append, List.foldr_cons, List.foldr_cons, ih, Nat.max_assoc]

theorem le_foldr_max {items : List Nat} {item : Nat} (mem : item ∈ items) :
    item ≤ items.foldr max 0 := by
  induction items with
  | nil => cases mem
  | cons first rest ih =>
    rcases List.mem_cons.mp mem with rfl | later
    · exact Nat.le_max_left _ _
    · exact Nat.le_trans (ih later) (Nat.le_max_right _ _)

theorem foldr_max_le {items : List Nat} {bound : Nat} (below : ∀ item ∈ items, item ≤ bound) :
    items.foldr max 0 ≤ bound := by
  induction items with
  | nil => exact Nat.zero_le bound
  | cons first rest ih =>
    exact Nat.max_le.mpr ⟨below first List.mem_cons_self,
      ih fun item mem => below item (List.mem_cons_of_mem first mem)⟩

/-! ## Sums over lists -/

section ListSum

variable {α : Type u} [DecidableEq α] {a : α} {items : List α}

/-- A sum over a list without repetitions, taken apart at one member. -/
theorem sum_map_eq_add_filter (f : α → Nat) (nodup : items.Nodup) (mem : a ∈ items) :
    (items.map f).sum = f a + ((items.filter (· ≠ a)).map f).sum := by
  have keep : items.erase a = items.filter (· ≠ a) := by
    rw [List.Nodup.erase_eq_filter nodup]
    exact List.filter_congr fun b _ => by simp [bne, beq_eq_decide]
  rw [← List.sum_map_erase f mem, keep]

/-- Changing a summand at one member of a list without repetitions. -/
theorem sum_map_change {f g : α → Nat} (nodup : items.Nodup) (mem : a ∈ items)
    (agree : ∀ b, b ≠ a → f b = g b) : (items.map f).sum + g a = (items.map g).sum + f a := by
  rw [sum_map_eq_add_filter f nodup mem, sum_map_eq_add_filter g nodup mem]
  have rest : ((items.filter (· ≠ a)).map f).sum = ((items.filter (· ≠ a)).map g).sum :=
    congrArg List.sum (List.map_congr_left fun b bMem =>
      agree b (by simpa using (List.mem_filter.mp bMem).2))
  omega

omit [DecidableEq α] in
/-- Replacing one item of a list replaces its summand. -/
theorem sum_map_set {M : Type v} [AddCommMonoid M] (f : α → M) {i : Nat}
    (found : items[i]? = some a) (b : α) :
    ((items.set i b).map f).sum + f a = (items.map f).sum + f b := by
  induction items generalizing i with
  | nil => simp at found
  | cons item rest ih =>
    cases i with
    | zero =>
      obtain rfl : item = a := by simpa using found
      simp only [List.set_cons_zero, List.map_cons, List.sum_cons]
      abel
    | succ i =>
      have smaller := ih (i := i) (by simpa using found)
      simp only [List.set_cons_succ, List.map_cons, List.sum_cons, add_assoc, smaller]

end ListSum

/-! ## Sums over finite sets and multiset counts -/

section PointChange

variable {ι : Type u} [DecidableEq ι] {β : Type v}

/-- A slot that holds something after one slot was written is that slot, or held it before. -/
theorem cases_of_update {f : ι → Option β} {key other : ι} {value found : β}
    (eq : update f key (some value) other = some found) :
    other = key ∧ value = found ∨ f other = some found := by
  by_cases same : other = key
  · subst same
    rw [update_self] at eq
    exact .inl ⟨rfl, Option.some.inj eq⟩
  · rw [update_of_ne same] at eq
    exact .inr eq

/-- A key that claimants hold alone is held alone after one slot was written, when no other
slot's claimant holds the key written there. -/
theorem unique_update {κ : Type*} {f : ι → Option β} {slot : ι} {value : β} {claims : β → Prop}
    {key : β → κ}
    (unique : ∀ first second one other, f first = some one → f second = some other →
      claims one → claims other → key one = key other → first = second)
    (owner : claims value → ∀ other found, f other = some found → claims found →
      key found = key value → other = slot) :
    ∀ first second one other, update f slot (some value) first = some one →
      update f slot (some value) second = some other →
      claims one → claims other → key one = key other → first = second := by
  intro first second one other firstFound secondFound firstClaims secondClaims same
  rcases cases_of_update firstFound with ⟨rfl, rfl⟩ | firstOld
  · rcases cases_of_update secondFound with ⟨rfl, -⟩ | secondOld
    · rfl
    · exact (owner firstClaims second other secondOld secondClaims same.symm).symm
  · rcases cases_of_update secondFound with ⟨rfl, rfl⟩ | secondOld
    · exact owner secondClaims first one firstOld firstClaims same
    · exact unique first second one other firstOld secondOld firstClaims secondClaims same

/-- Changing a function at one member of a finite set changes one summand. -/
theorem sum_update_add {set : Finset ι} {i : ι} (mem : i ∈ set) (f : ι → β) (value : β)
    (weight : β → Nat) :
    ∑ j ∈ set, weight (update f i value j) + weight (f i) =
      ∑ j ∈ set, weight (f j) + weight value := by
  rw [← Finset.sum_erase_add _ _ mem, ← Finset.sum_erase_add set (fun j => weight (f j)) mem,
    update_self]
  have rest : ∑ j ∈ set.erase i, weight (update f i value j) =
      ∑ j ∈ set.erase i, weight (f j) :=
    Finset.sum_congr rfl fun j jMem => by rw [update_of_ne (Finset.ne_of_mem_erase jMem)]
  omega

/-- Adding a member with a value of its own adds one summand. -/
theorem sum_insert_update {set : Finset ι} {i : ι} (absent : i ∉ set) (f : ι → β) (value : β)
    (weight : β → Nat) :
    ∑ j ∈ insert i set, weight (update f i value j) =
      ∑ j ∈ set, weight (f j) + weight value := by
  rw [Finset.sum_insert absent, update_self, Nat.add_comm]
  congr 1
  refine Finset.sum_congr rfl fun j jMem => ?_
  rw [update_of_ne]
  rintro rfl
  exact absent jMem

/-- Erasing a member takes one from its count. -/
theorem count_erase_add {items : Multiset ι} {a : ι} (mem : a ∈ items) (b : ι) :
    items.count b = (items.erase a).count b + if b = a then 1 else 0 := by
  conv_lhs => rw [← Multiset.cons_erase mem]
  exact Multiset.count_cons b a _

end PointChange

/-! ## Priority queues -/

/-- A priority queue, kept in descending order. -/
structure Heap (α : Type u) [LinearOrder α] where
  items : List α
  sorted : items.Pairwise (· ≥ ·)

namespace Heap

variable {α : Type u} [LinearOrder α] {a : α} {heap : Heap α}

def empty : Heap α :=
  ⟨[], List.Pairwise.nil⟩

/-- The greatest element. -/
def peek (heap : Heap α) : Option α :=
  heap.items.head?

def push (heap : Heap α) (a : α) : Heap α :=
  ⟨heap.items.orderedInsert (· ≥ ·) a, heap.sorted.orderedInsert a _⟩

/-- Take the greatest element. -/
def pop (heap : Heap α) : Option (α × Heap α) :=
  match heap with
  | ⟨[], _⟩ => none
  | ⟨a :: rest, sorted⟩ => some (a, ⟨rest, sorted.of_cons⟩)

/-- The elements with their multiplicities. -/
def contents (heap : Heap α) : Multiset α :=
  heap.items

@[simp]
theorem contents_empty : (empty : Heap α).contents = 0 :=
  rfl

@[simp]
theorem peek_empty : (empty : Heap α).peek = none :=
  rfl

@[simp]
theorem contents_push (heap : Heap α) (a : α) :
    (heap.push a).contents = a ::ₘ heap.contents := by
  rw [contents, contents, Multiset.cons_coe, Multiset.coe_eq_coe]
  exact List.perm_orderedInsert _ a heap.items

theorem peek_eq_none_iff : heap.peek = none ↔ heap.contents = 0 := by
  simp [peek, contents]

theorem pop_eq_none_iff : heap.pop = none ↔ heap.contents = 0 := by
  rcases heap with ⟨_ | ⟨a, rest⟩, sorted⟩ <;> simp [pop, contents]

theorem pop_eq_some {rest : Heap α} (popped : heap.pop = some (a, rest)) :
    heap.peek = some a ∧ heap.contents = a ::ₘ rest.contents := by
  rcases heap with ⟨_ | ⟨b, tail⟩, sorted⟩
  · simp [pop] at popped
  · rcases popped with ⟨rfl, rfl⟩
    exact ⟨rfl, rfl⟩

theorem le_of_peek {b : α} (peeked : heap.peek = some a) (mem : b ∈ heap.contents) : b ≤ a := by
  rcases heap with ⟨_ | ⟨top, rest⟩, sorted⟩
  · cases peeked
  · cases peeked
    rcases List.mem_cons.mp mem with rfl | later
    · exact le_refl _
    · exact (List.pairwise_cons.mp sorted).1 b later

theorem mem_of_peek (peeked : heap.peek = some a) : a ∈ heap.contents :=
  List.mem_of_head? peeked

theorem peek_push_isSome (heap : Heap α) (a : α) : ∃ head, (heap.push a).peek = some head := by
  apply Option.ne_none_iff_exists'.mp
  intro none
  rw [peek_eq_none_iff, contents_push] at none
  exact Multiset.cons_ne_zero none

end Heap

end Syq.Lib
