import Syq.Lib.Collections
import Syq.Lib.Transition

/-!
# The queue of unprobed files

`FileQueue` keeps the queued files largest first.  Files of one destination
directory share a heap, and an ordered set holds the head of every nonempty heap.
Equal sizes are spread by comparing bit-reversed indices.  The queue is looked at
through `jobs`, the multiset of queued file indices: the results of this module
say what every operation does to it, and that the counters keep up with it.
-/

namespace Syq.Sched

open Syq.Lib Heap List Option Function

/-- A destination path. -/
abbrev PathBytes := List UInt8

/-- `usize::reverse_bits` on a 64-bit machine. -/
def reverseBits (idx : Nat) : Nat :=
  (BitVec.ofNat 64 idx).reverse.toNat

variable {idx : Nat}

theorem reverseBits_reverseBits (fits : idx < 2 ^ 64) :
    reverseBits (reverseBits idx) = idx := by
  simp only [reverseBits, BitVec.ofNat_toNat, BitVec.setWidth_eq, BitVec.reverse_reverse_eq]
  exact Nat.mod_eq_of_lt fits

/-- A queued file: its size, and its bit-reversed index as `FileOrder` keeps it. -/
@[ext]
structure FileKey where
  size : Nat
  order : Nat

namespace FileKey

/-- `(size, Reverse(FileOrder::new(idx)))`. -/
def of (size idx : Nat) : FileKey :=
  ⟨size, reverseBits idx⟩

/-- `FileOrder::index`. -/
def index (key : FileKey) : Nat :=
  reverseBits key.order

theorem index_of (size : Nat) (fits : idx < 2 ^ 64) : (of size idx).index = idx :=
  reverseBits_reverseBits fits

/-- Larger files first; among equal sizes the smaller reversed index first. -/
def priority (key : FileKey) : Nat ×ₗ Natᵒᵈ :=
  toLex (key.size, OrderDual.toDual key.order)

theorem priority_injective : Function.Injective priority := by
  intro left right equal
  cases left
  simp_all [priority]

instance : LinearOrder FileKey :=
  LinearOrder.lift' priority priority_injective

end FileKey

/-- The head of a directory's heap, in the global order of heads. -/
@[ext]
structure HeadKey where
  key : FileKey
  group : Nat

namespace HeadKey

def priority (head : HeadKey) : FileKey ×ₗ Nat :=
  toLex (head.key, head.group)

theorem priority_injective : Function.Injective priority := by
  intro left right equal
  cases left
  simp_all [priority]

instance : LinearOrder HeadKey :=
  LinearOrder.lift' priority priority_injective

end HeadKey

structure FileQueue where
  heads : Finset HeadKey
  directories : PathBytes → Option Nat
  groups : List (Heap FileKey)
  groupOf : List Nat
  count : Nat
  /-- A 64-bit sum, which wraps around. -/
  bytes : Nat

namespace FileQueue

variable {heads : Finset HeadKey} {groups : List (Heap FileKey)} {group maxSize maxN maxBytes : Nat}
variable {heap rest : Heap FileKey} {queue source : FileQueue} {state : Gather} {first : Option Nat}

/-- The queue `FileQueue::default()`. -/
def empty : FileQueue :=
  ⟨∅, fun _ => none, [], [], 0, 0⟩

/-- The directory part of a destination: everything before the last `/`. -/
def parent (destination : PathBytes) : PathBytes :=
  match destination.reverse.findIdx? (· == 47) with
  | none => destination.take 0
  | some i => destination.take (destination.length - 1 - i)

/-- Find or create the group of a directory. -/
def directoryGroup (queue : FileQueue) (directory : PathBytes) : Nat × FileQueue :=
  match queue.directories directory with
  | some group => (group, queue)
  | none =>
    (queue.groups.length, { queue with
        groups := queue.groups ++ [Heap.empty]
        directories :=
          Function.update queue.directories directory (some queue.groups.length) })

def register (queue : FileQueue) (idx : Nat) (destination : PathBytes) : FileQueue :=
  let (group, grouped) := queue.directoryGroup (parent destination)
  let resized := grouped.groupOf ++
    List.replicate (max grouped.groupOf.length (idx + 1) - grouped.groupOf.length) 0
  { grouped with groupOf := resized.set idx group }

/-- Replace the head of a group in the set of heads. -/
def moveHead (heads : Finset HeadKey) (group : Nat) (previous next : Option FileKey) :
    Finset HeadKey :=
  let rest := match previous with
    | none => heads
    | some key => heads.erase ⟨key, group⟩
  match next with
  | none => rest
  | some key => insert ⟨key, group⟩ rest

def push (queue : FileQueue) (item : FileKey) : Option FileQueue := do
  let group ← queue.groupOf[item.index]?
  let heap ← queue.groups[group]?
  let previous := heap.peek
  let grown := heap.push item
  let head ← grown.peek
  return { queue with
    -- Most siblings do not change their directory's global priority.
    heads := if previous = some head then queue.heads
      else moveHead queue.heads group previous (some head)
    groups := queue.groups.set group grown
    bytes := wrappingAdd queue.bytes item.size
    count := queue.count + 1 }

def popGroup (queue : FileQueue) (group : Nat) : Option (Option FileKey × FileQueue) := do
  let heap ← queue.groups[group]?
  match heap.pop with
  | none => return (none, queue)
  | some (item, rest) =>
    let count ← checkedSub queue.count 1
    return (some item, { queue with
      heads := moveHead queue.heads group (some item) rest.peek
      groups := queue.groups.set group rest
      bytes := wrappingSub queue.bytes item.size
      count })

def pop (queue : FileQueue) : Option (Option FileKey × FileQueue) :=
  match last queue.heads with
  | none => some (none, queue)
  | some head => queue.popGroup head.group

def isEmpty (queue : FileQueue) : Bool :=
  queue.count == 0

/-! ## Taking a batch of small files -/

/-- The inner loop of `take_small_group`: pop from one heap while its head fits
the size limit and the byte budget.  The test-only global order, `single`,
reconsiders every head. -/
def drain (single : Bool) (maxSize maxBytes : Nat) :
    Nat → Heap FileKey → Nat → List FileKey × Heap FileKey
  | 0, heap, _ => ([], heap)
  | room + 1, heap, bytes =>
    match heap.pop with
    | none => ([], heap)
    | some (item, rest) =>
      if maxSize < item.size ∨ maxBytes - bytes < item.size then ([], heap)
      else if single then ([item], rest)
      else
        let (more, left) := drain single maxSize maxBytes room rest (bytes + item.size)
        (item :: more, left)

/-- The state of the outer loop of `take_small_group`. -/
structure Gather where
  queue : FileQueue
  group : Option Nat
  out : List FileKey
  bytes : Nat

/-- The group of the globally first head. -/
def headGroup (queue : FileQueue) : Option Nat :=
  (last queue.heads).map HeadKey.group

/-- The group the next round starts from: exhaust nearby siblings before moving
on to the globally first head. -/
def Gather.nextGroup (state : Gather) : Option (Option Nat) :=
  match state.group with
  | none => some none
  | some group => do
      let heap ← state.queue.groups[group]?
      return if heap.peek = none then state.queue.headGroup else some group

/-- Move the files drained from a group to the batch.  The global directory head
is updated once, after the siblings are drained. -/
def Gather.take (state : Gather) (selected : Nat) (head : FileKey) (taken : List FileKey)
    (rest : Heap FileKey) : Gather :=
  { state with
    queue := { state.queue with
      heads := moveHead state.queue.heads selected (some head) rest.peek
      groups := state.queue.groups.set selected rest }
    out := state.out ++ taken
    bytes := state.bytes + (taken.map FileKey.size).sum }

/-- One round of the outer loop; `false` in the second component ends it. -/
def Gather.round (single : Bool) (maxSize maxN maxBytes : Nat) (state : Gather) :
    Option (Gather × Bool) := do
  let group ← state.nextGroup
  let state := { state with group }
  match group.or state.queue.headGroup with
  | none => return (state, false)
  | some selected =>
    let heap ← state.queue.groups[selected]?
    match heap.peek with
    | none => return (state, false)
    | some head =>
      if maxSize < head.size ∨ maxBytes - state.bytes < head.size then
        return (state, false)
      let (taken, rest) :=
        drain single maxSize maxBytes (maxN - state.out.length) heap state.bytes
      return (state.take selected head taken rest, true)

/-- The outer loop.  Every round that does not end it takes a file, so `maxN`
rounds are enough. -/
def gather (single : Bool) (maxSize maxN maxBytes : Nat) : Nat → Gather → Option Gather
  | 0, state => some state
  | fuel + 1, state =>
    if state.out.length < maxN then do
      let (next, again) ← state.round single maxSize maxN maxBytes
      if again then gather single maxSize maxN maxBytes fuel next else return next
    else some state

/-- The group of the file a batch is gathered around, if there is one. -/
def startGroup (queue : FileQueue) : Option Nat → Option (Option Nat)
  | none => some none
  | some idx => (queue.groupOf[idx]?).map some

/-- `take_small_group`: `first` is the file whose directory is drained first. -/
def takeSmallGroup (queue : FileQueue) (first : Option Nat) (maxSize maxN maxBytes : Nat) :
    Option (List Nat × FileQueue) := do
  let group ← queue.startGroup first
  let state ← gather first.isNone maxSize maxN maxBytes maxN ⟨queue, group, [], 0⟩
  let count ← checkedSub state.queue.count state.out.length
  return (state.out.map FileKey.index, { state.queue with
    bytes := wrappingSub state.queue.bytes state.bytes
    count })

/-! ## The set of heads -/

/-- The heads are exactly the heads of the nonempty groups. -/
def Heads (heads : Finset HeadKey) (groups : List (Heap FileKey)) : Prop :=
  ∀ head, head ∈ heads ↔ ∃ heap, groups[head.group]? = some heap ∧ heap.peek = some head.key

theorem Heads.mem_iff (valid : Heads heads groups) (found : groups[group]? = some heap)
    (key : FileKey) : ⟨key, group⟩ ∈ heads ↔ heap.peek = some key :=
  (valid ⟨key, group⟩).trans (by simp [found])

/-- Changing the heap of one group is changing that group's head. -/
theorem Heads.set {others : Finset HeadKey} (valid : Heads heads groups) {next : Heap FileKey}
    (found : groups[group]? = some heap)
    (otherGroups : ∀ head, head.group ≠ group → (head ∈ others ↔ head ∈ heads))
    (thisGroup : ∀ key, ⟨key, group⟩ ∈ others ↔ next.peek = some key) :
    Heads others (groups.set group next) := by
  rintro ⟨key, which⟩
  by_cases same : which = group
  · subst same
    have inside : which < groups.length := (List.getElem?_eq_some_iff.mp found).1
    simp [thisGroup, getElem?_set_self inside]
  · rw [otherGroups _ same, valid _]
    simp only [getElem?_set_ne (Ne.symm same)]

theorem mem_moveHead_of_ne {prev next : Option FileKey} {head : HeadKey}
    (other : head.group ≠ group) : head ∈ moveHead heads group prev next ↔ head ∈ heads := by
  have differs : ∀ key, head ≠ ⟨key, group⟩ := by
    rintro key rfl
    exact other rfl
  cases prev <;> cases next <;> simp [moveHead, differs]

theorem Heads.moveHead (valid : Heads heads groups) (found : groups[group]? = some heap)
    (next : Heap FileKey) :
    Heads (moveHead heads group heap.peek next.peek) (groups.set group next) := by
  refine valid.set found (fun head other => mem_moveHead_of_ne other) fun key => ?_
  have present := valid.mem_iff found key
  cases prevEq : heap.peek <;> cases nextEq : next.peek <;>
    simp only [FileQueue.moveHead, Finset.mem_insert, Finset.mem_erase, HeadKey.mk.injEq,
      present, prevEq] <;> grind

/-! ## Well-formed queues -/

/-- The keys of all groups. -/
def keysOf (groups : List (Heap FileKey)) : Multiset FileKey :=
  (groups.map Heap.contents).sum

/-- The queued files, by index. -/
def jobs (queue : FileQueue) : Multiset Nat :=
  (keysOf queue.groups).map FileKey.index

theorem keysOf_set (found : groups[group]? = some heap) (next : Heap FileKey) :
    keysOf (groups.set group next) + heap.contents = keysOf groups + next.contents :=
  sum_map_set Heap.contents found next

/-- What every operation of the queue maintains. -/
structure Wf (queue : FileQueue) : Prop where
  heads : Heads queue.heads queue.groups
  groupOf : ∀ group ∈ queue.groupOf, group < queue.groups.length
  directories : ∀ {directory group}, queue.directories directory = some group →
    group < queue.groups.length
  count : queue.count = (keysOf queue.groups).card
  bytes : queue.bytes = ((keysOf queue.groups).map FileKey.size).sum % 2 ^ 64

theorem wf_empty : Wf empty where
  heads head := by simp [empty]
  groupOf := by simp [empty]
  directories := by simp [empty]
  count := rfl
  bytes := rfl

@[simp]
theorem jobs_empty : empty.jobs = 0 :=
  rfl

theorem Wf.count_eq_card (wf : queue.Wf) : queue.count = queue.jobs.card := by
  rw [wf.count, jobs, Multiset.card_map]

/-- The queue says that it is empty exactly when no file is queued. -/
theorem Wf.isEmpty_iff (wf : queue.Wf) : queue.isEmpty = true ↔ queue.jobs = 0 := by
  rw [isEmpty, beq_iff_eq, wf.count_eq_card, Multiset.card_eq_zero]

/-- The heap a registered file belongs to. -/
theorem Wf.group_of_registered (wf : queue.Wf) (registered : idx < queue.groupOf.length) :
    ∃ group heap, queue.groupOf[idx]? = some group ∧ queue.groups[group]? = some heap := by
  have found := getElem?_eq_getElem registered
  have inside := wf.groupOf _ (getElem_mem registered)
  exact ⟨_, _, found, getElem?_eq_getElem inside⟩

/-! ## What the operations do -/

/-- Queueing a registered file adds exactly it. -/
theorem Wf.push (wf : queue.Wf) (item : FileKey) (registered : item.index < queue.groupOf.length) :
    ∃ next, queue.push item = some next ∧ next.Wf ∧ next.jobs = item.index ::ₘ queue.jobs ∧
      next.groupOf = queue.groupOf := by
  rcases wf.group_of_registered registered with ⟨group, heap, groupEq, heapEq⟩
  rcases heap.peek_push_isSome item with ⟨head, headEq⟩
  have keys : keysOf (queue.groups.set group (heap.push item)) =
      item ::ₘ keysOf queue.groups := by
    have exchange := keysOf_set heapEq (heap.push item)
    rw [contents_push, Multiset.add_cons, ← Multiset.cons_add] at exchange
    exact add_right_cancel exchange
  have heads : Heads
      (if heap.peek = some head then queue.heads
        else moveHead queue.heads group heap.peek (some head))
      (queue.groups.set group (heap.push item)) := by
    split
    · rename_i unchanged
      refine wf.heads.set heapEq (fun _ _ => Iff.rfl) fun key => ?_
      rw [wf.heads.mem_iff heapEq, headEq, unchanged]
    · rw [← headEq]
      exact wf.heads.moveHead heapEq _
  let next := { queue with
    heads := if heap.peek = some head then queue.heads
      else moveHead queue.heads group heap.peek (some head)
    groups := queue.groups.set group (heap.push item)
    bytes := wrappingAdd queue.bytes item.size
    count := queue.count + 1 }
  refine ⟨next, by simp [FileQueue.push, groupEq, heapEq, headEq, next],
    ⟨heads, ?_, ?_, ?_, ?_⟩, ?_, rfl⟩
  · simpa [next] using wf.groupOf
  · intro dir which found
    simpa [next] using wf.directories found
  · simp only [next, keys, Multiset.card_cons, wf.count]
  · simp only [next, keys, Multiset.map_cons, Multiset.sum_cons]
    rw [wf.bytes, wrappingAdd_mod, Nat.add_comm]
  · simp only [next, jobs, keys, Multiset.map_cons]

/-- Taking items out of one group takes them out of the queue. -/
theorem keysOf_takeOut (found : groups[group]? = some heap) {taken : Multiset FileKey}
    (split : heap.contents = taken + rest.contents) :
    keysOf groups = taken + keysOf (groups.set group rest) := by
  have exchange := keysOf_set found rest
  rw [split, ← add_assoc, add_comm _ taken] at exchange
  exact (add_right_cancel exchange).symm

theorem Wf.popGroup (wf : queue.Wf) (found : queue.groups[group]? = some heap) {item : FileKey}
    (popped : heap.pop = some (item, rest)) :
    ∃ next, queue.popGroup group = some (some item, next) ∧ next.Wf ∧
      queue.jobs = item.index ::ₘ next.jobs ∧ next.groupOf = queue.groupOf := by
  rcases pop_eq_some popped with ⟨peekEq, contentsEq⟩
  rw [← Multiset.singleton_add] at contentsEq
  have keys := keysOf_takeOut found contentsEq
  rw [Multiset.singleton_add] at keys
  have heads := wf.heads.moveHead found rest
  rw [peekEq] at heads
  have countEq := wf.count
  have bytesEq := wf.bytes
  rw [keys] at countEq bytesEq
  simp only [Multiset.card_cons, Multiset.map_cons, Multiset.sum_cons] at countEq bytesEq
  have countSub := @checkedSub_of_le queue.count 1 (by omega)
  let next := { queue with
    heads := moveHead queue.heads group (some item) rest.peek
    groups := queue.groups.set group rest
    bytes := wrappingSub queue.bytes item.size
    count := queue.count - 1 }
  refine ⟨next, by simp only [FileQueue.popGroup, found, popped, countSub,
    Option.bind_eq_bind, Option.bind_some, Option.pure_def, next],
    ⟨heads, ?_, ?_, ?_, ?_⟩, ?_, rfl⟩
  · simpa [next] using wf.groupOf
  · intro dir which found
    simpa [next] using wf.directories found
  · simp only [next]
    omega
  · simp only [next, bytesEq]
    exact wrappingSub_mod _ _
  · simp only [next, jobs, keys, Multiset.map_cons]

/-- The queue gives out one of its files unless it has none. -/
theorem Wf.pop (wf : queue.Wf) :
    (queue.pop = some (none, queue) ∧ queue.jobs = 0) ∨
      ∃ item next, queue.pop = some (some item, next) ∧ next.Wf ∧
        queue.jobs = item.index ::ₘ next.jobs ∧ next.groupOf = queue.groupOf := by
  cases lastEq : last queue.heads with
  | none =>
    left
    refine ⟨by simp [FileQueue.pop, lastEq], ?_⟩
    have noHeads := last_eq_none_iff.mp lastEq
    have emptyGroups : ∀ contents ∈ queue.groups.map Heap.contents, contents = 0 := by
      intro contents contentsMem
      rcases mem_map.mp contentsMem with ⟨heap, heapMem, rfl⟩
      rcases getElem?_of_mem heapMem with ⟨group, found⟩
      rw [← peek_eq_none_iff]
      cases peekEq : heap.peek with
      | none => rfl
      | some key =>
        have head := (wf.heads.mem_iff found key).mpr peekEq
        simp [noHeads] at head
    rw [jobs, keysOf, sum_eq_zero emptyGroups, Multiset.map_zero]
  | some head =>
    right
    rcases (wf.heads head).mp (mem_of_last lastEq) with ⟨heap, found, peekEq⟩
    have ne : heap.pop ≠ none := by
      rw [Ne, pop_eq_none_iff, ← peek_eq_none_iff, peekEq]
      simp
    rcases ne_none_iff_exists'.mp ne with ⟨⟨item, rest⟩, popped⟩
    rcases wf.popGroup found popped with ⟨next, popEq, spec⟩
    exact ⟨item, next, by simp [FileQueue.pop, lastEq, popEq], spec⟩

/-! ## Registration -/

theorem Heads.append_empty (valid : Heads heads groups) : Heads heads (groups ++ [Heap.empty]) := by
  intro head
  rw [valid head]
  rcases Nat.lt_trichotomy head.group groups.length with inside | new | outside
  · rw [getElem?_append_left inside]
  · simp [new]
  · rw [getElem?_eq_none (Nat.le_of_lt outside),
      getElem?_eq_none (by simp only [length_append, length_singleton]; omega)]

theorem directoryGroup_spec (wf : queue.Wf) (directory : PathBytes) :
    (queue.directoryGroup directory).2.Wf ∧
      (queue.directoryGroup directory).1 < (queue.directoryGroup directory).2.groups.length ∧
      (queue.directoryGroup directory).2.jobs = queue.jobs ∧
      (queue.directoryGroup directory).2.groupOf = queue.groupOf := by
  unfold directoryGroup
  cases found : queue.directories directory with
  | some group => exact ⟨wf, wf.directories found, rfl, rfl⟩
  | none =>
    have keys : keysOf (queue.groups ++ [Heap.empty]) = keysOf queue.groups := by
      simp [keysOf]
    have grown : (queue.groups ++ [(Heap.empty : Heap FileKey)]).length =
        queue.groups.length + 1 := by simp
    refine ⟨⟨wf.heads.append_empty, ?_, ?_, ?_, ?_⟩, by simp, by simp only [jobs, keys], rfl⟩
    · intro group groupMem
      have old := wf.groupOf group groupMem
      dsimp only
      omega
    · intro other group groupEq
      dsimp only at groupEq ⊢
      by_cases same : other = directory
      · subst same
        rw [update_self] at groupEq
        have new := some.inj groupEq
        omega
      · rw [update_of_ne same] at groupEq
        have old := wf.directories groupEq
        omega
    · rw [keys]
      exact wf.count
    · rw [keys]
      exact wf.bytes

/-- Registering a file gives it a group and queues nothing. -/
theorem Wf.register (wf : queue.Wf) (idx : Nat) (dest : PathBytes) :
    (queue.register idx dest).Wf ∧
      (queue.register idx dest).jobs = queue.jobs ∧
      (queue.register idx dest).groupOf.length = max queue.groupOf.length (idx + 1) := by
  rcases directoryGroup_spec wf (parent dest) with ⟨grouped, inside, jobsEq, groupOfEq⟩
  refine ⟨⟨grouped.heads, ?_, grouped.directories, grouped.count, grouped.bytes⟩, jobsEq, ?_⟩
  · intro group groupMem
    simp only [FileQueue.register] at groupMem ⊢
    rcases mem_or_eq_of_mem_set groupMem with old | rfl
    · rcases mem_append.mp old with old | filler
      · exact grouped.groupOf group old
      · obtain rfl := eq_of_mem_replicate filler
        omega
    · exact inside
  · simp only [FileQueue.register, length_set, length_append, length_replicate, groupOfEq]
    omega

/-! ## Batches of small files -/

theorem drain_contents (single : Bool) (maxSize maxBytes room : Nat) (heap : Heap FileKey)
    (bytes : Nat) :
    heap.contents = ((drain single maxSize maxBytes room heap bytes).1 : Multiset FileKey) +
      (drain single maxSize maxBytes room heap bytes).2.contents := by
  induction room generalizing heap bytes with
  | zero => simp [drain]
  | succ room ih =>
    cases popped : heap.pop with
    | none => simp [drain, popped]
    | some top =>
      rcases top with ⟨item, rest⟩
      rcases pop_eq_some popped with ⟨-, contentsEq⟩
      simp only [drain, popped]
      split
      · simp
      · split
        · simpa using contentsEq
        · rw [contentsEq, ih rest (bytes + item.size)]
          simp only [← Multiset.cons_coe, Multiset.cons_add]

/-- Where the outer loop of `take_small_group` stands: nothing of the queue it
started from is lost, and only the heaps and their heads have changed. -/
structure Gather.Valid (source : FileQueue) (state : Gather) : Prop where
  keys : keysOf source.groups = (state.out : Multiset FileKey) + keysOf state.queue.groups
  bytes : state.bytes = (state.out.map FileKey.size).sum
  heads : Heads state.queue.heads state.queue.groups
  length : state.queue.groups.length = source.groups.length
  group : ∀ {group}, state.group = some group → group < source.groups.length
  directories : state.queue.directories = source.directories
  groupOf : state.queue.groupOf = source.groupOf
  queueCount : state.queue.count = source.count
  queueBytes : state.queue.bytes = source.bytes

section

variable (valid : state.Valid source)

include valid

theorem Gather.Valid.headGroup_lt (headEq : state.queue.headGroup = some group) :
    group < source.groups.length := by
  rcases map_eq_some_iff.mp headEq with ⟨head, lastEq, rfl⟩
  rcases (valid.heads head).mp (mem_of_last lastEq) with ⟨heap, found, -⟩
  rw [← valid.length]
  exact (List.getElem?_eq_some_iff.mp found).1

theorem Gather.Valid.nextGroup :
    ∃ group, state.nextGroup = some group ∧ Gather.Valid source { state with group } := by
  cases groupEq : state.group with
  | none =>
    refine ⟨none, by simp [Gather.nextGroup, groupEq], ?_⟩
    exact { valid with group := by simp }
  | some group =>
    have inside : group < state.queue.groups.length := by
      rw [valid.length]
      exact valid.group groupEq
    refine ⟨if state.queue.groups[group].peek = none then state.queue.headGroup else some group,
      by simp [Gather.nextGroup, groupEq, getElem?_eq_getElem inside], ?_⟩
    refine { valid with group := ?_ }
    intro other otherEq
    split at otherEq
    · exact valid.headGroup_lt otherEq
    · exact valid.group (groupEq.trans otherEq)

theorem Gather.Valid.take {selected : Nat} {head : FileKey} {taken : List FileKey}
    (found : state.queue.groups[selected]? = some heap) (peekEq : heap.peek = some head)
    (split : heap.contents = (taken : Multiset FileKey) + rest.contents) :
    (state.take selected head taken rest).Valid source := by
  refine ⟨?_, ?_, ?_, ?_, valid.group, valid.directories, valid.groupOf, valid.queueCount,
    valid.queueBytes⟩
  · rw [valid.keys, keysOf_takeOut found split, ← add_assoc]
    simp [Gather.take]
  · simp [Gather.take, valid.bytes]
  · rw [Gather.take, ← peekEq]
    exact valid.heads.moveHead found _
  · simp [Gather.take, valid.length]

/-- A round of the outer loop moves files from the heaps to the batch. -/
theorem Gather.Valid.round (single : Bool) (maxSize maxN maxBytes : Nat) :
    ∃ next again, state.round single maxSize maxN maxBytes = some (next, again) ∧
      next.Valid source := by
  rcases valid.nextGroup with ⟨group, groupEq, movedValid⟩
  cases selectedEq : group.or state.queue.headGroup with
  | none =>
    exact ⟨_, false, by simp [Gather.round, groupEq, selectedEq], movedValid⟩
  | some selected =>
    have inside : selected < state.queue.groups.length := by
      rw [valid.length]
      cases group with
      | none => exact valid.headGroup_lt (by simpa using selectedEq)
      | some near => exact movedValid.group (by simpa using selectedEq)
    have found := getElem?_eq_getElem inside
    cases peekEq : state.queue.groups[selected].peek with
    | none =>
      exact ⟨_, false, by simp [Gather.round, groupEq, selectedEq, found, peekEq],
        movedValid⟩
    | some head =>
      by_cases tooLarge : maxSize < head.size ∨ maxBytes - state.bytes < head.size
      · exact ⟨_, false,
          by simp [Gather.round, groupEq, selectedEq, found, peekEq, tooLarge], movedValid⟩
      · exact ⟨_, true, by simp [Gather.round, groupEq, selectedEq, found, peekEq, tooLarge]; rfl,
          movedValid.take found peekEq (drain_contents _ _ _ _ _ _)⟩

theorem Gather.Valid.gather (single : Bool) (maxSize maxN maxBytes fuel : Nat) :
    ∃ final, FileQueue.gather single maxSize maxN maxBytes fuel state = some final ∧
      final.Valid source := by
  induction fuel generalizing state with
  | zero => exact ⟨state, rfl, valid⟩
  | succ fuel ih =>
    by_cases room : state.out.length < maxN
    · rcases valid.round single maxSize maxN maxBytes with ⟨next, again, roundEq, nextValid⟩
      cases again with
      | false => exact ⟨next, by simp [FileQueue.gather, room, roundEq], nextValid⟩
      | true =>
        rcases ih nextValid with ⟨final, gatherEq, finalValid⟩
        exact ⟨final, by simp [FileQueue.gather, room, roundEq, gatherEq], finalValid⟩
    · exact ⟨state, by simp [FileQueue.gather, room], valid⟩

end

theorem Wf.startGroup (wf : queue.Wf)
    (registered : ∀ idx, first = some idx → idx < queue.groupOf.length) :
    ∃ group, queue.startGroup first = some group ∧
      ∀ {which}, group = some which → which < queue.groups.length := by
  cases first with
  | none => exact ⟨none, rfl, by simp⟩
  | some idx =>
    rcases wf.group_of_registered (registered idx rfl) with ⟨group, heap, groupEq, found⟩
    refine ⟨some group, by simp [FileQueue.startGroup, groupEq], fun same => ?_⟩
    exact Option.some.inj same ▸ (List.getElem?_eq_some_iff.mp found).1

/-- A batch takes its files out of the queue and loses none. -/
theorem Wf.takeSmallGroup (wf : queue.Wf)
    (registered : ∀ idx, first = some idx → idx < queue.groupOf.length)
    (maxSize maxN maxBytes : Nat) :
    ∃ out next, queue.takeSmallGroup first maxSize maxN maxBytes = some (out, next) ∧
      next.Wf ∧ queue.jobs = (out : Multiset Nat) + next.jobs ∧
      next.groupOf = queue.groupOf := by
  rcases wf.startGroup registered with ⟨group, groupEq, groupInside⟩
  have start : Gather.Valid queue ⟨queue, group, [], 0⟩ :=
    ⟨by simp, by simp, wf.heads, rfl, groupInside, rfl, rfl, rfl, rfl⟩
  rcases start.gather first.isNone maxSize maxN maxBytes maxN with ⟨final, gatherEq, valid⟩
  have countEq := wf.count
  have bytesEq := wf.bytes
  rw [valid.keys] at countEq bytesEq
  simp only [Multiset.card_add, Multiset.coe_card, Multiset.map_add, Multiset.sum_add,
    Multiset.map_coe, Multiset.sum_coe, ← valid.bytes] at countEq bytesEq
  have countSub : checkedSub final.queue.count final.out.length =
      some (queue.count - final.out.length) :=
    checkedSub_eq_some_iff.mpr (by rw [valid.queueCount]; omega)
  let next := { final.queue with
    bytes := wrappingSub final.queue.bytes final.bytes
    count := queue.count - final.out.length }
  refine ⟨final.out.map FileKey.index, next, ?_, ⟨valid.heads, ?_, ?_, ?_, ?_⟩, ?_, valid.groupOf⟩
  · simp only [FileQueue.takeSmallGroup, groupEq, gatherEq, countSub,
      Option.bind_eq_bind, Option.bind_some, Option.pure_def, next]
  · intro which whichMem
    simp only [next, valid.groupOf] at whichMem
    simpa only [next, valid.length] using wf.groupOf which whichMem
  · intro dir which found
    simp only [next, valid.directories] at found
    simpa only [next, valid.length] using wf.directories found
  · simp only [next]
    omega
  · simp only [next, valid.queueBytes, bytesEq]
    exact wrappingSub_mod _ _
  · simp [next, jobs, valid.keys]

/-! ## The limits of a batch -/

theorem drain_limits (single : Bool) (maxSize maxBytes room : Nat) (heap : Heap FileKey)
    {bytes : Nat} (within : bytes ≤ maxBytes) :
    (∀ key ∈ (drain single maxSize maxBytes room heap bytes).1, key.size ≤ maxSize) ∧
      (drain single maxSize maxBytes room heap bytes).1.length ≤ room ∧
      bytes + ((drain single maxSize maxBytes room heap bytes).1.map FileKey.size).sum ≤
        maxBytes := by
  induction room generalizing heap bytes with
  | zero => simpa [drain] using within
  | succ room ih =>
    cases popped : heap.pop with
    | none => simpa [drain, popped] using within
    | some top =>
      rcases top with ⟨item, rest⟩
      simp only [drain, popped]
      split_ifs with tooLarge
      · simpa using within
      · simp only [mem_singleton, forall_eq, length_singleton, map_cons, map_nil, sum_cons, sum_nil]
        omega
      · have fits : bytes + item.size ≤ maxBytes := by omega
        rcases ih rest fits with ⟨sizes, length, sum⟩
        refine ⟨?_, by simpa using length, ?_⟩
        · rw [forall_mem_cons]
          exact ⟨by omega, sizes⟩
        · rw [map_cons, sum_cons]
          omega

/-- What a batch has taken so far keeps to its limits. -/
structure Gather.Within (maxSize maxN maxBytes : Nat) (state : Gather) : Prop where
  sizes : ∀ key ∈ state.out, key.size ≤ maxSize
  length : state.out.length ≤ maxN
  bytes : state.bytes ≤ maxBytes

theorem Gather.Within.round {single again : Bool} {next : Gather}
    (inside : state.Within maxSize maxN maxBytes)
    (ran : state.round single maxSize maxN maxBytes = some (next, again)) :
    next.Within maxSize maxN maxBytes := by
  rcases bind_eq_some_iff.mp ran with ⟨group, -, ran⟩
  dsimp only at ran
  split at ran
  · cases ran
    exact ⟨inside.sizes, inside.length, inside.bytes⟩
  · rcases bind_eq_some_iff.mp ran with ⟨heap, -, ran⟩
    split at ran
    · cases ran
      exact ⟨inside.sizes, inside.length, inside.bytes⟩
    · split_ifs at ran
      · cases ran
        exact ⟨inside.sizes, inside.length, inside.bytes⟩
      · cases ran
        rcases drain_limits single maxSize maxBytes (maxN - state.out.length) heap inside.bytes with
          ⟨sizes, length, sum⟩
        have room := inside.length
        refine ⟨?_, ?_, sum⟩
        · intro key mem
          exact (mem_append.mp mem).elim (inside.sizes key) (sizes key)
        · simp only [Gather.take, length_append]
          omega

theorem Gather.Within.gather {fuel : Nat} {single : Bool} {final : Gather}
    (inside : state.Within maxSize maxN maxBytes)
    (ran : FileQueue.gather single maxSize maxN maxBytes fuel state = some final) :
    final.Within maxSize maxN maxBytes := by
  induction fuel generalizing state with
  | zero =>
    cases ran
    exact inside
  | succ fuel ih =>
    rw [FileQueue.gather] at ran
    split_ifs at ran
    · rcases bind_eq_some_iff.mp ran with ⟨⟨next, again⟩, rounded, ran⟩
      dsimp only at ran
      split_ifs at ran
      · exact ih (inside.round rounded) ran
      · cases ran
        exact inside.round rounded
    · cases ran
      exact inside

/-- A batch is made of queued files within its limits; the others stay queued. -/
theorem Wf.takeSmallGroup_limits {next : FileQueue} (wf : queue.Wf)
    (registered : ∀ idx, first = some idx → idx < queue.groupOf.length) {out : List Nat}
    (ran : queue.takeSmallGroup first maxSize maxN maxBytes = some (out, next)) :
    ∃ taken : List FileKey, out = taken.map FileKey.index ∧
      keysOf queue.groups = (taken : Multiset FileKey) + keysOf next.groups ∧
      (∀ key ∈ taken, key.size ≤ maxSize) ∧ taken.length ≤ maxN ∧
      (taken.map FileKey.size).sum ≤ maxBytes := by
  rcases wf.startGroup registered with ⟨group, groupEq, groupInside⟩
  have start : Gather.Valid queue ⟨queue, group, [], 0⟩ :=
    ⟨by simp, by simp, wf.heads, rfl, groupInside, rfl, rfl, rfl, rfl⟩
  rcases start.gather first.isNone maxSize maxN maxBytes maxN with ⟨final, gatherEq, valid⟩
  have inside := Gather.Within.gather ⟨by simp, by simp, by simp⟩ gatherEq
  simp only [FileQueue.takeSmallGroup, groupEq, gatherEq, bind_eq_bind, bind_some,
    Option.bind_eq_some_iff, Option.pure_def, Option.some.injEq] at ran
  rcases ran with ⟨bytes, -, count, -, rfl, rfl⟩
  exact ⟨final.out, rfl, valid.keys, inside.sizes, inside.length, valid.bytes ▸ inside.bytes⟩

/-! ## Runs of the queue -/

theorem mem_keysOf_iff {key : FileKey} :
    key ∈ keysOf groups ↔
      ∃ (group : Nat) (heap : Heap FileKey), groups[group]? = some heap ∧ key ∈ heap.contents := by
  have joined : keysOf groups = Multiset.join (groups.map Heap.contents) :=
    (Multiset.sum_coe _).symm
  rw [joined, Multiset.mem_join]
  simp only [Multiset.mem_coe, List.mem_map]
  constructor
  · rintro ⟨contents, ⟨heap, heapMem, rfl⟩, mem⟩
    rcases List.getElem?_of_mem heapMem with ⟨group, found⟩
    exact ⟨group, heap, found, mem⟩
  · rintro ⟨group, heap, found, mem⟩
    exact ⟨_, ⟨heap, List.mem_of_getElem? found, rfl⟩, mem⟩

/-- The greatest of the groups' heads is the greatest file of all. -/
theorem Wf.le_of_pop {next : FileQueue} (wf : queue.Wf) {item : FileKey}
    (popped : queue.pop = some (some item, next)) :
    item ∈ keysOf queue.groups ∧ ∀ key ∈ keysOf queue.groups, key ≤ item := by
  cases lastEq : last queue.heads with
  | none => simp [FileQueue.pop, lastEq] at popped
  | some head =>
    rcases last_eq_some_iff.mp lastEq with ⟨headMem, greatest⟩
    rcases (wf.heads head).mp headMem with ⟨heap, found, peeked⟩
    have itemEq : item = head.key := by
      cases top : heap.pop with
      | none => simp [FileQueue.pop, lastEq, FileQueue.popGroup, found, top] at popped
      | some pair =>
        rcases wf.popGroup found top with ⟨other, ran, -⟩
        simp only [FileQueue.pop, lastEq, ran, some.injEq, Prod.mk.injEq] at popped
        have same := (pop_eq_some top).1
        rw [peeked] at same
        exact popped.1.symm.trans (some.inj same).symm
    rw [itemEq]
    refine ⟨mem_keysOf_iff.mpr ⟨_, heap, found, mem_of_peek peeked⟩, fun key mem => ?_⟩
    rcases mem_keysOf_iff.mp mem with ⟨group, other, otherFound, keyMem⟩
    cases otherPeek : other.peek with
    | none =>
      rw [peek_eq_none_iff.mp otherPeek] at keyMem
      exact absurd keyMem (Multiset.notMem_zero _)
    | some top =>
      have below := greatest ⟨top, group⟩ ((wf.heads.mem_iff otherFound top).mpr otherPeek)
      rcases Prod.Lex.le_iff.mp (show HeadKey.priority _ ≤ head.priority from below) with
        less | same
      · exact (le_of_peek otherPeek keyMem).trans less.le
      · exact (le_of_peek otherPeek keyMem).trans same.1.le

/-- An operation of the queue. -/
inductive Op where
  | register (idx : Nat) (destination : PathBytes)
  | push (size idx : Nat)
  | pop
  | popGroup (group : Nat)
  | takeSmallGroup (first : Option Nat) (maxSize maxN maxBytes : Nat)

/-- Indices are machine words, only a registered file that is not queued is pushed, and the
groups asked for exist. -/
def Allows (queue : FileQueue) : Op → Prop
  | .register idx _ => idx < 2 ^ 64
  | .push _ idx => idx < 2 ^ 64 ∧ idx < queue.groupOf.length ∧ idx ∉ queue.jobs
  | .pop => True
  | .popGroup group => group < queue.groups.length
  | .takeSmallGroup first _ _ _ => first.all (· < queue.groupOf.length) = true

instance (queue : FileQueue) (op : Op) : Decidable (queue.Allows op) := by
  cases op <;> unfold Allows <;> infer_instance

def step (queue : FileQueue) : Op → Option FileQueue
  | .register idx destination => some (queue.register idx destination)
  | .push size idx => queue.push (.of size idx)
  | .pop => queue.pop.map Prod.snd
  | .popGroup group => (queue.popGroup group).map Prod.snd
  | .takeSmallGroup first maxSize maxN maxBytes =>
    (queue.takeSmallGroup first maxSize maxN maxBytes).map Prod.snd

def system : System FileQueue Op where
  enabled := Allows
  decidableEnabled _ _ := inferInstance
  step := step

/-- A permitted operation meets no panic, and leaves every file queued at most once. -/
theorem Wf.step (wf : queue.Wf) (once : queue.jobs.Nodup) {op : Op} (allowed : queue.Allows op) :
    ∃ next, queue.step op = some next ∧ next.Wf ∧ next.jobs.Nodup := by
  cases op with
  | register idx dest =>
    rcases wf.register idx dest with ⟨nextWf, jobsEq, -⟩
    exact ⟨_, rfl, nextWf, jobsEq ▸ once⟩
  | push size idx =>
    rcases allowed with ⟨fits, registered, fresh⟩
    have index := FileKey.index_of size fits
    rcases wf.push (.of size idx) (index.symm ▸ registered) with ⟨next, ran, nextWf, jobs, -⟩
    refine ⟨next, ran, nextWf, ?_⟩
    rw [jobs, index, Multiset.nodup_cons]
    exact ⟨fresh, once⟩
  | pop =>
    rcases wf.pop with ⟨ran, -⟩ | ⟨item, next, ran, nextWf, jobs, -⟩
    · exact ⟨queue, by simp [FileQueue.step, ran], wf, once⟩
    · rw [jobs, Multiset.nodup_cons] at once
      exact ⟨next, by simp [FileQueue.step, ran], nextWf, once.2⟩
  | popGroup group =>
    obtain ⟨heap, found⟩ : ∃ heap, queue.groups[group]? = some heap :=
      ⟨_, getElem?_eq_getElem allowed⟩
    cases popped : heap.pop with
    | none =>
      refine ⟨queue, ?_, wf, once⟩
      simp [FileQueue.step, FileQueue.popGroup, found, popped]
    | some top =>
      rcases wf.popGroup found popped with ⟨next, ran, nextWf, jobs, -⟩
      rw [jobs, Multiset.nodup_cons] at once
      exact ⟨next, by simp [FileQueue.step, ran], nextWf, once.2⟩
  | takeSmallGroup first maxSize maxN maxBytes =>
    have registered : ∀ idx, first = some idx → idx < queue.groupOf.length := by
      rintro idx rfl
      simpa [Allows] using allowed
    rcases wf.takeSmallGroup registered maxSize maxN maxBytes with ⟨out, next, ran, nextWf, jobs, -⟩
    rw [jobs, Multiset.nodup_add] at once
    exact ⟨next, by simp [FileQueue.step, ran], nextWf, once.2.1⟩

theorem wf_of_exec {ops : List Op} (run : system.exec empty ops = some queue) :
    queue.Wf ∧ queue.jobs.Nodup := by
  refine @System.exec_invariant _ _ system (fun queue => queue.Wf ∧ queue.jobs.Nodup) ?_ _ _ _
    ⟨wf_empty, by simp⟩ run
  intro state op next valid allowed ran
  rcases valid.1.step valid.2 allowed with ⟨other, otherRan, otherValid⟩
  rw [show state.step op = some next from ran] at otherRan
  exact some.inj otherRan ▸ otherValid

/-- The heads and the totals say what is queued. -/
structure Exact (queue : FileQueue) : Prop where
  heads : ∀ head, head ∈ queue.heads ↔ ∃ heap, queue.groups[head.group]? = some heap ∧
    head.key ∈ heap.contents ∧ ∀ key ∈ heap.contents, key ≤ head.key
  count : queue.count = (keysOf queue.groups).card
  bytes : queue.bytes = ((keysOf queue.groups).map FileKey.size).sum % 2 ^ 64
  once : queue.jobs.Nodup

theorem Wf.exact (wf : queue.Wf) (once : queue.jobs.Nodup) : queue.Exact where
  heads := by
    intro head
    rw [wf.heads head]
    refine exists_congr fun heap => and_congr_right fun _ => ?_
    constructor
    · exact fun peeked => ⟨mem_of_peek peeked, fun key => le_of_peek peeked⟩
    · rintro ⟨mem, greatest⟩
      cases peeked : heap.peek with
      | none =>
        rw [peek_eq_none_iff.mp peeked] at mem
        exact absurd mem (Multiset.notMem_zero _)
      | some top =>
        rw [le_antisymm (greatest top (mem_of_peek peeked)) (le_of_peek peeked mem)]
  count := wf.count
  bytes := wf.bytes
  once := once

/-- In every state of every run of permitted operations the heads are exact, the byte total up to
a multiple of `2 ^ 64`, nothing panics, the greatest file comes first, and a batch takes distinct
files within its limits. -/
theorem file_queue_index_exact {ops : List Op} {queue : FileQueue}
    (run : system.exec empty ops = some queue) :
    queue.Exact ∧
      (∀ op, queue.Allows op → (queue.step op).isSome = true) ∧
      (∀ item next, queue.pop = some (some item, next) →
        item ∈ keysOf queue.groups ∧ ∀ key ∈ keysOf queue.groups, key ≤ item) ∧
      (∀ next, queue.pop = some (none, next) → queue.jobs = 0) ∧
      ∀ first maxSize maxN maxBytes out next,
        queue.Allows (.takeSmallGroup first maxSize maxN maxBytes) →
        queue.takeSmallGroup first maxSize maxN maxBytes = some (out, next) →
          out.Nodup ∧ ∃ taken : List FileKey, out = taken.map FileKey.index ∧
            (∀ key ∈ taken, key.size ≤ maxSize) ∧ taken.length ≤ maxN ∧
            (taken.map FileKey.size).sum ≤ maxBytes ∧
            keysOf queue.groups = (taken : Multiset FileKey) + keysOf next.groups := by
  rcases wf_of_exec run with ⟨wf, once⟩
  refine ⟨wf.exact once, ?_, fun item next => wf.le_of_pop, ?_, ?_⟩
  · intro op allowed
    rcases wf.step once allowed with ⟨next, ran, -⟩
    rw [ran]
    rfl
  · intro next popped
    rcases wf.pop with ⟨-, none⟩ | ⟨item, other, ran, -⟩
    · exact none
    · rw [popped] at ran
      cases ran
  · intro first maxSize maxN maxBytes out next allowed ran
    have registered : ∀ idx, first = some idx → idx < queue.groupOf.length := by
      rintro idx rfl
      simpa [Allows] using allowed
    rcases wf.takeSmallGroup_limits registered ran with ⟨taken, rfl, keys, sizes, length, sum⟩
    refine ⟨?_, taken, rfl, sizes, length, sum, keys⟩
    rw [jobs, keys, Multiset.map_add, Multiset.nodup_add] at once
    exact once.1

theorem file_queue_index_exact_siblings :
    ∃ queue, system.exec empty [.register 0 [97, 47, 98], .register 1 [97, 47, 99], .push 5 0,
        .push 9 1, .takeSmallGroup (some 0) 6 4 100, .pop] = some queue ∧
      queue.count = 1 ∧ queue.Exact := by
  have ends : (system.exec empty [.register 0 [97, 47, 98], .register 1 [97, 47, 99], .push 5 0,
      .push 9 1, .takeSmallGroup (some 0) 6 4 100, .pop]).map FileQueue.count = some 1 := by
    decide +kernel
  rcases map_eq_some_iff.mp ends with ⟨queue, run, count⟩
  exact ⟨queue, run, count, (file_queue_index_exact run).1⟩

/-- Three files of the largest size that a file can have: the 64-bit sum wraps around. -/
theorem file_queue_bytes_wrap :
    (system.exec empty [.register 0 [97], .register 1 [98], .register 2 [99],
      .push (2 ^ 63 - 1) 0, .push (2 ^ 63 - 1) 1, .push (2 ^ 63 - 1) 2]).map
        (fun queue => (queue.bytes, ((keysOf queue.groups).map FileKey.size).sum)) =
      some (2 ^ 63 - 3, 3 * (2 ^ 63 - 1)) := by
  decide +kernel

end FileQueue

end Syq.Sched
