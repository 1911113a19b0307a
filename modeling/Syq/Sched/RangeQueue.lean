import Syq.Lib.Collections
import Syq.Lib.Span
import Syq.Lib.Transition

/-!
# The queue of unclaimed ranges

`RangeQueue` keeps the unclaimed byte ranges of every file.  The ranges of one
file are an ordered set, shortest first, and a second ordered set holds the
longest range of each file.  The assertions of the source are failures of the
operations here; the results of this module say that a queue which starts out
well formed never meets one, and what each operation does to the ranges of each
file.
-/

namespace Syq.Sched

open Syq.Lib Finset List Option Function

/-- An entry of the set of per-file maxima: length, then file, then offset. -/
@[ext]
structure LargestKey where
  len : Nat
  idx : Nat
  off : Nat

/-- The comparison key of a per-file maximum. -/
def LargestKey.order (key : LargestKey) : Nat ×ₗ Nat ×ₗ Nat :=
  toLex (key.len, toLex (key.idx, key.off))

theorem LargestKey.order_injective : Function.Injective LargestKey.order := by
  intro first second equal
  cases first
  simp_all [LargestKey.order]

instance : LinearOrder LargestKey :=
  LinearOrder.lift' LargestKey.order LargestKey.order_injective

/-- The entry that stands for `span` among the per-file maxima. -/
def LargestKey.of (idx : Nat) (span : Span) : LargestKey :=
  ⟨span.len, idx, span.off⟩

/-- The range an entry stands for. -/
def LargestKey.span (key : LargestKey) : Span :=
  ⟨key.off, key.len⟩

theorem LargestKey.ne_of_idx_ne {key : LargestKey} {idx : Nat} {span : Span}
    (other : key.idx ≠ idx) : key ≠ LargestKey.of idx span := by
  rintro rfl
  exact other rfl

@[simp]
theorem LargestKey.of_inj {idx : Nat} {left right : Span} :
    LargestKey.of idx left = LargestKey.of idx right ↔ left = right := by
  simp only [LargestKey.of, LargestKey.mk.injEq, true_and, Span.ext_iff]
  exact And.comm

structure RangeQueue where
  largest : Finset LargestKey
  byFile : Table Nat (Finset Span)
  len : Nat
  /-- A 64-bit sum, which wraps around. -/
  bytes : Nat

namespace RangeQueue

variable {idx : Nat} {spans : Finset Span} {queue : RangeQueue} {largest : Finset LargestKey}
variable {files : Nat → Finset Span} {ranges : List Span} {range : Span}

/-- The queue `RangeQueue::default()`. -/
def empty : RangeQueue :=
  ⟨∅, ∅, 0, 0⟩

/-- The ranges a per-file table holds for a file, none for an absent one. -/
def fileRanges (byFile : Table Nat (Finset Span)) (idx : Nat) : Finset Span :=
  (byFile.lookup idx).getD ∅

/-- The queued ranges of a file. -/
def file (queue : RangeQueue) : Nat → Finset Span :=
  fileRanges queue.byFile

def isEmpty (queue : RangeQueue) : Bool :=
  queue.len == 0

/-- The insertion loop of `extend`: each range must be new to the file. -/
def insertRanges : Finset Span → List Span → Option (Finset Span)
  | file, [] => some file
  | file, span :: rest => (insertNew file span).bind fun more => insertRanges more rest

/-- Replace a file's entry among the maxima when its maximum has changed. -/
def replaceLargest (largest : Finset LargestKey) (idx : Nat) (previous maximum : Option Span) :
    Option (Finset LargestKey) := do
  if previous = maximum then
    return largest
  let largest ← match previous with
    | none => some largest
    | some span => removeOld largest (.of idx span)
  let span ← maximum
  insertNew largest (.of idx span)

def extend (queue : RangeQueue) (idx : Nat) (ranges : List Span) : Option RangeQueue := do
  if ranges = [] then
    return queue
  let previous := last (queue.file idx)
  let file ← insertRanges (queue.file idx) ranges
  let largest ← replaceLargest queue.largest idx previous (last file)
  return {
    largest
    byFile := queue.byFile.insert idx file
    len := queue.len + ranges.length
    bytes := wrappingAdd queue.bytes (ranges.map Span.len).sum }

def push (queue : RangeQueue) (idx : Nat) (range : Span) : Option RangeQueue :=
  queue.extend idx [range]

/-- When the range taken was its file's longest, take it out of the maxima and
let the file's next longest in. -/
def dropLargest (largest : Finset LargestKey) (idx : Nat) (range : Span)
    (previous next : Option Span) : Option (Finset LargestKey) :=
  if previous = some range then do
    let largest ← removeOld largest (.of idx range)
    match next with
    | none => some largest
    | some span => insertNew largest (.of idx span)
  else some largest

/-- Keep a file's remaining ranges, and no entry for a file without any. -/
def storeRest (byFile : Table Nat (Finset Span)) (idx : Nat) (rest : Finset Span) :
    Table Nat (Finset Span) :=
  if rest = ∅ then byFile.erase idx else byFile.insert idx rest

/-- Take out one queued range, which must be there. -/
def remove (queue : RangeQueue) (idx : Nat) (range : Span) : Option RangeQueue := do
  let file ← queue.byFile.lookup idx
  let rest ← removeOld file range
  let largest ← dropLargest queue.largest idx range (last file) (last rest)
  let len ← checkedSub queue.len 1
  return {
    largest
    byFile := storeRest queue.byFile idx rest
    len
    bytes := wrappingSub queue.bytes range.len }

/-- Take the longest queued range of all files. -/
def pop (queue : RangeQueue) : Option (Option (Nat × Span) × RangeQueue) :=
  match last queue.largest with
  | none => some (none, queue)
  | some key => do
      let rest ← queue.remove key.idx key.span
      return (some (key.idx, key.span), rest)

/-- Take the shortest queued range of a file if it is short enough. -/
def takeShort (queue : RangeQueue) (idx maxSize : Nat) :
    Option (Option (Nat × Span) × RangeQueue) :=
  match (queue.byFile.lookup idx).bind first with
  | none => some (none, queue)
  | some span =>
    if span.len ≤ maxSize then do
      let rest ← queue.remove idx span
      return (some (idx, span), rest)
    else some (none, queue)

/-! ## Well-formed queues -/

/-- What every operation of the queue maintains. -/
structure Wf (queue : RangeQueue) : Prop where
  nonempty : ∀ {idx file}, queue.byFile.lookup idx = some file → file ≠ ∅
  largest : ∀ key, key ∈ queue.largest ↔ last (queue.file key.idx) = some key.span
  len : queue.len = total (fun _ file => file.card) queue.byFile
  bytes : queue.bytes = total (fun _ file => ∑ span ∈ file, span.len) queue.byFile % 2 ^ 64

theorem wf_empty : Wf empty where
  nonempty found := by simp [empty] at found
  largest key := by simp [empty, file, fileRanges, last]
  len := rfl
  bytes := rfl

section

variable (byFile : Table Nat (Finset Span))

include byFile

@[simp]
theorem fileRanges_insert (idx : Nat) (spans : Finset Span) :
    fileRanges (byFile.insert idx spans) = update (fileRanges byFile) idx spans := by
  funext other
  by_cases same : other = idx
  · subst same
    simp [fileRanges]
  · simp [fileRanges, update_of_ne same, Finmap.lookup_insert_of_ne _ same]

@[simp]
theorem fileRanges_erase (idx : Nat) :
    fileRanges (byFile.erase idx) = update (fileRanges byFile) idx ∅ := by
  funext other
  by_cases same : other = idx
  · subst same
    simp [fileRanges]
  · simp [fileRanges, update_of_ne same, Finmap.lookup_erase_ne same]

@[simp]
theorem fileRanges_storeRest (idx : Nat) (rest : Finset Span) :
    fileRanges (storeRest byFile idx rest) = update (fileRanges byFile) idx rest := by
  unfold storeRest
  split
  · rename_i emptied
    rw [fileRanges_erase, emptied]
  · exact fileRanges_insert _ _ _

theorem total_storeRest (idx : Nat) (rest : Finset Span) (weight : Finset Span → Nat)
    (emptyWeight : weight ∅ = 0) :
    total (fun _ spans => weight spans) (storeRest byFile idx rest) =
      weight rest + total (fun _ spans => weight spans) (byFile.erase idx) := by
  unfold storeRest
  split
  · rename_i emptied
    rw [emptied, emptyWeight, Nat.zero_add]
  · exact total_insert _ _ _ _

end

theorem storeRest_nonempty {byFile : Table Nat (Finset Span)}
    (ne : ∀ {idx spans}, byFile.lookup idx = some spans → spans ≠ ∅) {rest : Finset Span}
    {other : Nat} (found : (storeRest byFile idx rest).lookup other = some spans) : spans ≠ ∅ := by
  unfold storeRest at found
  split at found
  · exact ne (lookup_of_erase found)
  · rename_i kept
    exact forall_of_insert ne kept found

/-- A weight that vanishes on the empty set sees absent files as empty ones. -/
theorem total_eq_file_add (queue : RangeQueue) (weight : Finset Span → Nat)
    (emptyWeight : weight ∅ = 0) (idx : Nat) :
    total (fun _ spans => weight spans) queue.byFile =
      weight (queue.file idx) + total (fun _ spans => weight spans) (queue.byFile.erase idx) := by
  cases found : queue.byFile.lookup idx with
  | none => simp [file, fileRanges, found, emptyWeight, erase_of_lookup_none found]
  | some spans =>
    simp [file, fileRanges, found, total_of_lookup (fun _ spans => weight spans) found]

/-- A well-formed queue of length zero holds no range, and conversely. -/
theorem Wf.len_eq_zero_iff (wf : queue.Wf) : queue.len = 0 ↔ ∀ idx, queue.file idx = ∅ := by
  constructor
  · intro lenZero idx
    have parts := queue.total_eq_file_add card card_empty idx
    rw [← wf.len] at parts
    exact card_eq_zero.mp (by omega)
  · intro allEmpty
    have noFile : queue.byFile = ∅ := by
      refine Finmap.ext_lookup fun idx => ?_
      cases found : queue.byFile.lookup idx with
      | none => rfl
      | some spans =>
        have spansEmpty := allEmpty idx
        simp only [file, fileRanges, found] at spansEmpty
        exact absurd spansEmpty (wf.nonempty found)
    simp [wf.len, noFile]

/-! ## The set of per-file maxima -/

/-- The entry of a file among the maxima, as the well-formedness of the queue
states it for one assignment of ranges to files. -/
def Maxima (largest : Finset LargestKey) (files : Nat → Finset Span) : Prop :=
  ∀ key, key ∈ largest ↔ last (files key.idx) = some key.span

theorem Maxima.of_mem_iff (maxima : Maxima largest files) (idx : Nat) (span : Span) :
    LargestKey.of idx span ∈ largest ↔ last (files idx) = some span :=
  maxima (.of idx span)

/-- Changing the ranges of one file is replacing that file's entry. -/
theorem Maxima.update (maxima : Maxima largest files) (idx : Nat) (spans : Finset Span)
    {others : Finset LargestKey}
    (otherFiles : ∀ key, key.idx ≠ idx → (key ∈ others ↔ key ∈ largest))
    (thisFile : ∀ span, LargestKey.of idx span ∈ others ↔ last spans = some span) :
    Maxima others (update files idx spans) := by
  intro key
  by_cases same : key.idx = idx
  · subst same
    rw [update_self]
    exact thisFile key.span
  · rw [update_of_ne same, otherFiles key same]
    exact maxima key

/-- `replaceLargest` succeeds when it is told the file's present maximum, and
keeps the set of maxima exact. -/
theorem replaceLargest_spec (maxima : Maxima largest files) (idx : Nat) (ne : spans ≠ ∅) :
    ∃ others, replaceLargest largest idx (last (files idx)) (last spans) = some others ∧
      Maxima others (update files idx spans) := by
  obtain ⟨maximum, maximumEq⟩ : ∃ maximum, last spans = some maximum :=
    ne_none_iff_exists'.mp fun none => ne (last_eq_none_iff.mp none)
  by_cases unchanged : last (files idx) = last spans
  · refine ⟨largest, by simp [replaceLargest, unchanged], ?_⟩
    refine maxima.update idx spans (fun _ _ => Iff.rfl) fun span => ?_
    rw [maxima.of_mem_iff, unchanged]
  · cases prevEq : last (files idx) with
    | none =>
      have absent : LargestKey.of idx maximum ∉ largest := by
        simp [maxima.of_mem_iff, prevEq]
      refine ⟨insert (.of idx maximum) largest, ?_, ?_⟩
      · simp [replaceLargest, maximumEq, insertNew_of_notMem absent]
      · refine maxima.update idx spans (fun key other => ?_) fun span => ?_
        · simp [LargestKey.ne_of_idx_ne other]
        · simp [maxima.of_mem_iff, prevEq, maximumEq, eq_comm]
    | some prev =>
      have changed : prev ≠ maximum := by
        rintro rfl
        exact unchanged (prevEq.trans maximumEq.symm)
      have present : LargestKey.of idx prev ∈ largest := by
        simp [maxima.of_mem_iff, prevEq]
      have absent : LargestKey.of idx maximum ∉ largest.erase (.of idx prev) := by
        simp [maxima.of_mem_iff, prevEq, changed]
      refine ⟨insert (.of idx maximum) (largest.erase (.of idx prev)), ?_, ?_⟩
      · simp [replaceLargest, maximumEq, changed, removeOld_of_mem present,
          insertNew_of_notMem absent]
      · refine maxima.update idx spans (fun key other => ?_) fun span => ?_
        · simp [LargestKey.ne_of_idx_ne other]
        · simp only [mem_insert, mem_erase, maxima.of_mem_iff, maximumEq, LargestKey.of_inj,
            some.injEq]
          grind

/-! ## What the operations do -/

theorem insertRanges_spec (nodup : ranges.Nodup) (fresh : ∀ range ∈ ranges, range ∉ spans) :
    insertRanges spans ranges = some (spans ∪ ranges.toFinset) := by
  induction ranges generalizing spans with
  | nil => simp [insertRanges]
  | cons range rest ih =>
    rcases nodup_cons.mp nodup with ⟨rangeNew, restNodup⟩
    have restFresh : ∀ other ∈ rest, other ∉ insert range spans := by
      intro other otherMem
      rw [mem_insert]
      rintro (rfl | old)
      · exact rangeNew otherMem
      · exact fresh other (mem_cons_of_mem _ otherMem) old
    simp only [insertRanges, insertNew_of_notMem (fresh range mem_cons_self),
      bind_some, ih restNodup restFresh, toFinset_cons]
    rw [insert_union, union_insert]

/-- Publishing new ranges of a file adds exactly them. -/
theorem Wf.extend (wf : queue.Wf) (nodup : ranges.Nodup)
    (fresh : ∀ range ∈ ranges, range ∉ queue.file idx) :
    ∃ next, queue.extend idx ranges = some next ∧ next.Wf ∧
      next.file = update queue.file idx (queue.file idx ∪ ranges.toFinset) ∧
      next.len = queue.len + ranges.length := by
  by_cases noRanges : ranges = []
  · subst noRanges
    exact ⟨queue, by simp [RangeQueue.extend], wf, by simp, by simp⟩
  have apart : Disjoint (queue.file idx) ranges.toFinset := by
    rw [Finset.disjoint_right]
    exact fun range rangeMem => fresh range (mem_toFinset.mp rangeMem)
  have grown : queue.file idx ∪ ranges.toFinset ≠ ∅ := by
    simp [union_eq_empty, noRanges]
  rcases replaceLargest_spec wf.largest idx grown with ⟨largest, largestEq, maxima⟩
  refine ⟨{
      largest
      byFile := queue.byFile.insert idx (queue.file idx ∪ ranges.toFinset)
      len := queue.len + ranges.length
      bytes := wrappingAdd queue.bytes (ranges.map Span.len).sum },
    by simp [RangeQueue.extend, noRanges, insertRanges_spec nodup fresh, largestEq],
    ?_, fileRanges_insert _ _ _, rfl⟩
  constructor
  · exact forall_of_insert wf.nonempty grown
  · simpa only [Maxima, file, fileRanges_insert] using maxima
  · have parts := queue.total_eq_file_add card card_empty idx
    rw [total_insert, card_union_of_disjoint apart, toFinset_card_of_nodup nodup]
    simp only [wf.len]
    omega
  · have parts := queue.total_eq_file_add (fun spans => ∑ span ∈ spans, span.len) rfl idx
    rw [total_insert, sum_union apart, sum_toFinset Span.len nodup]
    simp only [wf.bytes, wrappingAdd_mod, parts]
    rw [Nat.add_right_comm]

theorem update_insert (files : Nat → Finset Span) (idx : Nat) (range : Span) :
    update files idx (insert range (files idx)) =
      update files idx (files idx ∪ [range].toFinset) := by
  rw [toFinset_cons, toFinset_nil, insert_empty_eq, Finset.union_comm, ← Finset.insert_eq]

theorem Wf.push (wf : queue.Wf) (fresh : range ∉ queue.file idx) :
    ∃ next, queue.push idx range = some next ∧ next.Wf ∧
      next.file = update queue.file idx (insert range (queue.file idx)) ∧
      next.len = queue.len + 1 := by
  rw [update_insert]
  exact wf.extend (nodup_singleton range) (by simpa using fresh)

/-- Taking a range that is not a file's longest leaves the longest in place. -/
theorem last_erase_of_ne (shorter : last spans ≠ some range) :
    last (spans.erase range) = last spans := by
  cases lastEq : last spans with
  | none => simp [last_eq_none_iff.mp lastEq]
  | some maximum =>
    rw [last_eq_some_iff] at lastEq ⊢
    have other : maximum ≠ range := by
      rintro rfl
      exact shorter (last_eq_some_iff.mpr lastEq)
    exact ⟨mem_erase.mpr ⟨other, lastEq.1⟩,
      fun span spanMem => lastEq.2 span (mem_of_mem_erase spanMem)⟩

/-- The maxima stay exact when one range of a file is taken. -/
theorem dropLargest_spec (maxima : Maxima largest files) (idx : Nat) (range : Span) :
    ∃ others,
      dropLargest largest idx range (last (files idx)) (last ((files idx).erase range)) =
        some others ∧
      Maxima others (update files idx ((files idx).erase range)) := by
  by_cases maximum : last (files idx) = some range
  · have present : LargestKey.of idx range ∈ largest := by
      simp [maxima.of_mem_iff, maximum]
    cases restEq : last ((files idx).erase range) with
    | none =>
      refine ⟨largest.erase (.of idx range),
        by simp [dropLargest, maximum, removeOld_of_mem present], ?_⟩
      refine maxima.update idx _ (fun key other => ?_) fun span => ?_
      · simp [LargestKey.ne_of_idx_ne other]
      · simp [maxima.of_mem_iff, maximum, restEq, eq_comm]
    | some next =>
      have absent : LargestKey.of idx next ∉ largest.erase (.of idx range) := by
        simp [maxima.of_mem_iff, maximum, eq_comm]
      refine ⟨insert (.of idx next) (largest.erase (.of idx range)),
        by simp [dropLargest, maximum, removeOld_of_mem present, insertNew_of_notMem absent],
        ?_⟩
      refine maxima.update idx _ (fun key other => ?_) fun span => ?_
      · simp [LargestKey.ne_of_idx_ne other]
      · simp only [mem_insert, mem_erase, maxima.of_mem_iff, restEq, LargestKey.of_inj, some.injEq]
        grind
  · refine ⟨largest, by simp [dropLargest, maximum], ?_⟩
    refine maxima.update idx _ (fun _ _ => Iff.rfl) fun span => ?_
    rw [maxima.of_mem_iff, last_erase_of_ne maximum]

/-- Taking a queued range removes exactly it. -/
theorem Wf.remove (wf : queue.Wf) (queued : range ∈ queue.file idx) :
    ∃ next, queue.remove idx range = some next ∧ next.Wf ∧
      next.file = update queue.file idx ((queue.file idx).erase range) ∧
      queue.len = next.len + 1 := by
  obtain ⟨spans, found⟩ : ∃ spans, queue.byFile.lookup idx = some spans := by
    cases found : queue.byFile.lookup idx with
    | none => simp [file, fileRanges, found] at queued
    | some spans => exact ⟨spans, rfl⟩
  have fileEq : queue.file idx = spans := by simp [file, fileRanges, found]
  rw [fileEq] at queued
  have dropped := dropLargest_spec wf.largest idx range
  rw [fileEq] at dropped
  rcases dropped with ⟨largest, largestEq, maxima⟩
  have lenParts := total_of_lookup (fun _ spans => card spans) found
  have bytesParts := total_of_lookup (fun _ spans => ∑ span ∈ spans, Span.len span) found
  have cardErase := card_erase_add_one queued
  have bytesErase := sum_erase_add spans Span.len queued
  rw [← wf.len] at lenParts
  refine ⟨{
      largest
      byFile := storeRest queue.byFile idx (spans.erase range)
      len := queue.len - 1
      bytes := wrappingSub queue.bytes range.len }, ?_, ?_, ?_, ?_⟩
  · have lenSub := @checkedSub_of_le queue.len 1 (by omega)
    simp only [RangeQueue.remove, found, removeOld_of_mem queued, largestEq, lenSub,
      Option.bind_eq_bind, Option.bind_some, Option.pure_def]
  · constructor
    · exact storeRest_nonempty wf.nonempty
    · simpa only [Maxima, file, fileRanges_storeRest] using maxima
    · rw [total_storeRest _ _ _ card card_empty]
      simp only
      omega
    · rw [total_storeRest _ _ _ (fun spans => ∑ span ∈ spans, span.len) rfl]
      simp only [wf.bytes, bytesParts, ← bytesErase]
      rw [Nat.add_comm _ range.len, Nat.add_assoc, wrappingSub_mod]
  · rw [fileEq]
    exact fileRanges_storeRest _ _ _
  · simp only
    omega

/-! ## Claims from the queue -/

/-- What taking a range from the queue may do: it finds none, or it removes one
queued range. -/
def Takes (queue : RangeQueue) (taken : Option (Nat × Span)) (next : RangeQueue) : Prop :=
  next.Wf ∧
    match taken with
    | none => next = queue
    | some (idx, range) =>
      range ∈ queue.file idx ∧
        next.file = update queue.file idx ((queue.file idx).erase range) ∧
        queue.len = next.len + 1

/-- The queue gives out one of its ranges unless it has none. -/
theorem Wf.pop (wf : queue.Wf) :
    ∃ taken next, queue.pop = some (taken, next) ∧ queue.Takes taken next ∧
      (taken = none → ∀ idx, queue.file idx = ∅) := by
  cases largestEq : last queue.largest with
  | none =>
    have noLargest := last_eq_none_iff.mp largestEq
    refine ⟨none, queue, by simp [RangeQueue.pop, largestEq], ⟨wf, rfl⟩, fun _ idx => ?_⟩
    cases lastEq : last (queue.file idx) with
    | none => exact last_eq_none_iff.mp lastEq
    | some span =>
      have entry := (wf.largest (.of idx span)).mpr lastEq
      simp [noLargest] at entry
  | some key =>
    have queued := mem_of_last ((wf.largest key).mp (mem_of_last largestEq))
    rcases wf.remove queued with ⟨next, removeEq, nextWf, nextFile, nextLen⟩
    refine ⟨some (key.idx, key.span), next, ?_, ⟨nextWf, queued, nextFile, nextLen⟩, by simp⟩
    simp [RangeQueue.pop, largestEq, removeEq]

/-- A short claim takes one range of the file asked for, or nothing. -/
theorem Wf.takeShort (wf : queue.Wf) (idx maxSize : Nat) :
    ∃ taken next, queue.takeShort idx maxSize = some (taken, next) ∧
      queue.Takes taken next ∧ ∀ file range, taken = some (file, range) → file = idx := by
  have nothing : queue.Takes none queue := ⟨wf, rfl⟩
  cases shortestEq : (queue.byFile.lookup idx).bind first with
  | none => exact ⟨none, queue, by simp [RangeQueue.takeShort, shortestEq], nothing, by simp⟩
  | some span =>
    by_cases short : span.len ≤ maxSize
    · have queued : span ∈ queue.file idx := by
        rcases bind_eq_some_iff.mp shortestEq with ⟨spans, found, firstEq⟩
        simpa [file, fileRanges, found] using mem_of_first firstEq
      rcases wf.remove queued with ⟨next, removeEq, nextWf, nextFile, nextLen⟩
      refine ⟨some (idx, span), next, ?_, ⟨nextWf, queued, nextFile, nextLen⟩, ?_⟩
      · simp [RangeQueue.takeShort, shortestEq, short, removeEq]
      · intro file range equal
        simp_all
    · exact ⟨none, queue, by simp [RangeQueue.takeShort, shortestEq, short], nothing,
        by simp⟩

/-! ## Runs of the queue -/

/-- An operation of the queue. -/
inductive Op where
  | push (idx : Nat) (range : Span)
  | extend (idx : Nat) (ranges : List Span)
  | remove (idx : Nat) (range : Span)
  | pop
  | takeShort (idx maxSize : Nat)

/-- The ranges are nonempty, and disjoint from one another and from what is queued. -/
def Fresh (queue : RangeQueue) (idx : Nat) (ranges : List Span) : Prop :=
  (∀ range ∈ ranges, 0 < range.len) ∧ ranges.Pairwise Span.Disjoint ∧
    ∀ range ∈ ranges, ∀ queued ∈ queue.file idx, range.Disjoint queued

instance (queue : RangeQueue) (idx : Nat) (ranges : List Span) :
    Decidable (queue.Fresh idx ranges) :=
  inferInstanceAs (Decidable (_ ∧ _ ∧ _))

/-- New ranges are fresh, and only queued ranges are removed. -/
def Allows (queue : RangeQueue) : Op → Prop
  | .push idx range => queue.Fresh idx [range]
  | .extend idx ranges => queue.Fresh idx ranges
  | .remove idx range => range ∈ queue.file idx
  | .pop | .takeShort _ _ => True

instance (queue : RangeQueue) (op : Op) : Decidable (queue.Allows op) := by
  cases op <;> unfold Allows <;> infer_instance

def step (queue : RangeQueue) : Op → Option RangeQueue
  | .push idx range => queue.push idx range
  | .extend idx ranges => queue.extend idx ranges
  | .remove idx range => queue.remove idx range
  | .pop => queue.pop.map Prod.snd
  | .takeShort idx maxSize => (queue.takeShort idx maxSize).map Prod.snd

def system : System RangeQueue Op where
  enabled := Allows
  decidableEnabled _ _ := inferInstance
  step := step

theorem Fresh.spec (fresh : queue.Fresh idx ranges) :
    ranges.Nodup ∧ ∀ range ∈ ranges, range ∉ queue.file idx := by
  rcases fresh with ⟨ne, apart, outside⟩
  refine ⟨nodup_of_cover_le_one (cover_le_one apart) ne, ?_⟩
  intro range mem queued
  have some := ne range mem
  have self := outside range mem range queued
  simp only [Span.Disjoint, Span.stop] at self
  omega

/-- A permitted operation meets no failed assertion. -/
theorem Wf.step (wf : queue.Wf) {op : Op} (allowed : queue.Allows op) :
    ∃ next, queue.step op = some next ∧ next.Wf := by
  cases op with
  | push idx range =>
    rcases wf.extend allowed.spec.1 allowed.spec.2 with ⟨next, ran, nextWf, -⟩
    exact ⟨next, ran, nextWf⟩
  | extend idx ranges =>
    rcases wf.extend allowed.spec.1 allowed.spec.2 with ⟨next, ran, nextWf, -⟩
    exact ⟨next, ran, nextWf⟩
  | remove idx range =>
    rcases wf.remove allowed with ⟨next, ran, nextWf, -⟩
    exact ⟨next, ran, nextWf⟩
  | pop =>
    rcases wf.pop with ⟨taken, next, ran, takes, -⟩
    exact ⟨next, by simp [RangeQueue.step, ran], takes.1⟩
  | takeShort idx maxSize =>
    rcases wf.takeShort idx maxSize with ⟨taken, next, ran, takes, -⟩
    exact ⟨next, by simp [RangeQueue.step, ran], takes.1⟩

theorem wf_of_exec {ops : List Op} (run : system.exec empty ops = some queue) : queue.Wf := by
  refine system.exec_invariant ?_ wf_empty run
  intro state op next wf allowed ran
  rcases wf.step allowed with ⟨other, otherRan, otherWf⟩
  rw [show state.step op = some next from ran] at otherRan
  exact some.inj otherRan ▸ otherWf

/-- The index and the totals say what is queued. -/
structure Exact (queue : RangeQueue) : Prop where
  entry : ∀ idx, queue.file idx ≠ ∅ → ∃! key, key ∈ queue.largest ∧ key.idx = idx
  longest : ∀ key ∈ queue.largest, key.span ∈ queue.file key.idx ∧
    ∀ span ∈ queue.file key.idx, span.len ≤ key.len
  len : queue.len = total (fun _ file => file.card) queue.byFile
  bytes : queue.bytes = total (fun _ file => ∑ span ∈ file, span.len) queue.byFile % 2 ^ 64

theorem len_le_of_le {first second : Span} (le : first ≤ second) : first.len ≤ second.len := by
  rcases Prod.Lex.le_iff.mp (show first.shortest ≤ second.shortest from le) with less | same
  · exact Nat.le_of_lt less
  · exact Nat.le_of_eq same.1

theorem Wf.exact (wf : queue.Wf) : queue.Exact where
  entry := by
    intro idx ne
    rcases ne_none_iff_exists'.mp fun none => ne (last_eq_none_iff.mp none) with
      ⟨span, lastEq⟩
    refine ⟨.of idx span, ⟨(wf.largest (.of idx span)).mpr lastEq, rfl⟩, ?_⟩
    rintro key ⟨mem, rfl⟩
    rw [wf.largest, lastEq] at mem
    rw [some.inj mem]
    rfl
  longest := by
    intro key mem
    rw [wf.largest, last_eq_some_iff] at mem
    exact ⟨mem.1, fun span spanMem => len_le_of_le (mem.2 span spanMem)⟩
  len := wf.len
  bytes := wf.bytes

/-- The longest of the files' longest ranges is the longest of all. -/
theorem Wf.len_le_of_pop {next : RangeQueue} (wf : queue.Wf)
    (popped : queue.pop = some (some (idx, range), next)) :
    range ∈ queue.file idx ∧ ∀ other, ∀ span ∈ queue.file other, span.len ≤ range.len := by
  cases lastEq : last queue.largest with
  | none => simp [RangeQueue.pop, lastEq] at popped
  | some key =>
    simp only [RangeQueue.pop, lastEq, bind_eq_bind, bind_eq_some_iff, Option.pure_def,
      Option.some.injEq] at popped
    rcases popped with ⟨rest, -, ⟨rfl, rfl⟩, -⟩
    rcases last_eq_some_iff.mp lastEq with ⟨keyMem, greatest⟩
    refine ⟨(wf.exact.longest key keyMem).1, fun other span spanMem => ?_⟩
    rcases wf.exact.entry other (ne_empty_of_mem spanMem) with
      ⟨entry, ⟨entryMem, rfl⟩, -⟩
    have below := Prod.Lex.le_iff.mp (show entry.order ≤ key.order from greatest entry entryMem)
    have within := (wf.exact.longest entry entryMem).2 span spanMem
    have shorter : entry.len ≤ key.len :=
      below.elim Nat.le_of_lt fun same => Nat.le_of_eq same.1
    exact Nat.le_trans within shorter

/-- A short claim takes the shortest range of the file, if that is short enough. -/
theorem Wf.takeShort_eq_some_iff (wf : queue.Wf) {maxSize : Nat} :
    (∃ next, queue.takeShort idx maxSize = some (some (idx, range), next)) ↔
      first (queue.file idx) = some range ∧ range.len ≤ maxSize := by
  have firstEq : (queue.byFile.lookup idx).bind first = first (queue.file idx) := by
    cases found : queue.byFile.lookup idx with
    | none => simp [file, fileRanges, found, first]
    | some spans => simp [file, fileRanges, found]
  unfold RangeQueue.takeShort
  rw [firstEq]
  cases shortest : first (queue.file idx) with
  | none => simp
  | some span =>
    by_cases short : span.len ≤ maxSize
    · rcases wf.remove (mem_of_first shortest) with ⟨next, ran, -⟩
      simp only [if_pos short, ran, Option.bind_eq_bind, Option.bind_some, Option.pure_def,
        Option.some.injEq, Prod.mk.injEq, true_and]
      constructor
      · rintro ⟨-, rfl, -⟩
        exact ⟨rfl, short⟩
      · rintro ⟨rfl, -⟩
        exact ⟨next, rfl, rfl⟩
    · simp only [if_neg short, Option.some.injEq, Prod.mk.injEq, false_and, exists_false,
        false_iff, not_and, reduceCtorEq]
      rintro rfl
      exact short

/-- In every state of every run of permitted operations the index is exact, the byte total up to
a multiple of `2 ^ 64`, no assertion can fail, and claims get the longest or the shortest range. -/
theorem range_queue_index_exact {ops : List Op} {queue : RangeQueue}
    (run : system.exec empty ops = some queue) :
    queue.Exact ∧
      (∀ op, queue.Allows op → (queue.step op).isSome = true) ∧
      (∀ idx range next, queue.pop = some (some (idx, range), next) →
        range ∈ queue.file idx ∧ ∀ other, ∀ span ∈ queue.file other, span.len ≤ range.len) ∧
      (∀ next, queue.pop = some (none, next) → ∀ idx, queue.file idx = ∅) ∧
      ∀ idx maxSize range,
        (∃ next, queue.takeShort idx maxSize = some (some (idx, range), next)) ↔
          first (queue.file idx) = some range ∧ range.len ≤ maxSize := by
  have wf := wf_of_exec run
  refine ⟨wf.exact, ?_, fun idx range next => wf.len_le_of_pop, ?_, fun _ _ _ =>
    wf.takeShort_eq_some_iff⟩
  · intro op allowed
    rcases wf.step allowed with ⟨next, ran, -⟩
    rw [ran]
    rfl
  · intro next popped
    rcases wf.pop with ⟨taken, other, ran, -, none⟩
    rw [popped] at ran
    cases ran
    exact none rfl

theorem range_queue_index_exact_two :
    ∃ queue, system.exec empty [.extend 3 [⟨0, 4⟩, ⟨4, 2⟩], .push 1 ⟨8, 3⟩, .pop] = some queue ∧
      queue.len = 2 ∧ queue.Exact := by
  have ends : (system.exec empty [.extend 3 [⟨0, 4⟩, ⟨4, 2⟩], .push 1 ⟨8, 3⟩, .pop]).map
      RangeQueue.len = some 2 := by decide +kernel
  rcases map_eq_some_iff.mp ends with ⟨queue, run, len⟩
  exact ⟨queue, run, len, (range_queue_index_exact run).1⟩

/-- Three files of the largest size that a file can have: the 64-bit sum wraps around. -/
theorem range_queue_bytes_wrap :
    (system.exec empty [.push 0 ⟨0, 2 ^ 63 - 1⟩, .push 1 ⟨0, 2 ^ 63 - 1⟩,
      .push 2 ⟨0, 2 ^ 63 - 1⟩]).map (fun queue =>
        (queue.bytes, total (fun _ file => ∑ span ∈ file, span.len) queue.byFile)) =
      some (2 ^ 63 - 3, 3 * (2 ^ 63 - 1)) := by
  decide +kernel

end RangeQueue

end Syq.Sched
