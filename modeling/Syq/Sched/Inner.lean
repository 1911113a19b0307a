import Syq.Sched.FastBatch
import Syq.Sched.FileQueue
import Syq.Sched.RangeQueue

/-!
# The scheduler

The state behind the scheduler's lock and its operations, one definition for
each method of the source.  Range handles and fast-batch handles are addresses
into `cells` and `batches`, so that several parties can hold one handle.  The
result `none` of an operation is a panic: a failed assertion, an `expect`, an
index out of bounds or an underflow of an unsigned counter.
-/

namespace Syq.Sched

open Syq.Lib Function

/-- How a slow range may be split: the alignment of the cut and the smallest
share.  The alignment is never zero. -/
structure RangeSplit where
  block : Nat
  minimum : Nat
  block_pos : 0 < block
  deriving DecidableEq

/-- The state behind a `RangeHandle`: `[pos, end_)` is still unclaimed. -/
structure RangeState where
  idx : Nat
  pos : Nat
  end_ : Nat
  split : Option RangeSplit
  pos_le_end : pos ≤ end_

instance : Inhabited RangeState :=
  ⟨⟨0, 0, 0, none, Nat.le_refl 0⟩⟩

namespace RangeState

/-- The handle `claim_range` makes for a queued range. -/
def claimed (idx : Nat) (range : Span) (split : Option RangeSplit) : RangeState :=
  ⟨idx, range.off, range.stop, split, Nat.le_add_right _ _⟩

/-- The unclaimed part of the range. -/
def unclaimed (range : RangeState) : Span :=
  .between range.pos range.end_

/-- Move the position forward, never past the end. -/
def advance (range : RangeState) (pos : Nat) : RangeState :=
  { range with pos := min pos range.end_, pos_le_end := Nat.min_le_right _ _ }

/-- End the range at its position. -/
def release (range : RangeState) : RangeState :=
  { range with end_ := range.pos, pos_le_end := Nat.le_refl _ }

/-- Move the end down, never below the position. -/
def shrink (range : RangeState) (end_ : Nat) : RangeState :=
  { range with end_ := max range.pos end_, pos_le_end := Nat.le_max_left _ _ }

end RangeState

/-- The constants of a scheduler, as `Sched::new` leaves them. -/
structure Config where
  block : Nat
  minSplit : Nat
  block_pos : 0 < block
  two_blocks : 2 * block ≤ minSplit

/-- The configuration `Sched::new` computes. -/
def Config.new (block minSplit : Nat) (block_pos : 0 < block) : Config :=
  ⟨block, max minSplit (2 * block), block_pos, Nat.le_max_right _ _⟩

structure Inner where
  /-- The number of jobs pushed so far; a job's index is its number. -/
  jobs : Nat
  initialRangeWorkers : Nat
  files : FileQueue
  ranges : RangeQueue
  /-- The stack of files to publish, its top first. -/
  finishes : List (Nat × Bool)
  finishing : Nat
  inflight : List Nat
  outstanding : Nat → Option Nat
  failed : Finset Nat
  probing : Nat
  waitingWorkers : Nat
  fastProbing : Nat
  fastBatches : Nat
  fastGroups : List Nat
  scanDone : Bool
  workReleased : Bool
  abort : Bool
  /-- The range states, by the address of their handle. -/
  cells : Nat → RangeState
  /-- The next unused handle address. -/
  nextHandle : Nat
  /-- The shared batches, by the address of their handle. -/
  batches : Nat → FastBatchState

/-- One turn of the loop in `next`: the item it returns with the branch that
found it, or going to sleep until woken. -/
inductive Turn where
  | range (handle : Nat)
  | finish (idx : Nat) (matched : Bool)
  | file (idx : Nat)
  | stolenRange (handle : Nat)
  | stolenFile (idx batch : Nat) (group : Span)
  | exit
  | wait
  deriving DecidableEq

namespace Inner

variable {s : Inner} {left : Nat}

/-- The scheduler `Sched::new` makes. -/
def new : Inner where
  jobs := 0
  initialRangeWorkers := 0
  files := .empty
  ranges := .empty
  finishes := []
  finishing := 0
  inflight := []
  outstanding _ := none
  failed := ∅
  probing := 0
  waitingWorkers := 0
  fastProbing := 0
  fastBatches := 0
  fastGroups := []
  scanDone := false
  workReleased := false
  abort := false
  cells _ := default
  nextHandle := 0
  batches _ := default

/-- All work handed out and finished: what makes `next` return `Exit`. -/
def finished (s : Inner) : Bool :=
  s.scanDone && s.probing == 0 && s.finishing == 0 && s.inflight.isEmpty && s.files.isEmpty &&
    s.ranges.isEmpty && s.finishes.isEmpty

/-! ## Planning and control -/

def pushFile (s : Inner) (size : Nat) (destination : PathBytes) : Option Inner := do
  let files ← (s.files.register s.jobs destination).push (.of size s.jobs)
  return { s with jobs := s.jobs + 1, files }

def reserveInitialRanges (s : Inner) (workers : Nat) : Inner :=
  { s with initialRangeWorkers := workers }

/-- `release_preflighted_work`. -/
def releasePreflightedWork (s : Inner) : Inner :=
  { s with workReleased := true }

/-- `scan_done`. -/
def endScan (s : Inner) : Inner :=
  { s with scanDone := true }

/-- `abort`. -/
def abortCopy (s : Inner) : Inner :=
  { s with abort := true }

def failFile (s : Inner) (idx : Nat) : Inner :=
  { s with failed := insert idx s.failed }

/-- `requeue`; `size` is the job's size when it is queued again. -/
def requeue (s : Inner) (idx size : Nat) : Option Inner := do
  let files ← s.files.push (.of size idx)
  return { s with files }

def requeueProbed (s : Inner) (idx size : Nat) : Option Inner := do
  let probing ← checkedSub s.probing 1
  let files ← s.files.push (.of size idx)
  return { s with probing, files }

def finishDone (s : Inner) : Option Inner := do
  let finishing ← checkedSub s.finishing 1
  return { s with finishing }

def requeueFinish (s : Inner) (idx : Nat) (matched : Bool) : Inner :=
  { s with finishes := (idx, matched) :: s.finishes }

/-! ## Outstanding ranges -/

/-- `*outstanding.entry(idx).or_insert(0) += 1`. -/
def addOutstanding (s : Inner) (idx : Nat) : Inner :=
  { s with
    outstanding :=
      update s.outstanding idx (some ((s.outstanding idx).getD 0 + 1)) }

/-- Take one from a file's outstanding ranges, which must be recorded; the answer
is whether it was the last. -/
def dropOutstanding (s : Inner) (idx : Nat) : Option (Bool × Inner) := do
  let count ← s.outstanding idx
  let left ← checkedSub count 1
  return (left == 0, { s with
    outstanding :=
      update s.outstanding idx (if left = 0 then none else some left) })

theorem dropOutstanding_eq {idx : Nat} (counted : s.outstanding idx = some (left + 1)) :
    s.dropOutstanding idx = some (left == 0, { s with
      outstanding :=
        update s.outstanding idx (if left = 0 then none else some left) }) := by
  simp [dropOutstanding, counted, checkedSub]

/-- Take a handle out of flight. -/
def retire (s : Inner) (handle : Nat) : Inner :=
  { s with inflight := s.inflight.filter (· ≠ handle) }

/-- The scheduler after one outstanding range of a handle's file is retired, with
`left` still outstanding. -/
def dropped (s : Inner) (handle left : Nat) : Inner :=
  { s.retire handle with
    outstanding := update s.outstanding (s.cells handle).idx
      (if left = 0 then none else some left) }

theorem retire_dropOutstanding_eq {handle : Nat}
    (counted : s.outstanding (s.cells handle).idx = some (left + 1)) :
    (s.retire handle).dropOutstanding (s.cells handle).idx =
      some (left == 0, s.dropped handle left) :=
  dropOutstanding_eq counted

@[simp]
theorem dropped_files (s : Inner) (handle left : Nat) : (s.dropped handle left).files = s.files :=
  rfl

@[simp]
theorem dropped_finishes (s : Inner) (handle left : Nat) :
    (s.dropped handle left).finishes = s.finishes :=
  rfl

theorem isSome_outstanding_dropped (s : Inner) (handle left other : Nat) :
    ((s.dropped handle left).outstanding other).isSome =
      if other = (s.cells handle).idx then decide (left ≠ 0)
      else (s.outstanding other).isSome := by
  by_cases same : other = (s.cells handle).idx
  · subst same
    by_cases last : left = 0 <;> simp [dropped, last]
  · simp [dropped, same]

/-- Replace the state behind a range handle. -/
def setCell (s : Inner) (handle : Nat) (range : RangeState) : Inner :=
  { s with cells := update s.cells handle range }

/-- `claim_range`, with the split policy a stolen suffix inherits. -/
def claimRange (s : Inner) (idx : Nat) (range : Span) (split : Option RangeSplit) :
    Nat × Inner :=
  (s.nextHandle, { s with
      cells := update s.cells s.nextHandle (.claimed idx range split)
      inflight := s.inflight ++ [s.nextHandle]
      nextHandle := s.nextHandle + 1 })

@[simp]
theorem claimRange_fst (s : Inner) (idx : Nat) (range : Span) (split : Option RangeSplit) :
    (s.claimRange idx range split).1 = s.nextHandle :=
  rfl

/-- A claim starts at the first byte of its range. -/
@[simp]
theorem claimRange_pos (s : Inner) (idx : Nat) (range : Span) (split : Option RangeSplit) :
    ((s.claimRange idx range split).2.cells s.nextHandle).pos = range.off := by
  simp [claimRange, RangeState.claimed]


/-- Queue an unclaimed range. -/
def pushRange (s : Inner) (idx : Nat) (range : Span) : Option Inner := do
  let ranges ← s.ranges.push idx range
  return { s with ranges }

theorem pushRange_eq {idx : Nat} {range : Span} {ranges : RangeQueue}
    (pushEq : s.ranges.push idx range = some ranges) :
    s.pushRange idx range = some { s with ranges } := by
  simp [pushRange, pushEq]

/-! ## Range operations -/

/-- The loop of `ranges_ready` that cuts one range into `parts` shares of whole
blocks, the longer shares first; the last share ends where the range ends. -/
def shareLoop (block blocks parts stop : Nat) : Nat → Nat → Nat → List Span
  | 0, _, _ => []
  | left + 1, part, off =>
    let n := blocks / parts + if part < blocks % parts then 1 else 0
    let limit := if part + 1 = parts then stop else off + n * block
    .between off limit :: shareLoop block blocks parts stop left (part + 1) limit

/-- The number of shares `ranges_ready` cuts a range of `blocks` blocks into. -/
def shareCount (cfg : Config) (workers blocks : Nat) : Nat :=
  max 1 (min workers (blocks / (cfg.minSplit ⌈/⌉ cfg.block)))

/-- The ranges `ranges_ready` registers: a single aligned range is cut up for the
workers that start together when no other file is queued. -/
def initialShares (cfg : Config) (workers : Nat) (noFiles : Bool) (ranges : List Span) :
    List Span :=
  match ranges with
  | [range] =>
    let blocks := range.len / cfg.block
    let parts := shareCount cfg workers blocks
    if 1 < workers ∧ noFiles ∧ range.off % cfg.block = 0 ∧ 1 < parts then
      shareLoop cfg.block blocks parts range.stop parts 0 range.off
    else ranges
  | _ => ranges

/-- Register the ranges of a probed file.  The first is claimed at once. -/
def rangesReady (cfg : Config) (s : Inner) (idx : Nat) (ranges : List Span) :
    Option (Option Nat × Inner) := do
  let probing ← checkedSub s.probing 1
  let shares := initialShares cfg s.initialRangeWorkers s.files.isEmpty ranges
  let s := { s with probing, initialRangeWorkers := 0 }
  match shares with
  | [] => return (none, s)
  | first :: rest =>
    let s := { s with outstanding := update s.outstanding idx (some shares.length) }
    let (handle, s) := s.claimRange idx first none
    let queue ← s.ranges.extend idx rest
    return (some handle, { s with ranges := queue })

/-- Retire a finished range; true if this completed the file. -/
def rangeDone (s : Inner) (handle : Nat) : Option (Bool × Inner) := do
  let idx := (s.cells handle).idx
  let (done, s) ← (s.retire handle).dropOutstanding idx
  return (done && !s.abort && !decide (idx ∈ s.failed), s)

theorem rangeDone_eq {handle : Nat}
    (counted : s.outstanding (s.cells handle).idx = some (left + 1)) :
    s.rangeDone handle = some
      ((left == 0) && !s.abort && !decide ((s.cells handle).idx ∈ s.failed),
        s.dropped handle left) := by
  simp only [rangeDone, retire_dropOutstanding_eq counted, Option.bind_eq_bind, Option.pure_def]
  rfl

/-- Put a range whose acknowledgements are uncertain back from `start` on. -/
def retryRange (s : Inner) (handle start : Nat) : Option Inner := do
  let range := s.cells handle
  let s := s.retire handle
  if start < range.end_ then
    s.pushRange range.idx (.between start range.end_)
  else
    let (last, s) ← s.dropOutstanding range.idx
    return if last then s.requeueFinish range.idx false else s

/-- Hand the unread remainder of a range back to the queue. -/
def releaseRest (s : Inner) (handle : Nat) : Option Inner :=
  let range := s.cells handle
  if range.end_ ≤ range.pos then some s
  else ((s.setCell handle range.release).addOutstanding range.idx).pushRange range.idx
    range.unclaimed

/-- `update_range_split`. -/
def updateRangeSplit (s : Inner) (handle : Nat) (split : RangeSplit) : Inner :=
  s.setCell handle { s.cells handle with split := some split }

/-- A worker's advance of the position of a range it holds. -/
def advance (s : Inner) (handle pos : Nat) : Inner :=
  s.setCell handle ((s.cells handle).advance pos)

def returnUnstartedFile (s : Inner) (idx size : Nat) : Option Inner :=
  s.requeueProbed idx size

/-- The queued range keeps the assignment's outstanding share. -/
def returnUnstartedRange (s : Inner) (handle : Nat) : Option Inner :=
  (s.retire handle).pushRange (s.cells handle).idx (s.cells handle).unclaimed

def returnUnstartedFinish (s : Inner) (idx : Nat) (matched : Bool) : Option Inner :=
  (s.requeueFinish idx matched).finishDone

/-- A short claim of the same file by a worker that can issue its next read. -/
def takeShortClaim (s : Inner) (idx maxSize : Nat) : Option (Option Nat × Inner) := do
  let (taken, ranges) ← s.ranges.takeShort idx maxSize
  let s := { s with ranges }
  match taken with
  | none => return (none, s)
  | some (idx, range) =>
    let (handle, s) := s.claimRange idx range none
    return (some handle, s)

/-- What `range_work` answers. -/
inductive RangeWork where
  | cancelled
  | ready (next : Option Nat)
  deriving DecidableEq

/-- Cancellation status, and with a size a short claim that leaves enough ranges
for the workers asleep in `next`. -/
def rangeWork (s : Inner) (idx : Nat) (maxSize : Option Nat) : Option (RangeWork × Inner) :=
  if s.abort ∨ idx ∈ s.failed then some (.cancelled, s)
  else
    match maxSize with
    | none => some (.ready none, s)
    | some size =>
      if size = 0 ∨ s.ranges.len ≤ s.waitingWorkers then some (.ready none, s)
      else do
        let (next, s) ← s.takeShortClaim idx size
        return (.ready next, s)

/-! ## Stealing -/

/-- One comparison of the scan in `steal`.  `seen` is the position the scan read
under the handle's own lock; it may have advanced since. -/
def stealBest (cfg : Config) (s : Inner) (seen : Nat → Nat) (best : Option (Nat × Nat))
    (handle : Nat) : Option (Nat × Nat) :=
  let range := s.cells handle
  let rem := range.end_ - seen handle
  let minimum := (range.split.map RangeSplit.minimum).getD cfg.minSplit
  if 2 * minimum ≤ rem ∧ (best.all fun longest => longest.1 < rem) then some (rem, handle)
  else best

/-- The range `steal` picks: the first of the longest ranges worth splitting. -/
def stealVictim (cfg : Config) (s : Inner) (seen : Nat → Nat) : Option Nat :=
  (s.inflight.foldl (stealBest cfg s seen) none).map Prod.snd

/-- The aligned offset at which `steal` cuts a range. -/
def stealCut (cfg : Config) (range : RangeState) : Nat :=
  let block := (range.split.map RangeSplit.block).getD cfg.block
  ((range.pos + (range.end_ - range.pos) / 2) ⌈/⌉ block) * block

/-- Split the longest range in flight and claim its second half. -/
def steal (cfg : Config) (s : Inner) (seen : Nat → Nat) : Option (Nat × Inner) := do
  let victim ← s.stealVictim cfg seen
  let range := s.cells victim
  let cut := stealCut cfg range
  if range.end_ ≤ cut ∨ cut ≤ range.pos then
    failure
  let s := (s.setCell victim (range.shrink cut)).addOutstanding range.idx
  return s.claimRange range.idx (.between cut range.end_) range.split

/-- The first shared batch with an unread group, and the group taken from it. -/
def findGroup (s : Inner) :
    List Nat → Option (Option (Nat × Span × List (Nat × Nat) × FastBatchState))
  | [] => some none
  | handle :: rest => do
      let (taken, batch) ← (s.batches handle).popBack
      match taken with
      | none => findGroup s rest
      | some (group, files) => return some (handle, group, files, batch)

/-- Queue the files a stolen group returns. -/
def pushFiles : FileQueue → List (Nat × Nat) → Option FileQueue
  | queue, [] => some queue
  | queue, (size, idx) :: rest => do
      let more ← queue.push (.of size idx)
      pushFiles more rest

/-- Take a whole unread group from another worker's batch: its first file stays a
probe, its siblings return to the ordinary queue. -/
def stealFastGroup (s : Inner) : Option (Option (Nat × Nat × Span) × Inner) := do
  match ← s.findGroup s.fastGroups with
  | none => return (none, s)
  | some (handle, group, files, batch) =>
    let fastProbing ← checkedSub s.fastProbing files.length
    let siblings ← checkedSub files.length 1
    let probing ← checkedSub s.probing siblings
    let first ← files.head?
    let queue ← pushFiles s.files files.tail
    return (some (first.2, handle, group), { s with
      fastProbing
      probing
      files := queue
      batches := update s.batches handle batch })

/-! ## Handing out work -/

/-- The search for work of one turn of `next`, in the order of the source. -/
def findWork (cfg : Config) (s : Inner) (seen : Nat → Nat) : Option (Option Turn × Inner) := do
  let (range, ranges) ← s.ranges.pop
  match range with
  | some (idx, range) =>
    let (handle, s) := { s with ranges }.claimRange idx range none
    return (some (.range handle), s)
  | none =>
  match s.finishes with
  | (idx, matched) :: finishes =>
    return (some (.finish idx matched), { s with finishes, finishing := s.finishing + 1 })
  | [] =>
  let (file, files) ← s.files.pop
  match file with
  | some key => return (some (.file key.index), { s with files, probing := s.probing + 1 })
  | none =>
  match s.steal cfg seen with
  | some (handle, s) => return (some (.stolenRange handle), s)
  | none =>
    let (stolen, s) ← s.stealFastGroup
    return (stolen.map fun (idx, batch, group) => .stolenFile idx batch group, s)

/-- Work is handed out once the scan ended or preflighted work was released. -/
def searchWork (cfg : Config) (s : Inner) (seen : Nat → Nat) : Option (Option Turn × Inner) :=
  if s.scanDone || s.workReleased then s.findWork cfg seen else some (none, s)

/-- One turn of the loop in `next`. -/
def nextTurn (cfg : Config) (s : Inner) (seen : Nat → Nat) : Option (Turn × Inner) :=
  if s.abort then some (.exit, s)
  else do
    let (work, s) ← s.searchWork cfg seen
    match work with
    | some turn => return (turn, s)
    | none =>
      if s.finished then return (.exit, s)
      else return (.wait, { s with waitingWorkers := s.waitingWorkers + 1 })

/-- A worker in `next` reacquires the lock after a wakeup, or has just called it. -/
def wake (s : Inner) (woken : Bool) : Option Inner :=
  if woken then (checkedSub s.waitingWorkers 1).map fun waitingWorkers => { s with waitingWorkers }
  else some s

/-- `take_small_near`: further small files for the batch around `first`. -/
def takeSmallNear (s : Inner) (first maxSize maxN maxBytes : Nat) :
    Option (List Nat × Inner) := do
  let (out, files) ← s.files.takeSmallGroup (some first) maxSize maxN maxBytes
  return (out, { s with files, probing := s.probing + out.length })

/-! ## Fast batches -/

/-- Mark the first file of a fast batch and choose a balanced batch size.  A bound of zero
panics in `clamp`. -/
def beginFastBatch (s : Inner) (active maxN : Nat) : Option (Nat × Inner) :=
  if s.fastProbing < s.probing ∧ 0 < maxN then
    let availableWorkers := max (active - s.fastBatches) 1
    let availableFiles := s.files.count + 1
    let target := min (max (availableFiles ⌈/⌉ availableWorkers) 1) maxN
    some (target, { s with
      fastProbing := s.fastProbing + 1
      fastBatches := s.fastBatches + 1 })
  else none

def markFast (s : Inner) (n : Nat) : Option Inner :=
  if s.fastProbing + n ≤ s.probing then some { s with fastProbing := s.fastProbing + n }
  else none

/-- Share the unread groups of a batch behind a new handle. -/
def shareFastGroups (s : Inner) (handle : Nat) (files : List (Nat × Nat)) (groups : List Span) :
    Option (Span × Inner) := do
  let (first, batch) ← FastBatchState.share files groups
  return (first, { s with
    batches := update s.batches handle batch
    fastGroups := if groups.tail.isEmpty then s.fastGroups else s.fastGroups ++ [handle] })

/-- The owner's claim from its own shared batch. -/
def claimFast (s : Inner) (handle maxFiles maxBytes : Nat) : Option (Option Span × Inner) := do
  let (claimed, batch) ← (s.batches handle).claim maxFiles maxBytes
  return (claimed, { s with batches := update s.batches handle batch })

/-- Stop stealing from a batch and learn which of its files are still owned. -/
def finishFastGroups (s : Inner) (handle : Nat) : List Bool × Inner :=
  ((s.batches handle).owned, { s with fastGroups := s.fastGroups.filter (· ≠ handle) })

/-- Finish all scheduler bookkeeping for one fast batch at once. -/
def completeFastBatch (s : Inner) (n : Nat) : Option Inner := do
  if n = 0 then
    failure
  let probing ← checkedSub s.probing n
  let fastProbing ← checkedSub s.fastProbing n
  let fastBatches ← checkedSub s.fastBatches 1
  return { s with probing, fastProbing, fastBatches }

end Inner

end Syq.Sched
