import Syq.Sched.RangeAccounting

/-!
# Workers and their protocol

The scheduler is driven by a planner and any number of workers.  What a worker
holds between two calls is not in the scheduler: a file it probes, a fast batch,
ranges, a claimed publication, and a job it has let go of but not finished with.
`World` puts these beside the scheduler, and `Event` lists the calls in the ways
`Worker::process_item` makes them.  The guard of an event says who may make the
call; its step is the scheduler's own operation.
-/

namespace Syq.Sched

open Syq.Lib Function

/-- Where a fast batch stands: its owner collects files, shares the unread groups,
or has stopped sharing. -/
inductive Phase where
  | collecting
  | sharing
  | finished
  deriving DecidableEq

/-- A fast batch as its owner sees it: the slots it will complete, and the files
it still answers for. -/
structure Batch where
  slots : Nat
  held : Multiset Nat
  phase : Phase

structure World where
  sched : Inner
  history : RangeHistory
  /-- Files being probed. -/
  probes : Multiset Nat
  /-- Probe slots whose file was queued again before the probe ended. -/
  staleProbes : Nat
  batches : Nat → Batch
  /-- The fast batches not yet completed. -/
  live : Finset Nat
  nextBatch : Nat
  /-- The spans of each batch its owner claimed, the first group included. -/
  claims : Nat → List Span
  /-- The groups of each batch that were stolen. -/
  stolen : Nat → List Span
  /-- Claimed publications. -/
  finishing : Multiset Nat
  /-- Claimed publications whose file was queued again before `finish_done`. -/
  staleFinishing : Nat
  /-- Files let go by the scheduler that their worker is still publishing. -/
  publishing : Multiset Nat
  retired : Multiset Nat

/-- The calls on the scheduler, with who makes them. -/
inductive Event where
  | pushFile (size : Nat) (destination : PathBytes)
  | reserveInitialRanges (workers : Nat)
  | releasePreflightedWork
  | endScan
  | abortCopy
  | failFile (idx : Nat)
  /-- A turn of `next`, by a worker that was woken or has just called it. -/
  | next (woken : Bool) (seen : Nat → Nat)
  | takeSmallNear (first maxSize maxN maxBytes : Nat)
  | returnUnstartedFile (idx size : Nat)
  | returnUnstartedRange (handle : Nat)
  | returnUnstartedFinish (idx : Nat) (matched : Bool)
  | requeueProbed (idx size : Nat)
  /-- A probed file is queued again, or its publication is, before the probe ends. -/
  | requeueHeldProbe (idx size : Nat)
  | requeueFinishHeldProbe (idx : Nat) (matched : Bool)
  /-- The `ranges_ready` with no range that ends such a probe. -/
  | endStaleProbe (idx : Nat)
  | rangesReady (idx : Nat) (ranges : List Span)
  | rangeWork (idx : Nat) (maxSize : Option Nat)
  | advance (handle pos : Nat)
  | updateRangeSplit (handle : Nat) (split : RangeSplit)
  | releaseRest (handle : Nat)
  | rangeDone (handle : Nat)
  | retryRange (handle : Nat)
  | finishDone (idx : Nat)
  /-- A file whose publication is claimed is queued again before `finish_done`. -/
  | requeueHeldFinish (idx size : Nat)
  | requeueFinishHeldFinish (idx : Nat) (matched : Bool)
  | endStaleFinish
  | beginFastBatch (idx active maxN : Nat)
  | markFast (batch : Nat) (files : List Nat)
  | shareFastGroups (batch : Nat) (files : List (Nat × Nat)) (groups : List Span)
  | claimFast (batch maxFiles maxBytes : Nat)
  | finishFastGroups (batch : Nat)
  | requeueBatched (batch idx size : Nat)
  | completeFastBatch (batch : Nat)
  /-- The publication of a file that was let go ends. -/
  | published (idx : Nat)
  /-- A file that was let go is queued again, or its publication is. -/
  | requeueLate (idx size : Nat)
  | requeueFinishLate (idx : Nat) (matched : Bool)

/-- Ranges as the comparison of a file produces them: nonempty and disjoint. -/
def ValidRanges (ranges : List Span) : Prop :=
  (∀ range ∈ ranges, 0 < range.len) ∧ ranges.Pairwise Span.Disjoint

instance (ranges : List Span) : Decidable (ValidRanges ranges) :=
  inferInstanceAs (Decidable (_ ∧ _))

namespace World

/-- Nothing pushed and no worker at work. -/
def init : World where
  sched := .new
  history := .empty
  probes := 0
  staleProbes := 0
  batches _ := ⟨0, 0, .finished⟩
  live := ∅
  nextBatch := 0
  claims _ := []
  stolen _ := []
  finishing := 0
  staleFinishing := 0
  publishing := 0
  retired := 0

/-- A batch that is not completed, in one of the given phases. -/
def BatchIn (w : World) (batch : Nat) (phase : Phase) : Prop :=
  batch ∈ w.live ∧ (w.batches batch).phase = phase

instance (w : World) (batch : Nat) (phase : Phase) : Decidable (w.BatchIn batch phase) :=
  inferInstanceAs (Decidable (_ ∧ _))

/-- A batch that is not completed and not being shared. -/
def BatchHeld (w : World) (batch : Nat) : Prop :=
  batch ∈ w.live ∧ (w.batches batch).phase ≠ .sharing

instance (w : World) (batch : Nat) : Decidable (w.BatchHeld batch) :=
  inferInstanceAs (Decidable (_ ∧ _))

/-- Who may make a call, and with what. -/
def enabled (w : World) : Event → Prop
  | .pushFile _ _ => w.sched.jobs < 2 ^ 64
  | .next woken seen => (woken = true → 0 < w.sched.waitingWorkers) ∧
      ∀ handle ∈ w.sched.inflight,
        w.history.starts handle ≤ seen handle ∧ seen handle ≤ (w.sched.cells handle).pos
  | .takeSmallNear first _ _ _ => first < w.sched.jobs
  | .returnUnstartedFile idx _ => idx ∈ w.probes
  | .returnUnstartedRange handle => handle ∈ w.sched.inflight ∧
      (w.sched.cells handle).pos = w.history.starts handle ∧
      (w.sched.cells handle).pos < (w.sched.cells handle).end_
  | .returnUnstartedFinish idx _ => idx ∈ w.finishing
  | .requeueProbed idx _ => idx ∈ w.probes
  | .requeueHeldProbe idx _ => idx ∈ w.probes
  | .requeueFinishHeldProbe idx _ => idx ∈ w.probes
  | .endStaleProbe _ => 0 < w.staleProbes
  | .rangesReady idx ranges => idx ∈ w.probes ∧ ValidRanges ranges
  | .advance handle pos => handle ∈ w.sched.inflight ∧
      (w.sched.cells handle).pos ≤ pos ∧ pos ≤ (w.sched.cells handle).end_
  | .updateRangeSplit handle _ => handle ∈ w.sched.inflight
  | .releaseRest handle => handle ∈ w.sched.inflight
  | .rangeDone handle => handle ∈ w.sched.inflight
  | .retryRange handle => handle ∈ w.sched.inflight
  | .finishDone idx => idx ∈ w.finishing
  | .requeueHeldFinish idx _ => idx ∈ w.finishing
  | .requeueFinishHeldFinish idx _ => idx ∈ w.finishing
  | .endStaleFinish => 0 < w.staleFinishing
  | .beginFastBatch idx _ maxN => idx ∈ w.probes ∧ 0 < maxN
  | .markFast batch files =>
    w.BatchIn batch .collecting ∧ (files : Multiset Nat) ≤ w.probes
  | .shareFastGroups batch files groups => w.BatchIn batch .collecting ∧
      (files.map Prod.snd : Multiset Nat) = (w.batches batch).held ∧
      (w.batches batch).slots = files.length ∧ groups ≠ [] ∧ Tiles 0 groups files.length
  | .claimFast batch _ _ => w.BatchIn batch .sharing
  | .finishFastGroups batch => w.BatchIn batch .sharing
  | .requeueBatched batch idx _ => w.BatchHeld batch ∧ idx ∈ (w.batches batch).held
  | .completeFastBatch batch => w.BatchHeld batch
  | .published idx => idx ∈ w.publishing
  | .requeueLate idx _ => idx ∈ w.publishing
  | .requeueFinishLate idx _ => idx ∈ w.publishing
  | _ => True

instance (w : World) (event : Event) : Decidable (w.enabled event) := by
  cases event <;> dsimp only [enabled] <;> infer_instance

/-- The owner of a batch may share the groups that the grouping loop cuts it into. -/
theorem enabled_groupFiles {w : World} {batch : Nat} {files sizes : List (Nat × Nat)}
    (limits : GroupLimits) (collecting : w.BatchIn batch .collecting)
    (held : (files.map Prod.snd : Multiset Nat) = (w.batches batch).held)
    (slots : (w.batches batch).slots = files.length) (collected : files ≠ [])
    (same : sizes.length = files.length) :
    w.enabled (.shareFastGroups batch files (groupFiles limits sizes 0 0 0 0)) := by
  have tiles := tiles_groupFiles limits sizes 0 0 (Nat.le_refl 0)
  rw [Nat.zero_add, same] at tiles
  refine ⟨collecting, held, slots, ?_, tiles⟩
  intro none
  rw [none] at tiles
  exact collected (List.length_eq_zero_iff.mp tiles.symm)

/-! ## What the calls do -/

/-- Replace the record of one batch. -/
def setBatch (w : World) (batch : Nat) (record : Batch) : World :=
  { w with batches := update w.batches batch record }

/-- A worker takes what a turn of `next` gave it. -/
def take (w : World) (turn : Turn) (sched : Inner) : World :=
  match turn with
  | .range handle | .stolenRange handle =>
    { w with sched, history := w.history.claim handle (sched.cells handle).pos }
  | .finish idx _ => { w with sched, finishing := idx ::ₘ w.finishing }
  | .file idx => { w with sched, probes := idx ::ₘ w.probes }
  | .stolenFile idx batch group =>
    let record := w.batches batch
    let files := (slice (sched.batches batch).files group).map Prod.snd
    { w with
      sched
      probes := idx ::ₘ w.probes
      batches := update w.batches batch
        ⟨record.slots - files.length, record.held - files, record.phase⟩
      stolen := update w.stolen batch (w.stolen batch ++ [group]) }
  | .exit | .wait => { w with sched }

/-- A turn of `next`, and the turn itself. -/
def next (cfg : Config) (w : World) (woken : Bool) (seen : Nat → Nat) : Option (Turn × World) := do
  let sched ← w.sched.wake woken
  let (turn, sched) ← sched.nextTurn cfg seen
  return (turn, w.take turn sched)

/-- A probed file's ranges are known. -/
def rangesReady (cfg : Config) (w : World) (idx : Nat) (ranges : List Span) : Option World := do
  let (first, sched) ← w.sched.rangesReady cfg idx ranges
  let registered := w.history.register idx ranges
  match first with
  | none => return { w with
      sched
      history := registered
      probes := w.probes.erase idx
      publishing := idx ::ₘ w.publishing }
  | some handle => return { w with
      sched
      history := registered.claim handle (sched.cells handle).pos
      probes := w.probes.erase idx }

/-- Take up a claimed short range. -/
def rangeWork (w : World) (idx : Nat) (maxSize : Option Nat) : Option World := do
  let (work, sched) ← w.sched.rangeWork idx maxSize
  match work with
  | .ready (some handle) =>
    return { w with sched, history := w.history.claim handle (sched.cells handle).pos }
  | _ => return { w with sched }

/-- The last range of a file was retired: its worker was told to publish it, or was
told nothing and the file is done with. -/
def letGo (w : World) (idx : Nat) (reported : Bool) : World :=
  { w with
    history := w.history.close idx reported
    publishing := if reported then idx ::ₘ w.publishing else w.publishing
    retired := if reported then w.retired else idx ::ₘ w.retired }

def rangeDone (w : World) (handle : Nat) : Option World := do
  let range := w.sched.cells handle
  let (done, sched) ← w.sched.rangeDone handle
  let history := w.history.retire range.idx (w.history.starts handle) range.pos range.end_
  let w := { w with sched, history }
  return if done then w.letGo range.idx true
    else if (sched.outstanding range.idx).isSome then w else w.letGo range.idx false

/-- A range goes back to the queue, or its file's publication is queued. -/
def retryRange (w : World) (handle : Nat) : Option World := do
  let range := w.sched.cells handle
  let sched ← w.sched.retryRange handle (w.history.starts handle)
  return if w.sched.finishes.length < sched.finishes.length then
      { w with sched, history := w.history.close range.idx true }
    else { w with sched }

def beginFastBatch (w : World) (idx active maxN : Nat) : Option World := do
  let (_, sched) ← w.sched.beginFastBatch active maxN
  return { w with
    sched
    probes := w.probes.erase idx
    batches := update w.batches w.nextBatch ⟨1, {idx}, .collecting⟩
    live := insert w.nextBatch w.live
    nextBatch := w.nextBatch + 1 }

def markFast (w : World) (batch : Nat) (files : List Nat) : Option World := do
  let sched ← w.sched.markFast files.length
  let record := w.batches batch
  return { w.setBatch batch ⟨record.slots + files.length, record.held + files, record.phase⟩ with
    sched
    probes := w.probes - files }

def shareFastGroups (w : World) (batch : Nat) (files : List (Nat × Nat)) (groups : List Span) :
    Option World := do
  let (first, sched) ← w.sched.shareFastGroups batch files groups
  return { w.setBatch batch { w.batches batch with phase := .sharing } with
    sched
    claims := update w.claims batch [first]
    stolen := update w.stolen batch [] }

def claimFast (w : World) (batch maxFiles maxBytes : Nat) : Option World := do
  let (claimed, sched) ← w.sched.claimFast batch maxFiles maxBytes
  return { w with
    sched
    claims := update w.claims batch (w.claims batch ++ claimed.toList) }

/-- The owner keeps the files whose flag is still set. -/
def finishFastGroups (w : World) (batch : Nat) : World :=
  let (owned, sched) := w.sched.finishFastGroups batch
  let files := FastBatchState.ownedFiles (sched.batches batch).files owned
  { w.setBatch batch ⟨files.length, files, .finished⟩ with sched }

def requeueBatched (w : World) (batch idx size : Nat) : Option World := do
  let sched ← w.sched.requeue idx size
  let record := w.batches batch
  return { w.setBatch batch { record with held := record.held.erase idx } with sched }

/-- The batch's remaining files are retired with it. -/
def completeFastBatch (w : World) (batch : Nat) : Option World := do
  let record := w.batches batch
  let sched ← w.sched.completeFastBatch record.slots
  return { w with
    sched
    live := w.live.erase batch
    retired := w.retired + record.held }

/-- The effect of an event; `none` is a panic of the scheduler. -/
def step (cfg : Config) (w : World) : Event → Option World
  | .pushFile size destination =>
    (w.sched.pushFile size destination).map fun sched => { w with sched }
  | .reserveInitialRanges workers =>
    some { w with sched := w.sched.reserveInitialRanges workers }
  | .releasePreflightedWork => some { w with sched := w.sched.releasePreflightedWork }
  | .endScan => some { w with sched := w.sched.endScan }
  | .abortCopy => some { w with sched := w.sched.abortCopy }
  | .failFile idx => some { w with sched := w.sched.failFile idx }
  | .next woken seen => (w.next cfg woken seen).map Prod.snd
  | .takeSmallNear first maxSize maxN maxBytes =>
    (w.sched.takeSmallNear first maxSize maxN maxBytes).map fun (files, sched) =>
      { w with sched, probes := w.probes + files }
  | .returnUnstartedFile idx size =>
    (w.sched.returnUnstartedFile idx size).map fun sched =>
      { w with sched, probes := w.probes.erase idx }
  | .returnUnstartedRange handle =>
    (w.sched.returnUnstartedRange handle).map fun sched => { w with sched }
  | .returnUnstartedFinish idx matched =>
    (w.sched.returnUnstartedFinish idx matched).map fun sched =>
      { w with sched, finishing := w.finishing.erase idx }
  | .requeueProbed idx size =>
    (w.sched.requeueProbed idx size).map fun sched =>
      { w with sched, probes := w.probes.erase idx }
  | .requeueHeldProbe idx size =>
    (w.sched.requeue idx size).map fun sched =>
      { w with sched, probes := w.probes.erase idx, staleProbes := w.staleProbes + 1 }
  | .requeueFinishHeldProbe idx matched =>
    some { w with
      sched := w.sched.requeueFinish idx matched
      probes := w.probes.erase idx
      staleProbes := w.staleProbes + 1 }
  | .endStaleProbe idx =>
    (w.sched.rangesReady cfg idx []).map fun (_, sched) =>
      { w with sched, staleProbes := w.staleProbes - 1 }
  | .rangesReady idx ranges => w.rangesReady cfg idx ranges
  | .rangeWork idx maxSize => w.rangeWork idx maxSize
  | .advance handle pos => some { w with sched := w.sched.advance handle pos }
  | .updateRangeSplit handle split =>
    some { w with sched := w.sched.updateRangeSplit handle split }
  | .releaseRest handle => (w.sched.releaseRest handle).map fun sched => { w with sched }
  | .rangeDone handle => w.rangeDone handle
  | .retryRange handle => w.retryRange handle
  | .finishDone idx =>
    w.sched.finishDone.map fun sched =>
      { w with sched, finishing := w.finishing.erase idx, retired := idx ::ₘ w.retired }
  | .requeueHeldFinish idx size =>
    (w.sched.requeue idx size).map fun sched =>
      { w with
        sched, finishing := w.finishing.erase idx, staleFinishing := w.staleFinishing + 1 }
  | .requeueFinishHeldFinish idx matched =>
    some { w with
      sched := w.sched.requeueFinish idx matched
      finishing := w.finishing.erase idx
      staleFinishing := w.staleFinishing + 1 }
  | .endStaleFinish =>
    w.sched.finishDone.map fun sched =>
      { w with sched, staleFinishing := w.staleFinishing - 1 }
  | .beginFastBatch idx active maxN => w.beginFastBatch idx active maxN
  | .markFast batch files => w.markFast batch files
  | .shareFastGroups batch files groups => w.shareFastGroups batch files groups
  | .claimFast batch maxFiles maxBytes => w.claimFast batch maxFiles maxBytes
  | .finishFastGroups batch => some (w.finishFastGroups batch)
  | .requeueBatched batch idx size => w.requeueBatched batch idx size
  | .completeFastBatch batch => w.completeFastBatch batch
  | .published idx =>
    some { w with publishing := w.publishing.erase idx, retired := idx ::ₘ w.retired }
  | .requeueLate idx size =>
    (w.sched.requeue idx size).map fun sched =>
      { w with sched, publishing := w.publishing.erase idx }
  | .requeueFinishLate idx matched =>
    some { w with
      sched := w.sched.requeueFinish idx matched
      publishing := w.publishing.erase idx }

end World

/-- The scheduler with its planner and workers. -/
def system (cfg : Config) : System World Event where
  enabled := World.enabled
  decidableEnabled _ _ := inferInstance
  step := World.step cfg

end Syq.Sched
