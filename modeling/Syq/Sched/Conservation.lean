import Syq.Sched.Safety

/-!
# What a run of the scheduler conserves

The results for whole runs.  Every byte a file registered is in one place, its
ranges are counted and closed once, every pushed job is in one place until it is
let go, and a shared batch is divided once.
-/

namespace Syq.Sched

open Syq.Lib List Option

variable {cfg : Config} {events : List Event}

/-- Every run of the scheduler and its workers keeps the invariant. -/
theorem Inv.of_run {w : World} (run : (system cfg).exec .init events = some w) : Inv w := by
  refine @System.exec_invariant _ _ (system cfg) Inv ?_ _ _ _ inv_init run
  intro state event next inv permitted stepEq
  rcases @Inv.step state cfg inv event permitted with ⟨after, afterEq, afterInv⟩
  obtain rfl : after = next := some.inj (afterEq.symm.trans stepEq)
  exact afterInv

/-! ## Ranges -/

namespace World

/-- How many queued ranges of a file hold a byte. -/
def queuedAt (w : World) (idx byte : Nat) : Nat :=
  ∑ range ∈ w.sched.ranges.file idx, range.count byte

/-- The ranges in flight of a file. -/
def inflightOf (w : World) (idx : Nat) : List Nat :=
  w.sched.inflight.filter fun handle => (w.sched.cells handle).idx = idx

/-- How many ranges in flight of a file hold a byte in their unclaimed part. -/
def unclaimedAt (w : World) (idx byte : Nat) : Nat :=
  ((w.inflightOf idx).map fun handle => (w.sched.cells handle).unclaimed.count byte).sum

/-- How many ranges in flight of a file have claimed a byte. -/
def claimedAt (w : World) (idx byte : Nat) : Nat :=
  ((w.inflightOf idx).map fun handle =>
    (Span.between (w.history.starts handle) (w.sched.cells handle).pos).count byte).sum

/-- The ranges of a file that are queued or in flight. -/
def liveRanges (w : World) (idx : Nat) : Nat :=
  (w.sched.ranges.file idx).card + (w.inflightOf idx).length

theorem flying_eq_sum (w : World) (flight : Nat → RangeState → Nat) (idx : Nat) :
    (w.sched.rangeView w.history).flying flight idx =
      ((w.inflightOf idx).map fun handle =>
        flight (w.history.starts handle) (w.sched.cells handle)).sum := by
  simp only [inflightOf]
  change (w.sched.inflight.map _).sum = _
  induction w.sched.inflight with
  | nil => rfl
  | cons handle rest ih =>
    rw [map_cons, sum_cons, ih]
    by_cases same : (w.sched.cells handle).idx = idx
    · simp [same, Inner.rangeView]
    · simp [same, Inner.rangeView]

theorem pieces_eq_liveRanges (w : World) (idx : Nat) :
    (w.sched.rangeView w.history).pieces idx = w.liveRanges idx := by
  rw [RangeView.pieces, RangeView.live, flying_eq_sum, liveRanges]
  simp [Inner.rangeView]

end World

namespace Inv

variable {w : World}

/-- The holders of a byte, by what they hold it for. -/
theorem holders_eq (inv : Inv w) (idx byte : Nat) :
    (w.sched.rangeView w.history).holders idx byte =
      w.queuedAt idx byte + w.unclaimedAt idx byte + w.claimedAt idx byte := by
  have flights : ∀ handles : List Nat, (∀ handle ∈ handles, handle ∈ w.sched.inflight) →
      (handles.map fun handle => (Span.between (w.history.starts handle)
        (w.sched.cells handle).end_).count byte).sum =
      (handles.map fun handle => (w.sched.cells handle).unclaimed.count byte).sum +
        (handles.map fun handle => (Span.between (w.history.starts handle)
          (w.sched.cells handle).pos).count byte).sum := by
    intro handles
    induction handles with
    | nil => exact fun _ => rfl
    | cons handle rest ih =>
      intro all
      have cut := Span.count_between_add (inv.ranges.started (all handle mem_cons_self))
        (w.sched.cells handle).pos_le_end byte
      have tail := ih fun other mem => all other (mem_cons_of_mem _ mem)
      simp only [map_cons, sum_cons, RangeState.unclaimed] at tail ⊢
      simp only [Inner.rangeView] at cut
      omega
  rw [RangeView.holders, RangeView.live, World.flying_eq_sum,
    flights (w.inflightOf idx) fun handle mem => mem_of_mem_filter mem, ← Nat.add_assoc]
  rfl

/-- A permitted event never panics. -/
theorem step_isSome (inv : Inv w) {event : Event} (permitted : w.enabled event) :
    (w.step cfg event).isSome = true := by
  rcases @Inv.step w cfg inv event permitted with ⟨next, stepEq, -⟩
  rw [stepEq]
  rfl

end Inv

/-- Range conservation: in every run, each byte registered by the last
`ranges_ready` of a file is in exactly one of its queued ranges, the unclaimed or
claimed parts of its ranges in flight, the claimed parts of its completed ranges,
and the parts a `range_done` left unclaimed.  A range retried from its claim start
returns to the queue as a whole. -/
theorem ranges_conserved (cfg : Config) {events : List Event} {w : World}
    (run : (system cfg).exec .init events = some w) (idx : Nat) :
    (∀ byte, w.queuedAt idx byte + w.unclaimedAt idx byte + w.claimedAt idx byte +
        cover (w.history.completed idx) byte + cover (w.history.abandoned idx) byte =
      cover (w.history.registered idx) byte ∧ cover (w.history.registered idx) byte ≤ 1) ∧
    (∀ handle ∈ w.sched.inflight, w.history.starts handle < (w.sched.cells handle).end_ →
      ∃ next, w.step cfg (.retryRange handle) = some next ∧
        next.sched.ranges.file = Function.update w.sched.ranges.file (w.sched.cells handle).idx
          (insert (.between (w.history.starts handle) (w.sched.cells handle).end_)
            (w.sched.ranges.file (w.sched.cells handle).idx)) ∧
        next.sched.inflight = w.sched.inflight.filter (· ≠ handle)) := by
  have inv := Inv.of_run run
  refine ⟨fun byte => ⟨?_, inv.ranges.once idx byte⟩, fun handle flying unread => ?_⟩
  · rw [← inv.holders_eq]
    exact inv.ranges.conserved idx byte
  rcases inv.retryRange_unread flying unread with ⟨queue, stepEq, fileEq, -⟩
  exact ⟨_, stepEq, fileEq, rfl⟩

/-- Blocks of one byte and the least split the scheduler allows for them. -/
def byteBlocks : Config :=
  .new 1 1 Nat.one_pos

/-- One file of five bytes is pushed, probed and found to need all of them. -/
def copyOneFile : List Event :=
  [.pushFile 5 [], .endScan, .next false fun _ => 0, .rangesReady 0 [⟨0, 5⟩]]

theorem ranges_conserved_stolen :
    ∃ w, (system byteBlocks).exec .init
        (copyOneFile ++ [.advance 0 1, .next false fun _ => 1]) = some w ∧
      w.sched.inflight = [0, 1] ∧
      ∀ byte, w.queuedAt 0 byte + w.unclaimedAt 0 byte + w.claimedAt 0 byte +
          cover (w.history.completed 0) byte + cover (w.history.abandoned 0) byte =
        cover (w.history.registered 0) byte := by
  have runs : (((system byteBlocks).exec .init
      (copyOneFile ++ [.advance 0 1, .next false fun _ => 1])).map fun w => w.sched.inflight) =
        some [0, 1] := by
    decide +kernel
  rcases map_eq_some_iff.mp runs with ⟨w, run, inflight⟩
  exact ⟨w, run, inflight, fun byte => ((ranges_conserved byteBlocks run 0).1 byte).1⟩

/-- A `range_done` on a failed file drops the part that was never claimed. -/
theorem failed_range_done_drops_unclaimed :
    ((system byteBlocks).exec .init (copyOneFile ++ [.failFile 0, .rangeDone 0])).map
        (fun w => (w.queuedAt 0 0 + w.unclaimedAt 0 0 + w.claimedAt 0 0 +
          cover (w.history.completed 0) 0, cover (w.history.registered 0) 0)) =
      some (0, 1) := by
  decide +kernel

/-! ## Completions -/

/-- One completion per file: in every run, the outstanding count of a file is the
number of its queued ranges and ranges in flight, absent when there are none, and no
permitted call panics.  After a `ranges_ready` with ranges, a file is closed exactly
once, when its last range is retired: with one completion event, or in silence if it
failed or the copy was aborted. -/
theorem one_completion_per_file (cfg : Config) {events : List Event} {w : World}
    (run : (system cfg).exec .init events = some w) (idx : Nat) :
    (w.sched.outstanding idx = if w.liveRanges idx = 0 then none else some (w.liveRanges idx)) ∧
    (∀ event, w.enabled event → (w.step cfg event).isSome = true) ∧
    (w.history.completions idx + w.history.silenced idx + (if w.liveRanges idx = 0 then 0 else 1) =
        if w.history.registered idx = [] then 0 else 1) ∧
    (w.history.silenced idx ≠ 0 → w.sched.abort = true ∨ idx ∈ w.sched.failed) := by
  have inv := Inv.of_run run
  have outstanding := inv.ranges.outstanding idx
  have closed := inv.ranges.closed idx
  rw [w.pieces_eq_liveRanges] at outstanding closed
  exact ⟨outstanding, fun _ permitted => inv.step_isSome permitted, closed, inv.silenced idx⟩

theorem one_completion_per_file_copied :
    ∃ w, (system byteBlocks).exec .init (copyOneFile ++ [.advance 0 5, .rangeDone 0]) = some w ∧
      w.history.completions 0 = 1 ∧ w.sched.outstanding 0 = none := by
  have runs : (((system byteBlocks).exec .init
      (copyOneFile ++ [.advance 0 5, .rangeDone 0])).map fun w =>
        (w.liveRanges 0, w.history.silenced 0, w.history.registered 0)) =
      some (0, 0, [⟨0, 5⟩]) := by
    decide +kernel
  rcases map_eq_some_iff.mp runs with ⟨w, run, facts⟩
  obtain ⟨live, silenced, registered⟩ : w.liveRanges 0 = 0 ∧ w.history.silenced 0 = 0 ∧
      w.history.registered 0 = [⟨0, 5⟩] := by
    simpa using facts
  rcases one_completion_per_file byteBlocks run 0 with ⟨outstanding, -, closed, -⟩
  rw [live, silenced, registered] at closed
  rw [live] at outstanding
  exact ⟨w, run, by simpa using closed, by simpa using outstanding⟩

/-- The last range of a failed file is retired without any completion event. -/
theorem failed_file_never_completes :
    ((system byteBlocks).exec .init (copyOneFile ++ [.advance 0 5, .failFile 0, .rangeDone 0])).map
        (fun w => (w.history.registered 0, w.liveRanges 0, w.history.completions 0,
          w.sched.finishes)) =
      some ([⟨0, 5⟩], 0, 0, []) := by
  decide +kernel

/-! ## Jobs -/

/-- A job that was let go is queued again, or its publication is. -/
def Event.late : Event → Bool
  | .requeueLate _ _ | .requeueFinishLate _ _ => true
  | _ => false

/-- The runs in which a job that was let go is never queued again. -/
def onTime (cfg : Config) : System World Event :=
  (system cfg).restrict fun _ event => event.late = false

namespace World

/-- One if a job was let go for its publication or is done with. -/
def letGoOf (w : World) (idx : Nat) : Nat :=
  w.publishing.count idx + w.retired.count idx

/-- Without a late event no job comes back. -/
theorem letGoOf_le {w next : World} {event : Event} (onTime : event.late = false)
    (stepEq : w.step cfg event = some next) (idx : Nat) : w.letGoOf idx ≤ next.letGoOf idx := by
  cases event with
  | requeueLate | requeueFinishLate => cases onTime
  | reserveInitialRanges | releasePreflightedWork | endScan | abortCopy | failFile
  | requeueFinishHeldProbe | advance | updateRangeSplit | requeueFinishHeldFinish
  | finishFastGroups =>
    obtain rfl := some.inj stepEq
    exact Nat.le_refl _
  | pushFile | takeSmallNear | returnUnstartedFile | returnUnstartedRange
  | returnUnstartedFinish | requeueProbed | requeueHeldProbe | endStaleProbe | releaseRest
  | requeueHeldFinish | endStaleFinish =>
    rcases map_eq_some_iff.mp stepEq with ⟨_, -, rfl⟩
    exact Nat.le_refl _
  | next woken seen =>
    rcases map_eq_some_iff.mp stepEq with ⟨⟨turn, after⟩, nextEq, rfl⟩
    rcases bind_eq_some_iff.mp nextEq with ⟨sched, -, turnEq⟩
    rcases bind_eq_some_iff.mp turnEq with ⟨⟨_, _⟩, -, takeEq⟩
    cases takeEq
    cases turn <;> rfl
  | finishDone =>
    rcases map_eq_some_iff.mp stepEq with ⟨_, -, rfl⟩
    exact Nat.add_le_add_left (Multiset.count_le_count_cons _ _ _) _
  | published going =>
    obtain rfl := some.inj stepEq
    by_cases same : idx = going
    · subst same
      simp only [letGoOf, Multiset.count_cons_self, Multiset.count_erase_self]
      omega
    · simp only [letGoOf, Multiset.count_cons_of_ne same, Multiset.count_erase_of_ne same,
        Nat.le_refl]
  | rangesReady file ranges =>
    rcases bind_eq_some_iff.mp stepEq with ⟨⟨first, sched⟩, -, pureEq⟩
    cases first with
    | none =>
      obtain rfl := some.inj pureEq
      exact Nat.add_le_add_right (Multiset.count_le_count_cons _ _ _) _
    | some handle =>
      obtain rfl := some.inj pureEq
      exact Nat.le_refl _
  | rangeWork file maxSize =>
    rcases bind_eq_some_iff.mp stepEq with ⟨⟨work, sched⟩, -, pureEq⟩
    rcases work with _ | _ | handle <;>
      obtain rfl := some.inj pureEq <;> exact Nat.le_refl _
  | rangeDone handle =>
    rcases bind_eq_some_iff.mp stepEq with ⟨⟨done, sched⟩, -, pureEq⟩
    obtain rfl := some.inj pureEq
    split
    · exact Nat.add_le_add_right (Multiset.count_le_count_cons _ _ _) _
    · split
      · exact Nat.le_refl _
      · exact Nat.add_le_add_left (Multiset.count_le_count_cons _ _ _) _
  | retryRange handle =>
    rcases bind_eq_some_iff.mp stepEq with ⟨sched, -, pureEq⟩
    obtain rfl := some.inj pureEq
    split <;> exact Nat.le_refl _
  | beginFastBatch | markFast | shareFastGroups | claimFast | requeueBatched =>
    rcases bind_eq_some_iff.mp stepEq with ⟨_, -, pureEq⟩
    obtain rfl := some.inj pureEq
    exact Nat.le_refl _
  | completeFastBatch batch =>
    rcases bind_eq_some_iff.mp stepEq with ⟨_, -, pureEq⟩
    obtain rfl := some.inj pureEq
    exact Nat.add_le_add_left (Multiset.count_le_of_le _ (Multiset.le_add_right _ _)) _

end World

namespace Inv

variable {w : World}

/-- A pushed job is in one place or was let go, once. -/
theorem job_total (inv : Inv w) (idx : Nat) :
    w.places idx + w.letGoOf idx = if idx < w.sched.jobs then 1 else 0 := by
  rw [World.letGoOf, ← Nat.add_assoc]
  exact inv.places idx

/-- When the scheduler finds itself finished, no job is anywhere. -/
theorem places_of_finished (inv : Inv w) (finished : w.sched.finished = true) (idx : Nat) :
    w.sched.scanDone = true ∧ w.places idx = 0 := by
  simp only [Inner.finished, Bool.and_eq_true, beq_iff_eq, List.isEmpty_iff] at finished
  rcases finished with ⟨⟨⟨⟨⟨⟨scanned, probing⟩, finishing⟩, inflight⟩, files⟩, ranges⟩, finishes⟩
  refine ⟨scanned, ?_⟩
  have noProbes := inv.probing
  have noFinishing := inv.finishing
  have probes : w.probes = 0 := Multiset.card_eq_zero.mp (by omega)
  have claimed : w.finishing = 0 := Multiset.card_eq_zero.mp (by omega)
  have slots : w.slots = 0 := by omega
  have jobs := inv.files.isEmpty_iff.mp files
  have batched : w.batched idx = 0 := by
    refine Finset.sum_eq_zero fun batch mem => ?_
    have none := Finset.sum_eq_zero_iff.mp slots batch mem
    exact absurd none (Nat.ne_of_gt (inv.batches.each mem).slots)
  have empty := inv.ranges.queue.len_eq_zero_iff.mp (beq_iff_eq.mp ranges) idx
  have noRanges : w.liveRanges idx = 0 := by
    change w.sched.ranges.file idx = ∅ at empty
    simp [World.liveRanges, World.inflightOf, inflight, empty]
  have outstanding := inv.ranges.outstanding idx
  rw [w.pieces_eq_liveRanges, if_pos noRanges] at outstanding
  change w.sched.outstanding idx = none at outstanding
  simp [World.places, World.ranged, Inner.queuedFinishes, jobs, probes, batched, outstanding,
    finishes, claimed]

end Inv

/-- The runs without late events are runs. -/
theorem exec_of_onTime {source target : World}
    (run : (onTime cfg).exec source events = some target) :
    (system cfg).exec source events = some target :=
  (system cfg).exec_of_restrict run

/-- A job that was let go stays away for the rest of a run without late events. -/
theorem letGo_for_good {source target : World} (run : (onTime cfg).exec source events = some target)
    (idx : Nat) : source.letGoOf idx ≤ target.letGoOf idx := by
  refine @System.exec_invariant _ _ (onTime cfg) (fun w => source.letGoOf idx ≤ w.letGoOf idx)
    ?_ _ _ _ (Nat.le_refl _) run
  intro state event next kept permitted stepEq
  exact Nat.le_trans kept (World.letGoOf_le permitted.2 stepEq idx)

/-- Sound termination: in every run in which a job that was let go is never queued
again, each pushed job is in exactly one place until it is let go, and then it is let
go for good.  No permitted call panics, so no counter underflows.  Unless the copy
was aborted, `next` tells a worker to leave only after the scan ended and every
pushed job was let go. -/
theorem sound_termination (cfg : Config) {events : List Event} {w : World}
    (run : (onTime cfg).exec .init events = some w) :
    (∀ idx < w.sched.jobs, w.places idx + w.letGoOf idx = 1) ∧
    (∀ later target, (onTime cfg).exec w later = some target → ∀ idx,
      w.letGoOf idx = 1 → target.places idx = 0 ∧ target.letGoOf idx = 1) ∧
    (∀ event, w.enabled event → (w.step cfg event).isSome = true) ∧
    (∀ woken seen after, w.enabled (.next woken seen) →
      w.next cfg woken seen = some (.exit, after) → w.sched.abort = false →
        w.sched.scanDone = true ∧
          ∀ idx < w.sched.jobs, w.places idx = 0 ∧ w.letGoOf idx = 1) := by
  have inv := Inv.of_run (exec_of_onTime run)
  refine ⟨fun idx pushed => ?_, ?_, fun _ permitted => inv.step_isSome permitted, ?_⟩
  · rw [inv.job_total, if_pos pushed]
  · intro later target tail idx gone
    have kept := letGo_for_good tail idx
    have whole : (onTime cfg).exec .init (events ++ later) = some target := by
      rw [System.exec_append, run]
      exact tail
    have total := (Inv.of_run (exec_of_onTime whole)).job_total idx
    split at total <;> omega
  · intro woken seen after permitted nextEq running
    rcases @Inv.next_spec w cfg inv woken seen permitted.1 with
      ⟨turn, other, turnEq, -, leaves, -⟩
    have same := turnEq.symm.trans nextEq
    simp only [some.injEq, Prod.mk.injEq] at same
    rcases leaves same.1 with aborted | finished
    · rw [running] at aborted
      cases aborted
    · refine ⟨(inv.places_of_finished finished 0).1, fun idx pushed => ?_⟩
      have total := inv.job_total idx
      have nowhere := (inv.places_of_finished finished idx).2
      rw [if_pos pushed] at total
      omega

/-- The run that copies one file, up to the end of its last range. -/
def copyToLastRange : List Event :=
  copyOneFile ++ [.advance 0 5, .rangeDone 0]

theorem sound_termination_copied :
    ∃ w, (onTime byteBlocks).exec .init copyToLastRange = some w ∧
      w.sched.jobs = 1 ∧ w.places 0 + w.letGoOf 0 = 1 ∧
      ∃ after, w.next byteBlocks false (fun _ => 0) = some (.exit, after) ∧ w.letGoOf 0 = 1 := by
  have runs : (((onTime byteBlocks).exec .init copyToLastRange).map fun w =>
      (w.sched.jobs, w.sched.abort, w.sched.inflight,
        (w.next byteBlocks false fun _ => 0).map Prod.fst)) =
      some (1, false, [], some .exit) := by
    decide +kernel
  rcases map_eq_some_iff.mp runs with ⟨w, run, facts⟩
  simp only [Prod.mk.injEq] at facts
  rcases facts with ⟨jobs, running, inflight, leaves⟩
  rcases map_eq_some_iff.mp leaves with ⟨⟨turn, after⟩, nextEq, rfl⟩
  rcases sound_termination byteBlocks run with ⟨places, -, -, exits⟩
  have permitted : w.enabled (.next false fun _ => 0) := by
    simp [World.enabled, inflight]
  have gone := (exits false _ after permitted nextEq running).2 0 (by omega)
  exact ⟨w, run, jobs, places 0 (by omega), after, nextEq, gone.2⟩

/-- A publication queued again after the last range was retired: a worker has been
told to leave in between, with the job in no place, and then the job is back. -/
theorem late_publication_after_exit :
    ((system byteBlocks).exec .init copyToLastRange).map
        (fun w => (w.sched.abort, w.places 0, (w.next byteBlocks false fun _ => 0).map Prod.fst)) =
      some (false, 0, some .exit) ∧
    ((system byteBlocks).exec .init
        (copyToLastRange ++ [.next false fun _ => 0, .requeueFinishLate 0 false])).map
        (fun w => w.places 0) = some 1 := by
  decide +kernel

/-! ## Fast batches -/

/-- Fast batches are shared once: in every run, each file of a batch that was shared
and is not yet completed is in exactly one of the owner's claims, the stolen groups
and the groups nobody took, and is owned unless its group was stolen.  Claims are
nonempty and disjoint from each other and from stolen groups, and the groups nobody
took carry their exact sizes.  A stolen group leaves its batch at once: one file is
probed and the others are queued by the stealer.  No permitted call panics. -/
theorem fast_batches_shared_once (cfg : Config) {events : List Event} {w : World}
    (run : (system cfg).exec .init events = some w) :
    (∀ batch ∈ w.live, (w.batches batch).phase ≠ .collecting →
      (∀ position < (w.sched.batches batch).files.length,
        cover (w.claims batch) position + cover (w.stolen batch) position +
            cover ((w.sched.batches batch).groups.map FastGroup.files) position = 1 ∧
          (w.sched.batches batch).owned[position]? =
            some (decide (cover (w.stolen batch) position = 0))) ∧
      (∀ span ∈ w.claims batch, 0 < span.len) ∧
      (w.claims batch ++ w.stolen batch).Pairwise Span.Disjoint ∧
      ∀ group ∈ (w.sched.batches batch).groups,
        group.bytes = sizeSum (w.sched.batches batch).files group.files) ∧
    (∀ woken seen idx batch group after, w.enabled (.next woken seen) →
      w.next cfg woken seen = some (.stolenFile idx batch group, after) →
        ∃ siblings, Stolen w after idx batch group siblings) ∧
    (∀ event, w.enabled event → (w.step cfg event).isSome = true) := by
  have inv := Inv.of_run run
  refine ⟨fun batch alive phase => ?_, ?_, fun _ permitted => inv.step_isSome permitted⟩
  · have shared := ((inv.batches.each alive).shared phase).1
    refine ⟨fun position inside => ⟨?_, shared.owned position inside⟩, shared.claimed, ?_,
      shared.bytes⟩
    · rw [shared.partition]
      exact Span.count_of_mem (Nat.zero_le _) (by simpa [Span.between, Span.stop] using inside)
    · refine disjoint_of_cover_le_one (fun position => ?_) fun span mem =>
        (mem_append.mp mem).elim (shared.claimed span) (shared.taken span)
      have total := shared.partition position
      have atMost :=
        Span.count_le_one (Span.between 0 (w.sched.batches batch).files.length) position
      rw [cover_append]
      omega
  · intro woken seen idx batch group after permitted nextEq
    rcases @Inv.next_spec w cfg inv woken seen permitted.1 with
      ⟨turn, other, turnEq, -, -, stolen⟩
    have same := turnEq.symm.trans nextEq
    rcases same with ⟨rfl, rfl⟩
    exact stolen idx batch group rfl

/-- Two files of one byte are put in one batch and shared as two groups. -/
def shareTwoFiles : List Event :=
  [.pushFile 1 [], .pushFile 1 [], .endScan, .next false fun _ => 0, .takeSmallNear 0 8 8 8,
    .beginFastBatch 0 1 8, .markFast 0 [1], .shareFastGroups 0 [(1, 0), (1, 1)] [⟨0, 1⟩, ⟨1, 1⟩]]

theorem fast_batches_shared_once_stolen :
    ∃ w, (system byteBlocks).exec .init (shareTwoFiles ++ [.next false fun _ => 0]) = some w ∧
      w.stolen 0 = [⟨1, 1⟩] ∧ (w.claims 0 ++ w.stolen 0).Pairwise Span.Disjoint := by
  have runs : (((system byteBlocks).exec .init
      (shareTwoFiles ++ [.next false fun _ => 0])).map fun w =>
        (w.stolen 0, decide (0 ∈ w.live), decide ((w.batches 0).phase = .sharing))) =
      some ([⟨1, 1⟩], true, true) := by
    decide +kernel
  rcases map_eq_some_iff.mp runs with ⟨w, run, facts⟩
  simp only [Prod.mk.injEq, decide_eq_true_eq] at facts
  rcases facts with ⟨stolen, alive, sharing⟩
  have shared := (fast_batches_shared_once byteBlocks run).1 0 alive (by simp [sharing])
  exact ⟨w, run, stolen, shared.2.2.1⟩

/-- A file in a group nobody took before `finish_fast_groups` is in no claim and in
no stolen group; the owner keeps it. -/
theorem unread_group_stays_owned :
    ((system byteBlocks).exec .init (shareTwoFiles ++ [.finishFastGroups 0])).map
        (fun w => (cover (w.claims 0) 1 + cover (w.stolen 0) 1,
          (w.sched.batches 0).owned[1]?, (w.batches 0).held)) =
      some (0, some true, {0, 1}) := by
  decide +kernel

/-! ## Waiting -/

/-- The calls with which a worker gives back what it holds. -/
def Event.givesBack : Event → Bool
  | .rangesReady _ _ | .endStaleProbe _ | .rangeDone _ | .finishDone _ | .endStaleFinish
  | .finishFastGroups _ | .completeFastBatch _ => true
  | _ => false

namespace Inv

variable {w : World}

/-- Where no worker may give anything back, none holds anything. -/
theorem nothing_held (inv : Inv w)
    (stuck : ∀ event : Event, event.givesBack = true → ¬ w.enabled event) :
    w.sched.probing = 0 ∧ w.sched.finishing = 0 ∧ w.sched.inflight = [] := by
  have probes : w.probes = 0 := Multiset.eq_zero_of_forall_notMem fun idx mem =>
    stuck (.rangesReady idx []) rfl ⟨mem, by simp [ValidRanges]⟩
  have claimed : w.finishing = 0 := Multiset.eq_zero_of_forall_notMem fun idx =>
    stuck (.finishDone idx) rfl
  have flying : w.sched.inflight = [] := eq_nil_iff_forall_not_mem.mpr fun handle =>
    stuck (.rangeDone handle) rfl
  have stale : ¬ 0 < w.staleProbes := stuck (.endStaleProbe 0) rfl
  have staleClaimed : ¬ 0 < w.staleFinishing := stuck .endStaleFinish rfl
  have live : w.live = ∅ := by
    refine Finset.eq_empty_of_forall_notMem fun batch alive => ?_
    by_cases sharing : (w.batches batch).phase = .sharing
    · exact stuck (.finishFastGroups batch) rfl ⟨alive, sharing⟩
    · exact stuck (.completeFastBatch batch) rfl ⟨alive, sharing⟩
  have probing := inv.probing
  have finishing := inv.finishing
  rw [probes, World.slots, live, Finset.sum_empty, Multiset.card_zero] at probing
  rw [claimed, Multiset.card_zero] at finishing
  exact ⟨by omega, by omega, flying⟩

/-- A turn that waits while work is handed out has found the queues empty and work going on. -/
theorem nextTurn_wait (inv : Inv w) {seen : Nat → Nat} {sched : Inner}
    (handedOut : (w.sched.scanDone || w.sched.workReleased) = true)
    (waits : w.sched.nextTurn cfg seen = some (.wait, sched)) :
    (∀ idx, w.sched.ranges.file idx = ∅) ∧ w.sched.finishes = [] ∧ w.sched.files.jobs = 0 ∧
      w.sched.finished = false ∧
      sched = { w.sched with waitingWorkers := w.sched.waitingWorkers + 1 } := by
  cases going : w.sched.abort with
  | true => simp [Inner.nextTurn, going] at waits
  | false =>
  simp only [Inner.nextTurn, Inner.searchWork, going, handedOut, Bool.false_eq_true, if_false,
    if_true, Inner.findWork] at waits
  rcases inv.ranges.queue.pop with ⟨range, queue, popEq, -, empty⟩
  change w.sched.ranges.pop = _ at popEq
  cases range with
  | some found => simp [popEq] at waits
  | none =>
  cases finishesEq : w.sched.finishes with
  | cons finish rest => simp [popEq, finishesEq] at waits
  | nil =>
  rcases inv.files.pop with ⟨filesEq, jobs⟩ | ⟨key, files, filesEq, -⟩
  · cases stealEq : w.sched.steal cfg seen with
    | some stolen => simp [popEq, finishesEq, filesEq, stealEq] at waits
    | none =>
      rcases inv.stealFastGroup with groupEq | ⟨idx, batch, group, next, groupEq, -⟩
      · cases done : w.sched.finished with
        | true => simp [popEq, finishesEq, filesEq, stealEq, groupEq, done] at waits
        | false =>
          simp [popEq, finishesEq, filesEq, stealEq, groupEq, done] at waits
          exact ⟨empty rfl, rfl, jobs, rfl, by rw [← waits, ← finishesEq]⟩
      · simp [popEq, finishesEq, filesEq, stealEq, groupEq] at waits
  · simp [popEq, finishesEq, filesEq] at waits

end Inv

/-- No worker waits in vain: when `next` tells a worker to wait although work is handed out,
nothing is queued; and once the scan has ended, some worker holds work that it may give back. -/
theorem no_worker_waits_in_vain (cfg : Config) {events : List Event} {w after : World}
    (run : (system cfg).exec .init events = some w) {woken : Bool} {seen : Nat → Nat}
    (waits : w.next cfg woken seen = some (.wait, after))
    (handedOut : (w.sched.scanDone || w.sched.workReleased) = true) :
    (∀ idx, after.sched.ranges.file idx = ∅) ∧ after.sched.finishes = [] ∧
      after.sched.files.jobs = 0 ∧
      (w.sched.scanDone = true → ∃ event : Event, event.givesBack = true ∧
        after.enabled event ∧ (after.step cfg event).isSome = true) := by
  simp only [World.next, bind_eq_bind, bind_eq_some_iff, Prod.exists] at waits
  rcases waits with ⟨woke, wokeEq, turn, sched, turnEq, taken⟩
  cases taken
  have awake : ∃ waiting, woke = { w.sched with waitingWorkers := waiting } := by
    unfold Inner.wake at wokeEq
    split_ifs at wokeEq
    · rcases map_eq_some_iff.mp wokeEq with ⟨waiting, -, rfl⟩
      exact ⟨waiting, rfl⟩
    · cases wokeEq
      exact ⟨_, rfl⟩
  rcases awake with ⟨waiting, wokeIs⟩
  have inv : Inv { w with sched := woke } := by
    rw [wokeIs]
    exact { Inv.of_run run with }
  rcases inv.nextTurn_wait (by rw [wokeIs]; exact handedOut) turnEq with
    ⟨ranges, finishes, jobs, busy, rfl⟩
  refine ⟨ranges, finishes, jobs, fun scanned => ?_⟩
  have last : Inv (w.take .wait { woke with waitingWorkers := woke.waitingWorkers + 1 }) :=
    { inv with }
  by_contra stuck
  rcases last.nothing_held fun event gives permitted =>
    stuck ⟨event, gives, permitted, last.step_isSome permitted⟩ with ⟨probing, finishing, flying⟩
  have noFiles : woke.files.isEmpty = true := inv.files.isEmpty_iff.mpr jobs
  have noRanges : woke.ranges.len = 0 := inv.ranges.queue.len_eq_zero_iff.mpr ranges
  have done : woke.scanDone = true := by rw [wokeIs]; exact scanned
  dsimp only [World.take] at probing finishing flying finishes busy
  simp [Inner.finished, RangeQueue.isEmpty, done, probing, finishing, flying, noFiles, noRanges,
    finishes] at busy

/-- A second worker waits while the first one probes the only file. -/
theorem no_worker_waits_in_vain_beside_a_probe :
    ∃ w after, (system byteBlocks).exec .init
        [.pushFile 5 [], .endScan, .next false fun _ => 0] = some w ∧
      w.next byteBlocks false (fun _ => 0) = some (.wait, after) ∧
      ∃ event : Event, event.givesBack = true ∧ after.enabled event := by
  have runs : (((system byteBlocks).exec .init
      [.pushFile 5 [], .endScan, .next false fun _ => 0]).map fun w =>
        (w.sched.scanDone, (w.next byteBlocks false fun _ => 0).map Prod.fst)) =
      some (true, some .wait) := by
    decide +kernel
  rcases map_eq_some_iff.mp runs with ⟨w, run, facts⟩
  rw [Prod.mk.injEq] at facts
  rcases map_eq_some_iff.mp facts.2 with ⟨⟨turn, after⟩, waits, rfl⟩
  rcases (no_worker_waits_in_vain byteBlocks run waits (by simp [facts.1])).2.2.2 facts.1 with
    ⟨event, gives, permitted, -⟩
  exact ⟨w, after, run, waits, event, gives, permitted⟩

end Syq.Sched
