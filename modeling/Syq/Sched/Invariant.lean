import Syq.Sched.Workers

/-!
# The invariant of the scheduler and its workers

Every pushed job is in one place: a queue of the scheduler, the hands of a worker,
or done with.  The counters of the scheduler count what the workers hold, the
range accounts balance, and every shared batch is divided between its owner and
the stealers.  The main result is that each permitted event succeeds and keeps the
invariant, so that no run panics.
-/

namespace Syq.Sched

open Syq.Lib RangeHistory Multiset World

/-- The files whose publication is queued. -/
def Inner.queuedFinishes (s : Inner) : Multiset Nat :=
  (s.finishes.map Prod.fst : List Nat)

namespace World

/-- How many live fast batches answer for a file. -/
def batched (w : World) (idx : Nat) : Nat :=
  ∑ batch ∈ w.live, (w.batches batch).held.count idx

/-- One if a file has ranges queued or in flight. -/
def ranged (w : World) (idx : Nat) : Nat :=
  if (w.sched.outstanding idx).isSome then 1 else 0

/-- In how many places a job is: the file queue, a probe, a fast batch, ranges
queued or in flight, a queued or a claimed publication. -/
def places (w : World) (idx : Nat) : Nat :=
  w.sched.files.jobs.count idx + w.probes.count idx + w.batched idx + w.ranged idx +
    w.sched.queuedFinishes.count idx + w.finishing.count idx

theorem places_def (w : World) (idx : Nat) :
    w.places idx = w.sched.files.jobs.count idx + w.probes.count idx +
      ∑ batch ∈ w.live, (w.batches batch).held.count idx +
      (if (w.sched.outstanding idx).isSome then 1 else 0) +
      ((w.sched.finishes.map Prod.fst : List Nat) : Multiset Nat).count idx +
      w.finishing.count idx :=
  rfl

/-- The probe slots of the live fast batches. -/
def slots (w : World) : Nat :=
  ∑ batch ∈ w.live, (w.batches batch).slots

end World

/-- One fast batch: it answers for at most its slots, and once shared it is divided
between claims, stolen groups and unread groups. -/
structure Batch.Wf (record : Batch) (state : FastBatchState) (claims stolen : List Span) :
    Prop where
  held : record.held.card ≤ record.slots
  slots : 0 < record.slots
  shared : record.phase ≠ .collecting → state.Shared claims stolen ∧ claims ≠ []
  owned : record.phase = .sharing →
    record.held = (FastBatchState.ownedFiles state.files state.owned : Multiset Nat) ∧
      record.slots = record.held.card

/-- The fast batches: every live one is well formed, and those offered to other
workers are being shared. -/
structure BatchAccounts (fastGroups : List Nat) (states : Nat → FastBatchState)
    (batches : Nat → Batch) (live : Finset Nat) (nextBatch : Nat)
    (claims stolen : Nat → List Span) : Prop where
  below : ∀ {batch}, batch ∈ live → batch < nextBatch
  offered : ∀ {batch}, batch ∈ fastGroups → batch ∈ live ∧ (batches batch).phase = .sharing
  each : ∀ {batch}, batch ∈ live →
    (batches batch).Wf (states batch) (claims batch) (stolen batch)

/-- What holds of the scheduler and its workers at all times. -/
structure Inv (w : World) : Prop where
  files : w.sched.files.Wf
  registered : w.sched.files.groupOf.length = w.sched.jobs
  bounded : w.sched.jobs ≤ 2 ^ 64
  ranges : (w.sched.rangeView w.history).Accounts
  batches : BatchAccounts w.sched.fastGroups w.sched.batches w.batches w.live w.nextBatch
    w.claims w.stolen
  probing : w.sched.probing = w.probes.card + w.staleProbes + w.slots
  fastProbing : w.sched.fastProbing = w.slots
  fastBatches : w.sched.fastBatches = w.live.card
  finishing : w.sched.finishing = w.finishing.card + w.staleFinishing
  silenced : ∀ idx, w.history.silenced idx ≠ 0 → w.sched.abort = true ∨ idx ∈ w.sched.failed
  places : ∀ idx, w.places idx + w.publishing.count idx + w.retired.count idx =
    if idx < w.sched.jobs then 1 else 0

theorem inv_init : Inv .init where
  files := FileQueue.wf_empty
  registered := rfl
  bounded := by decide
  ranges := {
    queue := RangeQueue.wf_empty
    nonempty := fun mem => by
      simp [Inner.rangeView, World.init, Inner.new, RangeQueue.empty, RangeQueue.file,
        RangeQueue.fileRanges] at mem
    nodup := List.nodup_nil
    below := fun mem => absurd mem List.not_mem_nil
    started := fun mem => absurd mem List.not_mem_nil
    outstanding := fun _ => rfl
    conserved := fun _ _ => rfl
    once := fun _ _ => Nat.zero_le 1
    closed := fun _ => rfl }
  batches := by
    constructor <;> intro batch mem <;> simp [init, Inner.new] at mem
  probing := rfl
  fastProbing := rfl
  fastBatches := rfl
  finishing := rfl
  silenced _ counted := absurd rfl counted
  places _ := rfl

namespace Inv

variable {w : World} {cfg : Config} {idx handle : Nat}

/-- An event succeeds and keeps the invariant. -/
def Safe (cfg : Config) (w : World) (event : Event) : Prop :=
  ∃ next, w.step cfg event = some next ∧ Inv next

section

variable (inv : Inv w)

include inv

/-- A job that is anywhere has been pushed. -/
theorem known (somewhere : 0 < w.places idx + w.publishing.count idx + w.retired.count idx) :
    idx < w.sched.jobs := by
  have total := inv.places idx
  by_contra unknown
  rw [if_neg unknown] at total
  omega

theorem known_held {batch : Nat} (alive : batch ∈ w.live) (mem : idx ∈ (w.batches batch).held) :
    idx < w.sched.jobs := by
  have count := count_pos.mpr mem
  have single := Finset.single_le_sum (f := fun which => (w.batches which).held.count idx)
    (fun _ _ => Nat.zero_le _) alive
  exact inv.known (by simp only [World.places, World.batched]; omega)

/-- A pushed job can be queued again. -/
theorem push_known (pushed : idx < w.sched.jobs) (size : Nat) :
    ∃ files, w.sched.files.push (.of size idx) = some files ∧ files.Wf ∧
      files.jobs = idx ::ₘ w.sched.files.jobs ∧ files.groupOf.length = w.sched.jobs := by
  have fits : idx < 2 ^ 64 := Nat.lt_of_lt_of_le pushed inv.bounded
  have index := FileKey.index_of size fits
  rcases inv.files.push (.of size idx) (by rw [index, inv.registered]; exact pushed) with
    ⟨files, pushEq, wf, jobs, groupOf⟩
  rw [index] at jobs
  exact ⟨files, pushEq, wf, jobs, by rw [groupOf, inv.registered]⟩

/-! ## Planning and control -/

theorem pushFile (size : Nat) (dest : PathBytes) (room : w.sched.jobs < 2 ^ 64) :
    Safe cfg w (.pushFile size dest) := by
  rcases inv.files.register w.sched.jobs dest with ⟨wf, jobs, length⟩
  have index := FileKey.index_of size room
  rw [inv.registered, Nat.max_eq_right (Nat.le_succ _)] at length
  rcases wf.push (.of size w.sched.jobs) (by rw [index, length]; exact Nat.lt_succ_self _)
    with ⟨files, pushEq, filesWf, filesJobs, groupOf⟩
  refine ⟨{ w with sched := { w.sched with jobs := w.sched.jobs + 1, files } },
    by simp [step, Inner.pushFile, pushEq],
    { inv with
      files := filesWf
      registered := by rw [groupOf]; exact length
      bounded := room
      places := fun other => ?_ }⟩
  have before := inv.places other
  simp only [places_def, filesJobs, count_cons] at before ⊢
  grind

/-- Control calls touch nothing the invariant speaks about. -/
theorem control {event : Event} (kind : (∃ workers, event = .reserveInitialRanges workers) ∨
      event = .releasePreflightedWork ∨ event = .endScan ∨ event = .abortCopy ∨
      ∃ idx, event = .failFile idx) : Safe cfg w event := by
  rcases kind with ⟨workers, rfl⟩ | rfl | rfl | rfl | ⟨idx, rfl⟩
  · exact ⟨_, rfl, { inv with }⟩
  · exact ⟨_, rfl, { inv with }⟩
  · exact ⟨_, rfl, { inv with }⟩
  · exact ⟨_, rfl, { inv with silenced := fun _ _ => .inl rfl }⟩
  · exact ⟨_, rfl, { inv with
      silenced := fun other counted =>
        (inv.silenced other counted).imp_right (Finset.mem_insert_of_mem) }⟩

/-! ## Files -/

theorem takeSmallNear {first : Nat} (known : first < w.sched.jobs) (maxSize maxN maxBytes : Nat) :
    Safe cfg w (.takeSmallNear first maxSize maxN maxBytes) := by
  rcases inv.files.takeSmallGroup
    (fun idx same => by rw [inv.registered]; exact Option.some.inj same ▸ known)
    maxSize maxN maxBytes with ⟨out, files, takeEq, wf, jobs, groupOf⟩
  refine ⟨{ w with
      sched := { w.sched with files, probing := w.sched.probing + out.length }
      probes := w.probes + out },
    by simp [step, Inner.takeSmallNear, takeEq],
    { inv with
      files := wf
      registered := by rw [groupOf]; exact inv.registered
      probing := ?_
      places := fun other => ?_ }⟩
  · have before := inv.probing
    simp only [slots, card_add, coe_card] at before ⊢
    omega
  · have before := inv.places other
    simp only [places_def, jobs, count_add] at before ⊢
    omega

/-! ## Letting go of a job and taking it back

A job that is put back goes through `retired`: its worker lets go of it, then it is queued. -/

theorem letProbe (probed : idx ∈ w.probes) :
    Inv { w with
      probes := w.probes.erase idx
      staleProbes := w.staleProbes + 1
      retired := idx ::ₘ w.retired } := by
  have card := card_erase_add_one probed
  refine { inv with probing := ?_, places := fun other => ?_ }
  · have probing := inv.probing
    simp only [slots] at probing ⊢
    omega
  · have before := inv.places other
    have count := count_erase_add probed other
    simp only [places_def, count_cons] at before ⊢
    omega

theorem letFinish (claimed : idx ∈ w.finishing) :
    Inv { w with
      finishing := w.finishing.erase idx
      staleFinishing := w.staleFinishing + 1
      retired := idx ::ₘ w.retired } := by
  have card := card_erase_add_one claimed
  refine { inv with finishing := ?_, places := fun other => ?_ }
  · have finishing := inv.finishing
    simp only
    omega
  · have before := inv.places other
    have count := count_erase_add claimed other
    simp only [places_def, count_cons] at before ⊢
    omega

theorem letPublishing (going : idx ∈ w.publishing) :
    Inv { w with publishing := w.publishing.erase idx, retired := idx ::ₘ w.retired } := by
  refine { inv with places := fun other => ?_ }
  have before := inv.places other
  have count := count_erase_add going other
  simp only [places_def, count_cons] at before ⊢
  omega

/-- A job that was let go is queued again. -/
theorem requeue (gone : idx ∈ w.retired) (size : Nat) :
    ∃ files, w.sched.files.push (.of size idx) = some files ∧
      Inv { w with sched := { w.sched with files }, retired := w.retired.erase idx } := by
  have positive := count_pos.mpr gone
  have known : idx < w.sched.jobs := inv.known (by omega)
  rcases inv.push_known known size with ⟨files, pushEq, wf, jobs, groupOf⟩
  refine ⟨files, pushEq, { inv with
    files := wf, registered := groupOf, places := fun other => ?_ }⟩
  have before := inv.places other
  have count := count_erase_add gone other
  simp only [places_def, jobs, count_cons] at before ⊢
  omega

/-- The publication of a job that was let go is queued. -/
theorem requeueFinish (gone : idx ∈ w.retired) (matched : Bool) :
    Inv { w with
      sched := { w.sched with finishes := (idx, matched) :: w.sched.finishes }
      retired := w.retired.erase idx } := by
  refine { inv with places := fun other => ?_ }
  have before := inv.places other
  have count := count_erase_add gone other
  simp only [places_def, List.map_cons, ← cons_coe, count_cons]
    at before ⊢
  omega

theorem endProbe (stale : 0 < w.staleProbes) :
    checkedSub w.sched.probing 1 = some (w.sched.probing - 1) ∧
      Inv { w with
        sched := { w.sched with probing := w.sched.probing - 1 }
        staleProbes := w.staleProbes - 1 } := by
  have probing := inv.probing
  refine ⟨checkedSub_eq_some_iff.mpr (by omega), { inv with probing := ?_ }⟩
  simp only [slots] at probing ⊢
  omega

theorem endFinish (stale : 0 < w.staleFinishing) :
    checkedSub w.sched.finishing 1 = some (w.sched.finishing - 1) ∧
      Inv { w with
        sched := { w.sched with finishing := w.sched.finishing - 1 }
        staleFinishing := w.staleFinishing - 1 } := by
  have finishing := inv.finishing
  refine ⟨checkedSub_eq_some_iff.mpr (by omega), { inv with finishing := ?_ }⟩
  simp only
  omega

variable (probed : idx ∈ w.probes)

include probed

theorem requeueHeldProbe (size : Nat) :
    Safe cfg w (.requeueHeldProbe idx size) := by
  rcases (inv.letProbe probed).requeue (mem_cons_self ..) size with ⟨files, pushEq, after⟩
  exact ⟨_, by simp [step, Inner.requeue, pushEq], after⟩

theorem requeueProbed (size : Nat) :
    Safe cfg w (.requeueProbed idx size) := by
  rcases (inv.letProbe probed).requeue (mem_cons_self ..) size with ⟨files, pushEq, held⟩
  rcases held.endProbe (Nat.succ_pos _) with ⟨sub, after⟩
  exact ⟨_, by simp [step, Inner.requeueProbed, sub, pushEq], after⟩

theorem returnUnstartedFile (size : Nat) :
    Safe cfg w (.returnUnstartedFile idx size) :=
  (inv.requeueProbed probed size : Safe cfg w (.requeueProbed idx size))

theorem requeueFinishHeldProbe (matched : Bool) :
    Safe cfg w (.requeueFinishHeldProbe idx matched) := by
  have after := (inv.letProbe probed).requeueFinish (mem_cons_self ..) matched
  exact ⟨_, by simp [step, Inner.requeueFinish], after⟩

omit probed

theorem endStaleProbe (stale : 0 < w.staleProbes) (idx : Nat) :
    Safe cfg w (.endStaleProbe idx) := by
  rcases inv.endProbe stale with ⟨sub, after⟩
  exact ⟨{ w with
      sched := { w.sched with probing := w.sched.probing - 1, initialRangeWorkers := 0 }
      staleProbes := w.staleProbes - 1 },
    by simp [step, Inner.rangesReady, sub, Inner.initialShares], { after with }⟩

variable (claimed : idx ∈ w.finishing)

include claimed

theorem finishDone : Safe cfg w (.finishDone idx) := by
  rcases (inv.letFinish claimed).endFinish (Nat.succ_pos _) with ⟨sub, after⟩
  exact ⟨_, by simp [step, Inner.finishDone, sub], after⟩

theorem returnUnstartedFinish (matched : Bool) :
    Safe cfg w (.returnUnstartedFinish idx matched) := by
  have held := (inv.letFinish claimed).requeueFinish (mem_cons_self ..) matched
  rcases held.endFinish (Nat.succ_pos _) with ⟨sub, after⟩
  refine ⟨_, ?_, after⟩
  simp [step, Inner.returnUnstartedFinish, Inner.finishDone, Inner.requeueFinish, sub]

theorem requeueHeldFinish (size : Nat) :
    Safe cfg w (.requeueHeldFinish idx size) := by
  rcases (inv.letFinish claimed).requeue (mem_cons_self ..) size with
    ⟨files, pushEq, after⟩
  exact ⟨_, by simp [step, Inner.requeue, pushEq], after⟩

theorem requeueFinishHeldFinish (matched : Bool) :
    Safe cfg w (.requeueFinishHeldFinish idx matched) := by
  have after := (inv.letFinish claimed).requeueFinish (mem_cons_self ..) matched
  exact ⟨_, by simp [step, Inner.requeueFinish], after⟩

omit claimed

theorem endStaleFinish (stale : 0 < w.staleFinishing) : Safe cfg w .endStaleFinish := by
  rcases inv.endFinish stale with ⟨sub, after⟩
  exact ⟨_, by simp [step, Inner.finishDone, sub], after⟩

theorem published (going : idx ∈ w.publishing) : Safe cfg w (.published idx) :=
  ⟨_, rfl, inv.letPublishing going⟩

theorem requeueLate (going : idx ∈ w.publishing) (size : Nat) :
    Safe cfg w (.requeueLate idx size) := by
  rcases (inv.letPublishing going).requeue (mem_cons_self ..) size with
    ⟨files, pushEq, after⟩
  exact ⟨_, by simp [step, Inner.requeue, pushEq], after⟩

theorem requeueFinishLate (going : idx ∈ w.publishing) (matched : Bool) :
    Safe cfg w (.requeueFinishLate idx matched) := by
  have after := (inv.letPublishing going).requeueFinish (mem_cons_self ..) matched
  exact ⟨_, by simp [step, Inner.requeueFinish], after⟩

/-! ## Ranges -/

/-- A range in flight is counted as outstanding. -/
theorem outstanding_of_inflight (flying : handle ∈ w.sched.inflight) :
    ∃ left, w.sched.outstanding (w.sched.cells handle).idx = some (left + 1) ∧
      (w.sched.rangeView w.history).pieces (w.sched.cells handle).idx = left + 1 := by
  have alive : 0 < (w.sched.rangeView w.history).pieces (w.sched.cells handle).idx :=
    @RangeView.Accounts.pieces_pos (w.sched.rangeView w.history) handle flying
  have counted : w.sched.outstanding (w.sched.cells handle).idx = _ :=
    inv.ranges.outstanding (w.sched.cells handle).idx
  rw [if_neg (by omega)] at counted
  obtain ⟨left, leftEq⟩ := Nat.exists_eq_succ_of_ne_zero (Nat.ne_of_gt alive)
  exact ⟨left, by rw [counted, leftEq], leftEq⟩

/-- A probed file has no live range. -/
theorem idle_of_probe (probed : idx ∈ w.probes) :
    w.sched.outstanding idx = none ∧ (w.sched.rangeView w.history).pieces idx = 0 := by
  have total := inv.places idx
  have count := count_pos.mpr probed
  have counted : w.sched.outstanding idx = _ := inv.ranges.outstanding idx
  simp only [World.places, World.ranged] at total
  by_cases idle : (w.sched.rangeView w.history).pieces idx = 0
  · rw [if_pos idle] at counted
    exact ⟨counted, idle⟩
  · rw [if_neg idle] at counted
    rw [counted] at total
    simp only [Option.isSome_some, if_true] at total
    split at total <;> omega

variable (flying : handle ∈ w.sched.inflight)

include flying

theorem advance {pos : Nat}
    (lower : (w.sched.cells handle).pos ≤ pos) (upper : pos ≤ (w.sched.cells handle).end_) :
    Safe cfg w (.advance handle pos) := by
  refine ⟨_, rfl, { inv with ranges := ?_ }⟩
  exact inv.ranges.setCell flying ((w.sched.cells handle).advance pos) rfl rfl
    (Nat.le_min.mpr ⟨lower, Nat.le_trans lower upper⟩)

theorem updateRangeSplit (split : RangeSplit) :
    Safe cfg w (.updateRangeSplit handle split) := by
  refine ⟨_, rfl, { inv with ranges := ?_ }⟩
  exact inv.ranges.setCell flying { w.sched.cells handle with split := some split }
    rfl rfl (Nat.le_refl _)

/-- Adding a piece to a file that has one in flight leaves it in the same place. -/
theorem isSome_addOutstanding (other : Nat) :
    (Function.update w.sched.outstanding (w.sched.cells handle).idx
      (some ((w.sched.outstanding (w.sched.cells handle).idx).getD 0 + 1)) other).isSome =
        (w.sched.outstanding other).isSome := by
  rcases inv.outstanding_of_inflight flying with ⟨left, outstandingEq, -⟩
  by_cases sameFile : other = (w.sched.cells handle).idx
  · rw [sameFile, Function.update_self, outstandingEq]
    rfl
  · rw [Function.update_of_ne sameFile]

theorem releaseRest : Safe cfg w (.releaseRest handle) := by
  by_cases drained : (w.sched.cells handle).end_ ≤ (w.sched.cells handle).pos
  · exact ⟨w, by simp [step, Inner.releaseRest, drained], inv⟩
  · rcases inv.ranges.release flying (Nat.lt_of_not_le drained) with ⟨queue, pushEq, accounts⟩
    let released := (w.sched.setCell handle (w.sched.cells handle).release).addOutstanding
      (w.sched.cells handle).idx
    have pushed : released.pushRange (w.sched.cells handle).idx
        (w.sched.cells handle).unclaimed = some { released with ranges := queue } :=
      Inner.pushRange_eq pushEq
    refine ⟨{ w with sched := { released with ranges := queue } },
      by simp only [step, Inner.releaseRest, drained, if_false]; rw [pushed]; rfl,
      { inv with ranges := accounts, places := fun other => ?_ }⟩
    have before := inv.places other
    simp only [places_def, released, Inner.addOutstanding, Inner.setCell,
      inv.isSome_addOutstanding flying] at before ⊢
    exact before

theorem returnUnstartedRange (unstarted : (w.sched.cells handle).pos = w.history.starts handle)
    (unread : (w.sched.cells handle).pos < (w.sched.cells handle).end_) :
    Safe cfg w (.returnUnstartedRange handle) := by
  rcases inv.ranges.giveBack flying (unstarted ▸ unread) with ⟨queue, pushEq, -, accounts⟩
  have pushed : (w.sched.retire handle).pushRange (w.sched.cells handle).idx
      (w.sched.cells handle).unclaimed = some { w.sched.retire handle with ranges := queue } := by
    rw [RangeState.unclaimed, unstarted]
    exact Inner.pushRange_eq pushEq
  refine ⟨{ w with sched := { w.sched.retire handle with ranges := queue } },
    by simp only [step, Inner.returnUnstartedRange]; rw [pushed]; rfl,
    { inv with ranges := accounts }⟩

end

/-- Retiring a range takes a file out of the ranges only if it was the last. -/
theorem ranged_dropped {s : Inner} {left : Nat}
    (counted : s.outstanding (s.cells handle).idx = some (left + 1)) (other : Nat) :
    (if (s.outstanding other).isSome then 1 else 0) =
      (if ((s.dropped handle left).outstanding other).isSome then 1 else 0) +
        if other = (s.cells handle).idx ∧ left = 0 then 1 else 0 := by
  rw [Inner.isSome_outstanding_dropped]
  by_cases same : other = (s.cells handle).idx
  · subst same
    rw [counted]
    by_cases last : left = 0 <;> simp [last]
  · simp [same]

variable (inv : Inv w)

include inv

theorem rangeDone (flying : handle ∈ w.sched.inflight) :
    Safe cfg w (.rangeDone handle) := by
  rcases inv.outstanding_of_inflight flying with ⟨left, counted, pieces⟩
  have doneEq := Inner.rangeDone_eq counted
  have isSomeEq := w.sched.isSome_outstanding_dropped handle left (w.sched.cells handle).idx
  have moved := ranged_dropped counted
  have settled := w.history.retire_settled (w.sched.cells handle).idx
    (inv.ranges.started flying) (w.sched.cells handle).pos_le_end
  rw [if_pos rfl] at isSomeEq
  let after : World := { w with
    sched := w.sched.dropped handle left
    history := w.history.retire (w.sched.cells handle).idx (w.history.starts handle)
      (w.sched.cells handle).pos (w.sched.cells handle).end_ }
  let reported := (left == 0) && !w.sched.abort &&
    !decide ((w.sched.cells handle).idx ∈ w.sched.failed)
  have stepEq : w.step cfg (.rangeDone handle) =
      some (if reported then after.letGo (w.sched.cells handle).idx true
        else if decide (left ≠ 0) then after
        else after.letGo (w.sched.cells handle).idx false) := by
    simp only [World.step, World.rangeDone, doneEq, isSomeEq, Option.bind_eq_bind,
      Option.bind_some, Option.pure_def, after, reported]
  by_cases last : left = 0
  · have letGoEq : w.step cfg (.rangeDone handle) =
        some (after.letGo (w.sched.cells handle).idx reported) := by
      rw [stepEq]
      cases reported <;> simp [last]
    refine ⟨after.letGo (w.sched.cells handle).idx reported, letGoEq,
      { inv with ranges := ?_, silenced := ?_, places := fun other => ?_ }⟩
    · refine inv.ranges.dropped flying pieces
        ⟨close_starts .., close_registered .., fun other byte => ?_, fun other => ?_⟩
      · simp only [World.letGo, close_completed, close_abandoned]
        exact settled other byte
      · simp only [World.letGo, close_closed, last, and_true]
        rfl
    · intro other counted
      by_cases silent : other = (w.sched.cells handle).idx ∧ reported = false
      · rcases silent with ⟨rfl, silent⟩
        have failed : w.sched.abort = false → (w.sched.cells handle).idx ∈ w.sched.failed := by
          simpa [reported, last] using silent
        by_cases aborted : w.sched.abort = true
        · exact .inl aborted
        · exact .inr (failed (Bool.eq_false_of_not_eq_true aborted))
      · refine inv.silenced other fun before => counted ?_
        rw [World.letGo, close_silenced silent]
        exact before
    · refine Eq.trans ?_ (inv.places other)
      have change := moved other
      simp only [World.places_def, World.letGo, after, last, and_true, Inner.dropped_files,
        Inner.dropped_finishes] at change ⊢
      cases reported <;>
        simp only [if_true, Bool.false_eq_true, if_false, count_cons] <;> omega
  · have silent : reported = false := by simp [reported, last]
    refine ⟨after, by simp [stepEq, last, silent],
      { inv with ranges := ?_, places := fun other => ?_ }⟩
    · refine inv.ranges.dropped flying pieces ⟨rfl, rfl, settled, fun other => ?_⟩
      simp [last, after, retire]
    · refine Eq.trans ?_ (inv.places other)
      have change := moved other
      simp only [World.places_def, after, last, and_false, if_false, Inner.dropped_files,
        Inner.dropped_finishes] at change ⊢
      omega

/-- A range retried with something left to read goes back to the queue as a whole,
from its claim start on. -/
theorem retryRange_unread (flying : handle ∈ w.sched.inflight)
    (unread : w.history.starts handle < (w.sched.cells handle).end_) :
    ∃ queue, w.step cfg (.retryRange handle) =
        some { w with sched := { w.sched.retire handle with ranges := queue } } ∧
      queue.file = Function.update w.sched.ranges.file (w.sched.cells handle).idx
        (insert (.between (w.history.starts handle) (w.sched.cells handle).end_)
          (w.sched.ranges.file (w.sched.cells handle).idx)) ∧
      Inv { w with sched := { w.sched.retire handle with ranges := queue } } := by
  rcases inv.ranges.giveBack flying unread with ⟨queue, pushEq, fileEq, accounts⟩
  let after : Inner := { w.sched.retire handle with ranges := queue }
  have retryEq : w.sched.retryRange handle (w.history.starts handle) = some after := by
    simp only [Inner.retryRange, unread]
    exact Inner.pushRange_eq pushEq
  have same : after.finishes.length = w.sched.finishes.length := rfl
  exact ⟨queue, by simp [step, retryRange, retryEq, same, after], fileEq,
    { inv with ranges := accounts }⟩

/-- A retried range is queued again from its claim start; a fully acknowledged one
is retired, and if it was the last, the publication of its file is queued. -/
theorem retryRange (flying : handle ∈ w.sched.inflight) :
    Safe cfg w (.retryRange handle) := by
  rcases inv.outstanding_of_inflight flying with ⟨left, counted, pieces⟩
  by_cases unread : w.history.starts handle < (w.sched.cells handle).end_
  · rcases inv.retryRange_unread flying unread with ⟨queue, stepEq, -, after⟩
    exact ⟨_, stepEq, after⟩
  · have moved := ranged_dropped counted
    -- Nothing is left to read: the claim was empty when it was made.
    have empty : ∀ byte, (Span.between (w.history.starts handle)
        (w.sched.cells handle).end_).count byte = 0 := fun byte =>
      Span.count_of_len_eq_zero (Nat.sub_eq_zero_of_le (Nat.le_of_not_lt unread)) byte
    have retryEq : w.sched.retryRange handle (w.history.starts handle) =
        some (if left == 0 then
          (w.sched.dropped handle left).requeueFinish (w.sched.cells handle).idx false
        else w.sched.dropped handle left) := by
      simp only [Inner.retryRange, unread, if_false, Inner.retire_dropOutstanding_eq counted,
        Option.bind_eq_bind, Option.bind_some, Option.pure_def]
    by_cases last : left = 0
    · subst last
      let after : World := { w with
        sched := (w.sched.dropped handle 0).requeueFinish (w.sched.cells handle).idx false
        history := w.history.close (w.sched.cells handle).idx true }
      refine ⟨after, ?_, { inv with ranges := ?_, places := fun other => ?_ }⟩
      · simp [World.step, World.retryRange, retryEq, Inner.requeueFinish, after]
      · refine inv.ranges.dropped flying pieces
          ⟨close_starts .., close_registered .., fun other byte => ?_, fun other => ?_⟩
        · simp only [after, close_completed, close_abandoned, empty, ite_self, Nat.add_zero]
        · simp only [after, close_closed, and_true]
      · refine Eq.trans ?_ (inv.places other)
        have change := moved other
        simp only [places_def, after, Inner.requeueFinish, Inner.dropped_files,
          Inner.dropped_finishes, List.map_cons, ← cons_coe, count_cons,
          and_true] at change ⊢
        omega
    · refine ⟨{ w with sched := w.sched.dropped handle left },
        by simp [World.step, World.retryRange, retryEq, last],
        { inv with ranges := ?_, places := fun other => ?_ }⟩
      · refine inv.ranges.dropped flying pieces
          ⟨rfl, rfl, fun other byte => ?_, fun other => ?_⟩
        · simp only [empty, ite_self, Nat.add_zero]
        · simp only [last, and_false, if_false, Nat.add_zero]
      · refine Eq.trans ?_ (inv.places other)
        have change := moved other
        simp only [places_def, last, and_false, if_false, Inner.dropped_files,
          Inner.dropped_finishes] at change ⊢
        omega

/-- Registering a probed file's ranges moves it from its probe to the ranges, or,
when there is nothing to copy, to its publication. -/
theorem rangesReady {ranges : List Span} (probed : idx ∈ w.probes)
    (valid : ValidRanges ranges) : Safe cfg w (.rangesReady idx ranges) := by
  rcases inv.idle_of_probe probed with ⟨absent, idle⟩
  rcases initialShares_spec cfg w.sched.initialRangeWorkers w.sched.files.isEmpty valid.1 with
    ⟨shares, ne, noneIff⟩
  have card := card_erase_add_one probed
  have probing := inv.probing
  have sub := @checkedSub_of_le w.sched.probing 1 (by omega)
  cases sharesEq : Inner.initialShares cfg w.sched.initialRangeWorkers w.sched.files.isEmpty
      ranges with
  | nil =>
    have noRanges := noneIff.mp sharesEq
    subst noRanges
    refine ⟨{ w with
        sched := { w.sched with probing := w.sched.probing - 1, initialRangeWorkers := 0 }
        history := w.history.register idx []
        probes := w.probes.erase idx
        publishing := idx ::ₘ w.publishing },
      by simp [World.step, World.rangesReady, Inner.rangesReady, sub, sharesEq],
      { inv with
        ranges := inv.ranges.registerNone idle
        probing := ?_
        silenced := fun other counted =>
          inv.silenced other (silenced_of_register [] counted)
        places := fun other => ?_ }⟩
    · simp only [World.slots] at probing ⊢
      omega
    · refine Eq.trans ?_ (inv.places other)
      have count := count_erase_add probed other
      simp only [World.places_def, count_cons]
      omega
  | cons first rest =>
    have given : ranges ≠ [] := fun none => by
      rw [noneIff.mpr none] at sharesEq
      cases sharesEq
    rw [sharesEq] at shares ne
    rcases inv.ranges.register idle (cover_le_one valid.2) given shares ne with
      ⟨queue, extendEq, accounts⟩
    let registered : Inner := { w.sched with
      probing := w.sched.probing - 1
      initialRangeWorkers := 0
      outstanding := Function.update w.sched.outstanding idx (some (first :: rest).length) }
    let claimed := (registered.claimRange idx first none).2
    refine ⟨{ w with
        sched := { claimed with ranges := queue }
        history := (w.history.register idx ranges).claim w.sched.nextHandle first.off
        probes := w.probes.erase idx }, ?_,
      { inv with
        ranges := accounts
        probing := ?_
        silenced := fun other counted =>
          inv.silenced other (silenced_of_register ranges counted)
        places := fun other => ?_ }⟩
    · have readyEq : w.sched.rangesReady cfg idx ranges =
          some (some w.sched.nextHandle, { claimed with ranges := queue }) := by
        have extended : claimed.ranges.extend idx rest = some queue := extendEq
        simp only [Inner.rangesReady, sub, sharesEq, Option.bind_eq_bind, Option.bind_some]
        rw [extended]
        rfl
      have start : (claimed.cells w.sched.nextHandle).pos = first.off :=
        registered.claimRange_pos idx first none
      simp only [World.step, World.rangesReady, readyEq, Option.bind_eq_bind, Option.bind_some,
        start, Option.pure_def]
    · simp only [World.slots] at probing ⊢
      change w.sched.probing - 1 = _
      omega
    · refine Eq.trans ?_ (inv.places other)
      have count := count_erase_add probed other
      have moved : (if (claimed.outstanding other).isSome then 1 else 0) =
          (if (w.sched.outstanding other).isSome then 1 else 0) +
            if other = idx then 1 else 0 := by
        by_cases same : other = idx
        · subst same
          simp [claimed, Inner.claimRange, registered, absent]
        · simp [claimed, Inner.claimRange, registered, same]
      have files : claimed.files = w.sched.files := rfl
      have finishes : claimed.finishes = w.sched.finishes := rfl
      simp only [World.places_def, files, finishes]
      omega

/-- A worker takes a queued range. -/
theorem claimQueued {queue : RangeQueue} {range : Span}
    (takes : w.sched.ranges.Takes (some (idx, range)) queue) :
    Inv { w with
      sched := ({ w.sched with ranges := queue }.claimRange idx range none).2
      history := w.history.claim w.sched.nextHandle range.off } :=
  { inv with ranges := inv.ranges.claimQueued takes }

theorem rangeWork (idx : Nat) (maxSize : Option Nat) :
    Safe cfg w (.rangeWork idx maxSize) := by
  by_cases stopped : w.sched.abort ∨ idx ∈ w.sched.failed
  · exact ⟨w, by simp [World.step, World.rangeWork, Inner.rangeWork, stopped], inv⟩
  cases maxSize with
  | none => exact ⟨w, by simp [World.step, World.rangeWork, Inner.rangeWork, stopped], inv⟩
  | some size =>
    by_cases spare : size = 0 ∨ w.sched.ranges.len ≤ w.sched.waitingWorkers
    · exact ⟨w, by simp [World.step, World.rangeWork, Inner.rangeWork, stopped, spare], inv⟩
    rcases inv.ranges.queue.takeShort idx size with ⟨taken, queue, takeEq, takes, -⟩
    change w.sched.ranges.takeShort idx size = _ at takeEq
    cases taken with
    | none =>
      rcases takes with ⟨-, rfl⟩
      exact ⟨w, by
        simp [World.step, World.rangeWork, Inner.rangeWork, stopped, spare,
          Inner.takeShortClaim, takeEq]
        rfl, inv⟩
    | some found =>
      exact ⟨_, by
        simp [World.step, World.rangeWork, Inner.rangeWork, stopped, spare,
          Inner.takeShortClaim, takeEq], inv.claimQueued takes⟩

end Inv

end Syq.Sched
