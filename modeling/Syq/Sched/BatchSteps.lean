import Syq.Sched.Invariant

/-!
# Fast batches in the invariant

A fast batch is begun with one probed file, collects further ones, shares its
unread groups, and ends with the files it still owns.  Each of these calls changes
one batch, so one lemma says what a change to one batch must keep.
-/

namespace Syq.Sched

open Syq.Lib Multiset List Function

namespace BatchAccounts

variable {fastGroups offers : List Nat} {states : Nat → FastBatchState} {batches : Nat → Batch}
  {live : Finset Nat} {nextBatch : Nat} {claims stolen : Nat → List Span}

variable (accounts : BatchAccounts fastGroups states batches live nextBatch claims stolen)

include accounts

/-- One live batch changes. -/
theorem update {batch : Nat} {record : Batch} {state : FastBatchState} {claimed taken : List Span}
    (alive : batch ∈ live) (wf : record.Wf state claimed taken)
    (offered : ∀ other ∈ offers, other ∈ fastGroups ∨ other = batch)
    (sharing : batch ∈ offers → record.phase = .sharing) :
    BatchAccounts offers (Function.update states batch state)
      (Function.update batches batch record) live nextBatch
      (Function.update claims batch claimed) (Function.update stolen batch taken) := by
  refine ⟨accounts.below, ?_, ?_⟩
  · intro other mem
    by_cases same : other = batch
    · subst same
      rw [update_self]
      exact ⟨alive, sharing mem⟩
    · rw [update_of_ne same]
      exact accounts.offered ((offered other mem).resolve_right same)
  · intro other mem
    by_cases same : other = batch
    · subst same
      simpa only [update_self] using wf
    · simpa only [update_of_ne same] using accounts.each mem

/-- A new batch starts by collecting files. -/
theorem begin (idx : Nat) :
    BatchAccounts fastGroups states
      (Function.update batches nextBatch ⟨1, {idx}, .collecting⟩) (insert nextBatch live)
      (nextBatch + 1) claims stolen := by
  have old : ∀ {other}, other ∈ live → other ≠ nextBatch :=
    fun mem => Nat.ne_of_lt (accounts.below mem)
  refine ⟨?_, ?_, ?_⟩
  · intro other mem
    rcases Finset.mem_insert.mp mem with rfl | mem
    · exact Nat.lt_succ_self other
    · exact Nat.lt_succ_of_lt (accounts.below mem)
  · intro other mem
    rcases accounts.offered mem with ⟨alive, sharing⟩
    rw [update_of_ne (old alive)]
    exact ⟨Finset.mem_insert_of_mem alive, sharing⟩
  · intro other mem
    rcases Finset.mem_insert.mp mem with rfl | mem
    · rw [update_self]
      exact ⟨by simp, Nat.one_pos, by simp, by simp⟩
    · rw [update_of_ne (old mem)]
      exact accounts.each mem

/-- A batch that is not shared ends. -/
theorem complete {batch : Nat} (quiet : (batches batch).phase ≠ .sharing) :
    BatchAccounts fastGroups states batches (live.erase batch) nextBatch claims stolen := by
  refine ⟨fun mem => accounts.below (Finset.mem_of_mem_erase mem), ?_,
    fun mem => accounts.each (Finset.mem_of_mem_erase mem)⟩
  intro other mem
  rcases accounts.offered mem with ⟨alive, sharing⟩
  refine ⟨Finset.mem_erase.mpr ⟨?_, alive⟩, sharing⟩
  rintro rfl
  exact quiet sharing

end BatchAccounts

namespace Inv

variable {w : World} {cfg : Config} {batch : Nat}

variable (inv : Inv w)

include inv

theorem beginFastBatch {idx maxN : Nat} (probed : idx ∈ w.probes) (bounded : 0 < maxN)
    (active : Nat) : Safe cfg w (.beginFastBatch idx active maxN) := by
  have card := Multiset.card_erase_add_one probed
  have probing := inv.probing
  have fastProbing := inv.fastProbing
  have fastBatches := inv.fastBatches
  have room : w.sched.fastProbing < w.sched.probing := by omega
  have new : w.nextBatch ∉ w.live := fun mem => Nat.lt_irrefl _ (inv.batches.below mem)
  have slots := sum_insert_update new w.batches ⟨1, {idx}, .collecting⟩ Batch.slots
  refine ⟨{ w with
      sched := { w.sched with
        fastProbing := w.sched.fastProbing + 1
        fastBatches := w.sched.fastBatches + 1 }
      probes := w.probes.erase idx
      batches := update w.batches w.nextBatch ⟨1, {idx}, .collecting⟩
      live := insert w.nextBatch w.live
      nextBatch := w.nextBatch + 1 },
    by simp [World.step, World.beginFastBatch, Inner.beginFastBatch, room, bounded],
    { inv with
      batches := inv.batches.begin idx
      probing := ?_
      fastProbing := ?_
      fastBatches := ?_
      places := fun other => ?_ }⟩
  · simp only [World.slots] at probing slots ⊢
    omega
  · simp only [World.slots] at fastProbing slots ⊢
    omega
  · rw [Finset.card_insert_of_notMem new, fastBatches]
  · refine Eq.trans ?_ (inv.places other)
    have count := count_erase_add probed other
    have held := sum_insert_update new w.batches ⟨1, {idx}, .collecting⟩
      fun batch => batch.held.count other
    simp only [World.places_def, Multiset.count_singleton] at held ⊢
    omega

theorem markFast {files : List Nat} (collecting : w.BatchIn batch .collecting)
    (probed : (files : Multiset Nat) ≤ w.probes) : Safe cfg w (.markFast batch files) := by
  have card := card_sub probed
  have fewer := card_le_card probed
  rw [coe_card] at card fewer
  have probing := inv.probing
  have fastProbing := inv.fastProbing
  have room : w.sched.fastProbing + files.length ≤ w.sched.probing := by omega
  have wf := inv.batches.each collecting.1
  let record : Batch := ⟨(w.batches batch).slots + files.length, (w.batches batch).held + files,
    (w.batches batch).phase⟩
  have recordWf : record.Wf (w.sched.batches batch) (w.claims batch) (w.stolen batch) := by
    refine ⟨?_, Nat.add_pos_left wf.slots _, wf.shared, fun sharing => ?_⟩
    · simpa [record] using wf.held
    · exact absurd (collecting.2.symm.trans sharing) (by simp)
  have accounts := inv.batches.update collecting.1 recordWf (fun _ mem => .inl mem)
    fun mem => (inv.batches.offered mem).2
  simp only [update_eq_self] at accounts
  have slots := sum_update_add collecting.1 w.batches record Batch.slots
  refine ⟨{ w with
      sched := { w.sched with fastProbing := w.sched.fastProbing + files.length }
      batches := update w.batches batch record
      probes := w.probes - files },
    by simp [World.step, World.markFast, Inner.markFast, room, World.setBatch, record],
    { inv with
      batches := accounts
      probing := ?_
      fastProbing := ?_
      places := fun other => ?_ }⟩
  · simp only [World.slots, record] at probing slots ⊢
    omega
  · simp only [World.slots, record] at fastProbing slots ⊢
    omega
  · refine Eq.trans ?_ (inv.places other)
    have held := sum_update_add collecting.1 w.batches record fun one => one.held.count other
    have fits := count_le_of_le other probed
    simp only [World.places_def, record, count_add, count_sub] at held ⊢
    omega

/-- A change of one batch that keeps its slots and its files keeps the invariant. -/
theorem sameBatch {record : Batch} {sched : Inner} {claims stolen : Nat → List Span}
    (alive : batch ∈ w.live)
    (schedEq : sched = { w.sched with batches := sched.batches, fastGroups := sched.fastGroups })
    (accounts : BatchAccounts sched.fastGroups sched.batches
      (Function.update w.batches batch record) w.live w.nextBatch claims stolen)
    (slots : record.slots = (w.batches batch).slots) (held : record.held = (w.batches batch).held) :
    Inv { w with sched, batches := Function.update w.batches batch record, claims, stolen } := by
  have slotsEq := sum_update_add alive w.batches record Batch.slots
  rw [slots] at slotsEq
  have slotsEq := Nat.add_right_cancel slotsEq
  rw [schedEq] at accounts ⊢
  refine { inv with
    batches := accounts
    probing := inv.probing.trans ?_
    fastProbing := inv.fastProbing.trans ?_
    places := fun other => Eq.trans ?_ (inv.places other) }
  · simp only [World.slots, slotsEq]
  · simp only [World.slots, slotsEq]
  · have heldEq := sum_update_add alive w.batches record fun one => one.held.count other
    rw [held] at heldEq
    simp only [World.places_def, Nat.add_right_cancel heldEq]

theorem shareFastGroups {files : List (Nat × Nat)} {groups : List Span}
    (collecting : w.BatchIn batch .collecting)
    (all : (files.map Prod.snd : Multiset Nat) = (w.batches batch).held)
    (slots : (w.batches batch).slots = files.length) (some_ : groups ≠ [])
    (tiles : Tiles 0 groups files.length) : Safe cfg w (.shareFastGroups batch files groups) := by
  rcases FastBatchState.Shared.of_share some_ tiles with
    ⟨first, state, shareEq, filesEq, ownedEq, shared⟩
  have wf := inv.batches.each collecting.1
  have owned : (FastBatchState.ownedFiles state.files state.owned : Multiset Nat) =
      (w.batches batch).held := by
    rw [filesEq, ownedEq, FastBatchState.ownedFiles_replicate_true rfl]
    exact all
  have card : (w.batches batch).slots = (w.batches batch).held.card := by
    rw [← all, slots, coe_card, length_map]
  have recordWf : Batch.Wf { w.batches batch with phase := .sharing } state [first] [] :=
    ⟨wf.held, wf.slots, fun _ => ⟨shared, by simp⟩, fun _ => ⟨owned.symm, card⟩⟩
  have accounts := inv.batches.update collecting.1 recordWf
    (fun other (mem : other ∈ if groups.tail.isEmpty then w.sched.fastGroups
      else w.sched.fastGroups ++ [batch]) => by split at mem <;> simp_all) fun _ => rfl
  let sched : Inner := { w.sched with
    batches := update w.sched.batches batch state
    fastGroups := if groups.tail.isEmpty then w.sched.fastGroups
      else w.sched.fastGroups ++ [batch] }
  have after := inv.sameBatch collecting.1 (rfl : sched = _) accounts rfl rfl
  exact ⟨_, by
    simp only [World.step, World.shareFastGroups, Inner.shareFastGroups, shareEq,
      Option.bind_eq_bind, Option.pure_def]
    rfl, after⟩

theorem claimFast (sharing : w.BatchIn batch .sharing) (maxFiles maxBytes : Nat) :
    Safe cfg w (.claimFast batch maxFiles maxBytes) := by
  have wf := inv.batches.each sharing.1
  rcases (wf.shared (by simp [sharing.2])).1.claim_spec maxFiles maxBytes with
    ⟨claimEq, -⟩ | ⟨span, next, claimEq, files, owned, shared⟩
  · exact ⟨w, by simp [World.step, World.claimFast, Inner.claimFast, claimEq], inv⟩
  · have nextWf : (w.batches batch).Wf next (w.claims batch ++ [span]) (w.stolen batch) :=
      ⟨wf.held, wf.slots, fun _ => ⟨shared, by simp⟩, by
        rw [files, owned]
        exact wf.owned⟩
    have accounts := inv.batches.update sharing.1 nextWf (fun _ mem => .inl mem)
      fun mem => (inv.batches.offered mem).2
    simp only [update_eq_self] at accounts
    exact ⟨{ w with
        sched := { w.sched with batches := update w.sched.batches batch next }
        claims := update w.claims batch (w.claims batch ++ [span]) },
      by simp [World.step, World.claimFast, Inner.claimFast, claimEq],
      { inv with batches := accounts }⟩

theorem finishFastGroups (sharing : w.BatchIn batch .sharing) :
    Safe cfg w (.finishFastGroups batch) := by
  have wf := inv.batches.each sharing.1
  rcases wf.owned sharing.2 with ⟨held, slots⟩
  let files := FastBatchState.ownedFiles (w.sched.batches batch).files (w.sched.batches batch).owned
  have length : files.length = (w.batches batch).slots := by
    rw [slots, held, coe_card]
  have recordWf : Batch.Wf ⟨files.length, files, .finished⟩ (w.sched.batches batch)
      (w.claims batch) (w.stolen batch) :=
    ⟨by simp, length ▸ wf.slots, fun _ => wf.shared (by simp [sharing.2]), by simp⟩
  have accounts := inv.batches.update sharing.1 recordWf
    (fun other (mem : other ∈ w.sched.fastGroups.filter (· ≠ batch)) =>
      .inl (mem_of_mem_filter mem)) (by simp)
  simp only [update_eq_self] at accounts
  exact ⟨_, rfl, inv.sameBatch sharing.1 rfl accounts length held.symm⟩

theorem requeueBatched {idx : Nat} (quiet : w.BatchHeld batch)
    (mem : idx ∈ (w.batches batch).held) (size : Nat) :
    Safe cfg w (.requeueBatched batch idx size) := by
  rcases inv.push_known (inv.known_held quiet.1 mem) size with
    ⟨files, pushEq, filesWf, jobs, groupOf⟩
  have wf := inv.batches.each quiet.1
  let record : Batch := { w.batches batch with held := (w.batches batch).held.erase idx }
  have recordWf : record.Wf (w.sched.batches batch) (w.claims batch) (w.stolen batch) :=
    ⟨Nat.le_trans (Multiset.card_le_card (Multiset.erase_le idx _)) wf.held, wf.slots,
      wf.shared, fun sharing => absurd sharing quiet.2⟩
  have accounts := inv.batches.update quiet.1 recordWf (fun _ mem => .inl mem)
    fun mem => (inv.batches.offered mem).2
  simp only [update_eq_self] at accounts
  have slots := Nat.add_right_cancel (sum_update_add quiet.1 w.batches record Batch.slots)
  refine ⟨{ w with
      sched := { w.sched with files }
      batches := update w.batches batch record },
    by simp [World.step, World.requeueBatched, Inner.requeue, pushEq, World.setBatch, record],
    { inv with
      files := filesWf
      registered := groupOf
      batches := accounts
      probing := inv.probing.trans ?_
      fastProbing := inv.fastProbing.trans ?_
      places := fun other => Eq.trans ?_ (inv.places other) }⟩
  · simp only [World.slots, slots]
  · simp only [World.slots, slots]
  · have count := count_erase_add mem other
    have held := sum_update_add quiet.1 w.batches record fun one => one.held.count other
    simp only [World.places_def, jobs, Multiset.count_cons, record] at held ⊢
    omega

theorem completeFastBatch (quiet : w.BatchHeld batch) :
    Safe cfg w (.completeFastBatch batch) := by
  have wf := inv.batches.each quiet.1
  have slots := Finset.sum_erase_add w.live (fun one => (w.batches one).slots) quiet.1
  have card := Finset.card_erase_add_one quiet.1
  have probing := inv.probing
  have fastProbing := inv.fastProbing
  have fastBatches := inv.fastBatches
  have some_ : (w.batches batch).slots ≠ 0 := Nat.ne_of_gt wf.slots
  simp only [World.slots] at probing fastProbing
  have subProbing := @checkedSub_of_le w.sched.probing (w.batches batch).slots (by omega)
  have subFast := @checkedSub_of_le w.sched.fastProbing (w.batches batch).slots (by omega)
  have subBatches := @checkedSub_of_le w.sched.fastBatches 1 (by omega)
  refine ⟨{ w with
      sched := { w.sched with
        probing := w.sched.probing - (w.batches batch).slots
        fastProbing := w.sched.fastProbing - (w.batches batch).slots
        fastBatches := w.sched.fastBatches - 1 }
      live := w.live.erase batch
      retired := w.retired + (w.batches batch).held },
    by simp [World.step, World.completeFastBatch, Inner.completeFastBatch, some_, subProbing,
      subFast, subBatches],
    { inv with
      batches := inv.batches.complete quiet.2
      probing := ?_
      fastProbing := ?_
      fastBatches := ?_
      places := fun other => Eq.trans ?_ (inv.places other) }⟩
  · simp only [World.slots]
    omega
  · simp only [World.slots]
    omega
  · simp only
    omega
  · have held := Finset.sum_erase_add w.live (fun one => (w.batches one).held.count other) quiet.1
    simp only [World.places_def, count_add] at held ⊢
    omega

end Inv

end Syq.Sched
