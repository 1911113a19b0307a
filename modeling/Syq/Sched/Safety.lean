import Syq.Sched.BatchSteps

/-!
# No run panics

`next` hands out what it finds, and each branch of its search keeps the invariant.
With the events of the other modules this gives the main result: a permitted event
succeeds and keeps the invariant, from every reachable state.
-/

namespace Syq.Sched

open Syq.Lib List Option Function

/-! ## The parts of the search -/

/-- Registered files can be queued one after another. -/
theorem FileQueue.Wf.pushFiles {queue : FileQueue} (wf : queue.Wf) {files : List (Nat × Nat)}
    (bounded : queue.groupOf.length ≤ 2 ^ 64)
    (registered : ∀ file ∈ files, file.2 < queue.groupOf.length) :
    ∃ next, Inner.pushFiles queue files = some next ∧ next.Wf ∧
      next.jobs = (files.map Prod.snd : Multiset Nat) + queue.jobs ∧
      next.groupOf = queue.groupOf := by
  induction files generalizing queue with
  | nil => exact ⟨queue, rfl, wf, by simp, rfl⟩
  | cons file rest ih =>
    have known := registered file mem_cons_self
    have index := FileKey.index_of file.1 (Nat.lt_of_lt_of_le known bounded)
    rcases wf.push (.of file.1 file.2) (by rw [index]; exact known) with
      ⟨more, pushEq, moreWf, moreJobs, moreGroups⟩
    rcases ih moreWf (by rw [moreGroups]; exact bounded)
      (fun other mem => by
        rw [moreGroups]
        exact registered other (mem_cons_of_mem file mem)) with
      ⟨next, restEq, nextWf, nextJobs, nextGroups⟩
    refine ⟨next, by simp [Inner.pushFiles, pushEq, restEq], nextWf, ?_, by
      rw [nextGroups, moreGroups]⟩
    rw [nextJobs, moreJobs, index, map_cons, ← Multiset.cons_coe, Multiset.add_cons,
      Multiset.cons_add]

/-- The smallest share of a range. -/
def RangeState.minimum (cfg : Config) (range : RangeState) : Nat :=
  (range.split.map RangeSplit.minimum).getD cfg.minSplit

/-- The alignment of a cut through a range. -/
def RangeState.block (cfg : Config) (range : RangeState) : Nat :=
  (range.split.map RangeSplit.block).getD cfg.block

theorem RangeState.block_pos (cfg : Config) (range : RangeState) : 0 < range.block cfg := by
  unfold RangeState.block
  cases range.split with
  | none => exact cfg.block_pos
  | some split => exact split.block_pos

namespace Inner

section Victim

variable {cfg : Config} {s : Inner} {seen : Nat → Nat} {victim : Nat}

/-- The bytes that the search for a victim saw left of a range. -/
def remaining (s : Inner) (seen : Nat → Nat) (handle : Nat) : Nat :=
  (s.cells handle).end_ - seen handle

/-- Twice the smallest share is left of the range. -/
def Stealable (cfg : Config) (s : Inner) (seen : Nat → Nat) (handle : Nat) : Prop :=
  2 * (s.cells handle).minimum cfg ≤ s.remaining seen handle

instance (cfg : Config) (s : Inner) (seen : Nat → Nat) (handle : Nat) :
    Decidable (s.Stealable cfg seen handle) :=
  inferInstanceAs (Decidable (_ ≤ _))

/-- No range worth splitting has more left. -/
structure Largest (cfg : Config) (s : Inner) (seen : Nat → Nat) (handle : Nat) : Prop where
  mem : handle ∈ s.inflight
  stealable : s.Stealable cfg seen handle
  longest : ∀ other ∈ s.inflight, s.Stealable cfg seen other →
    s.remaining seen other ≤ s.remaining seen handle

theorem foldl_stealBest (cfg : Config) (s : Inner) (seen : Nat → Nat) (handles : List Nat) :
    handles.foldl (stealBest cfg s seen) none = none ∧
        (∀ handle ∈ handles, ¬ s.Stealable cfg seen handle) ∨
      ∃ victim ∈ handles,
        handles.foldl (stealBest cfg s seen) none = some (s.remaining seen victim, victim) ∧
        s.Stealable cfg seen victim ∧
        ∀ other ∈ handles, s.Stealable cfg seen other →
          s.remaining seen other ≤ s.remaining seen victim := by
  induction handles using reverseRecOn with
  | nil => simp
  | append_singleton rest handle ih =>
    simp only [foldl_concat, forall_mem_append, forall_mem_singleton]
    have compared : ∀ best, stealBest cfg s seen best handle =
        if s.Stealable cfg seen handle ∧
          (best.all fun longest => longest.1 < s.remaining seen handle) = true
        then some (s.remaining seen handle, handle) else best := fun _ => rfl
    rw [compared]
    by_cases worth : s.Stealable cfg seen handle
    · rcases ih with ⟨none, useless⟩ | ⟨victim, mem, found, stealable, longest⟩
      · refine .inr ⟨handle, mem_concat_self, by simp [none, worth], worth, ?_, fun _ => le_rfl⟩
        exact fun other otherMem otherWorth => absurd otherWorth (useless other otherMem)
      · by_cases longer : s.remaining seen victim < s.remaining seen handle
        · refine .inr ⟨handle, mem_concat_self, by simp [found, worth, longer], worth, ?_,
            fun _ => le_rfl⟩
          exact fun other otherMem otherWorth =>
            (longest other otherMem otherWorth).trans longer.le
        · exact .inr ⟨victim, mem_append_left _ mem, by simp [found, longer], stealable, longest,
            fun _ => not_lt.mp longer⟩
    · rcases ih with ⟨none, useless⟩ | ⟨victim, mem, found, stealable, longest⟩
      · exact .inl ⟨by simp [none, worth], useless, worth⟩
      · exact .inr ⟨victim, mem_append_left _ mem, by simp [found, worth], stealable, longest,
          fun again => absurd again worth⟩

/-- The search for a victim finds a longest range worth splitting. -/
theorem largest_of_stealVictim (found : s.stealVictim cfg seen = some victim) :
    s.Largest cfg seen victim := by
  rcases map_eq_some_iff.mp found with ⟨longest, foldEq, rfl⟩
  rcases foldl_stealBest cfg s seen s.inflight with ⟨none, -⟩ | ⟨other, mem, some, worth, longest⟩
  · rw [none] at foldEq
    cases foldEq
  · rw [some] at foldEq
    cases foldEq
    exact ⟨mem, worth, longest⟩

theorem exists_stealVictim {handle : Nat} (mem : handle ∈ s.inflight)
    (stealable : s.Stealable cfg seen handle) : ∃ victim, s.stealVictim cfg seen = some victim := by
  rcases foldl_stealBest cfg s seen s.inflight with ⟨-, useless⟩ | ⟨victim, -, found, -⟩
  · exact absurd stealable (useless handle mem)
  · exact ⟨victim, by rw [stealVictim, found]; rfl⟩

end Victim

/-- What a successful steal did. -/
theorem steal_eq_some {cfg : Config} {s next : Inner} {seen : Nat → Nat} {handle : Nat}
    (stole : s.steal cfg seen = some (handle, next)) :
    ∃ victim ∈ s.inflight, ∃ cut, (s.cells victim).pos < cut ∧ cut < (s.cells victim).end_ ∧
      handle = s.nextHandle ∧
      next = (((s.setCell victim ((s.cells victim).shrink cut)).addOutstanding
        (s.cells victim).idx).claimRange (s.cells victim).idx
          (.between cut (s.cells victim).end_) (s.cells victim).split).2 := by
  rcases Option.bind_eq_some_iff.mp stole with ⟨victim, found, rest⟩
  refine ⟨victim, (largest_of_stealVictim found).mem, stealCut cfg (s.cells victim), ?_⟩
  by_cases useless : (s.cells victim).end_ ≤ stealCut cfg (s.cells victim) ∨
      stealCut cfg (s.cells victim) ≤ (s.cells victim).pos
  · simp [useless] at rest
  · have result := rest
    simp only [useless, if_false, Option.pure_def, Option.some.injEq] at result
    exact ⟨by omega, by omega, (congrArg Prod.fst result).symm, (congrArg Prod.snd result).symm⟩

/-- The cut is the first multiple of the block from the middle on. -/
theorem stealCut_bounds (cfg : Config) (range : RangeState) :
    range.pos + (range.end_ - range.pos) / 2 ≤ stealCut cfg range ∧
      stealCut cfg range < range.pos + (range.end_ - range.pos) / 2 + range.block cfg := by
  have positive := range.block_pos cfg
  change _ ≤ (_ ⌈/⌉ range.block cfg) * range.block cfg ∧
    (_ ⌈/⌉ range.block cfg) * range.block cfg < _
  generalize range.pos + (range.end_ - range.pos) / 2 = middle
  generalize range.block cfg = block at *
  have upper := Nat.div_mul_le_self (middle + block - 1) block
  have lower := Nat.lt_div_mul_add positive (a := middle + block - 1)
  rw [Nat.ceilDiv_eq_add_pred_div]
  omega

/-- With two shares left of some range and short blocks where most is left, a steal succeeds.  It
cuts a range with the most left in two nonempty parts at a multiple of its block.  No product or
sum of the search leaves the machine words. -/
theorem steal_finds_work (cfg : Config) (s : Inner)
    (words : ∀ handle ∈ s.inflight, (s.cells handle).end_ ≤ 2 ^ 63 - 1 ∧
      (s.cells handle).minimum cfg ≤ 2 ^ 63 - 1 ∧ (s.cells handle).block cfg ≤ 2 ^ 63 - 1)
    (work : ∃ handle ∈ s.inflight, s.Stealable cfg (fun handle => (s.cells handle).pos) handle)
    (short : ∀ handle, s.Largest cfg (fun handle => (s.cells handle).pos) handle →
      2 * (s.cells handle).block cfg ≤ (s.cells handle).minimum cfg) :
    (∃ victim cut, s.Largest cfg (fun handle => (s.cells handle).pos) victim ∧
      (s.cells victim).pos < cut ∧ cut < (s.cells victim).end_ ∧
      cut % (s.cells victim).block cfg = 0 ∧
      s.steal cfg (fun handle => (s.cells handle).pos) = some
        (((s.setCell victim ((s.cells victim).shrink cut)).addOutstanding
          (s.cells victim).idx).claimRange (s.cells victim).idx
            (.between cut (s.cells victim).end_) (s.cells victim).split)) ∧
    ∀ handle ∈ s.inflight, 2 * (s.cells handle).minimum cfg < 2 ^ 64 ∧
      (s.cells handle).pos + ((s.cells handle).end_ - (s.cells handle).pos) / 2 < 2 ^ 64 ∧
      stealCut cfg (s.cells handle) < 2 ^ 64 := by
  constructor
  · rcases work with ⟨handle, mem, stealable⟩
    rcases exists_stealVictim mem stealable with ⟨victim, found⟩
    have largest := largest_of_stealVictim found
    have enough : 2 * (s.cells victim).minimum cfg ≤
        (s.cells victim).end_ - (s.cells victim).pos := largest.stealable
    have fine := short victim largest
    have above := stealCut_bounds cfg (s.cells victim)
    refine ⟨victim, stealCut cfg (s.cells victim), largest, by omega, by omega,
      Nat.mul_mod_left _ _, ?_⟩
    simp only [steal, found, bind_eq_bind, bind_some]
    rw [if_neg (by omega)]
    rfl
  · intro handle mem
    have inside := words handle mem
    have ordered := (s.cells handle).pos_le_end
    have bounds := stealCut_bounds cfg (s.cells handle)
    omega

/-- One range of eight bytes in flight. -/
def oneFlying : Inner :=
  { Inner.new with inflight := [0], cells := fun _ => ⟨0, 0, 8, none, by decide⟩ }

theorem steal_finds_work_one :
    ∃ victim cut, oneFlying.Largest (.new 1 2 (by decide)) (fun _ => 0) victim ∧ 0 < cut ∧ cut < 8 ∧
      (oneFlying.steal (.new 1 2 (by decide)) fun _ => 0).isSome = true := by
  rcases (steal_finds_work (.new 1 2 (by decide)) oneFlying (by decide) (by decide)
    (fun _ _ => (by decide : 2 * 1 ≤ 2))).1 with ⟨victim, cut, largest, lower, upper, -, stolen⟩
  exact ⟨victim, cut, largest, lower, upper, isSome_iff_exists.mpr ⟨_, stolen⟩⟩

/-- A second range with more left and a block longer than itself makes the steal fail. -/
theorem long_block_stops_steal :
    ∃ (cfg : Config) (s : Inner), (∃ handle ∈ s.inflight,
        s.Stealable cfg (fun handle => (s.cells handle).pos) handle ∧
        2 * (s.cells handle).block cfg ≤ (s.cells handle).minimum cfg) ∧
      s.steal cfg (fun handle => (s.cells handle).pos) = none := by
  refine ⟨.new 1 2 (by decide), { Inner.new with
    inflight := [0, 1]
    cells := fun handle => if handle = 0 then ⟨0, 0, 4, none, by decide⟩
      else ⟨1, 1, 10, some ⟨512, 2, by decide⟩, by decide⟩ },
    ⟨0, by decide, by decide, by decide⟩, by decide⟩

end Inner

/-- A group was stolen from a batch: its first file is probed by the stealer, the
others are queued, and the batch answers for none of them any more. -/
structure Stolen (w after : World) (idx batch : Nat) (group : Span) (siblings : List Nat) :
    Prop where
  files : (slice (w.sched.batches batch).files group).map Prod.snd = idx :: siblings
  probed : after.probes = idx ::ₘ w.probes
  queued : after.sched.files.jobs = siblings + w.sched.files.jobs
  held : (w.batches batch).held = (idx ::ₘ (siblings : Multiset Nat)) + (after.batches batch).held
  counted : after.sched.probing + siblings.length = w.sched.probing

namespace Inv

variable {w : World} {cfg : Config}

section

variable (inv : Inv w)

include inv

/-- The first offered batch with an unread group gives its last group away. -/
theorem findGroup {handles : List Nat} (offered : ∀ handle ∈ handles, handle ∈ w.sched.fastGroups) :
    w.sched.findGroup handles = some none ∨
      ∃ batch ∈ handles, ∃ group state, w.sched.findGroup handles =
          some (some (batch, group, slice (w.sched.batches batch).files group, state)) ∧
        0 < group.len ∧ group.stop ≤ (w.sched.batches batch).files.length ∧
        state.files = (w.sched.batches batch).files ∧
        state.Shared (w.claims batch) (w.stolen batch ++ [group]) ∧
        (w.batches batch).held =
          ((slice (w.sched.batches batch).files group).map Prod.snd : Multiset Nat) +
            (FastBatchState.ownedFiles state.files state.owned : Multiset Nat) := by
  induction handles with
  | nil => exact .inl rfl
  | cons batch rest ih =>
    rcases inv.batches.offered (offered batch mem_cons_self) with ⟨alive, sharing⟩
    have wf := inv.batches.each alive
    rcases (wf.shared (by simp [sharing])).1.popBack_spec with
      ⟨popEq, -⟩ | ⟨group, state, popEq, ne, inside, files, shared, owned⟩
    · have same : w.sched.findGroup (batch :: rest) = w.sched.findGroup rest := by
        simp [Inner.findGroup, popEq]
      rw [same]
      rcases ih fun handle mem => offered handle (mem_cons_of_mem _ mem)
        with none | ⟨other, otherMem, found⟩
      · exact .inl none
      · exact .inr ⟨other, mem_cons_of_mem _ otherMem, found⟩
    · right
      refine ⟨batch, mem_cons_self, group, state, by simp [Inner.findGroup, popEq],
        ne, inside, files, shared, ?_⟩
      rw [(wf.owned sharing).1]
      exact owned

/-- A stolen group leaves its batch: one file is probed, the others are queued. -/
theorem stealFastGroup :
    w.sched.stealFastGroup = some (none, w.sched) ∨
      ∃ idx batch group sched, w.sched.stealFastGroup = some (some (idx, batch, group), sched) ∧
        Inv (w.take (.stolenFile idx batch group) sched) ∧
        ∃ siblings, Stolen w (w.take (.stolenFile idx batch group) sched) idx batch group
          siblings := by
  rcases inv.findGroup (fun _ mem => mem) with
    none | ⟨batch, offered, group, state, found, ne, inside, files, shared, held⟩
  · exact .inl (by simp [Inner.stealFastGroup, none])
  right
  rcases inv.batches.offered offered with ⟨alive, sharing⟩
  have wf := inv.batches.each alive
  rcases wf.owned sharing with ⟨-, slotsEq⟩
  generalize filesEq : slice (w.sched.batches batch).files group = taken at found held
  have length : taken.length = group.len := by
    rw [← filesEq, slice, length_take, length_drop]
    simp only [Span.stop] at inside
    omega
  cases taken with
  | nil => simp at length; omega
  | cons first rest =>
    let owned : Multiset Nat := FastBatchState.ownedFiles state.files state.owned
    have heldEq : (w.batches batch).held = (first.2 ::ₘ (rest.map Prod.snd : Multiset Nat)) +
        owned := held
    have card : (w.batches batch).slots = rest.length + 1 + owned.card := by
      rw [slotsEq, heldEq]
      simp
    have registered : ∀ file ∈ rest, file.2 < w.sched.files.groupOf.length := by
      intro file mem
      rw [inv.registered]
      refine inv.known_held alive ?_
      rw [heldEq]
      exact Multiset.mem_add.mpr (.inl (Multiset.mem_cons_of_mem
        (Multiset.mem_coe.mpr (mem_map_of_mem mem))))
    rcases inv.files.pushFiles (by rw [inv.registered]; exact inv.bounded) registered with
      ⟨queue, pushEq, queueWf, queueJobs, queueGroups⟩
    let record : Batch := ⟨(w.batches batch).slots - (rest.length + 1),
      (w.batches batch).held - (first.2 ::ₘ (rest.map Prod.snd : Multiset Nat)),
      (w.batches batch).phase⟩
    have recordHeld : record.held = owned := by
      simp only [record, heldEq]
      exact add_tsub_cancel_left _ _
    have recordSlots : record.slots = owned.card := by
      simp only [record]
      omega
    have recordWf : record.Wf state (w.claims batch) (w.stolen batch ++ [group]) := by
      have claimed := (wf.shared (by simp [sharing])).2
      refine ⟨by rw [recordHeld, recordSlots], ?_, fun _ => ⟨shared, claimed⟩, fun _ =>
        ⟨recordHeld, by rw [recordHeld, recordSlots]⟩⟩
      rw [recordSlots]
      exact shared.owned_pos claimed
    have accounts := inv.batches.update alive recordWf (fun _ mem => .inl mem)
      fun _ => sharing
    simp only [update_eq_self] at accounts
    have slots := sum_update_add alive w.batches record Batch.slots
    have probing := inv.probing
    have fastProbing := inv.fastProbing
    simp only [World.slots] at probing fastProbing
    have subFast := @checkedSub_of_le w.sched.fastProbing (rest.length + 1) (by omega)
    have subProbing := @checkedSub_of_le w.sched.probing rest.length (by omega)
    have siblings : checkedSub (rest.length + 1) 1 = some rest.length :=
      checkedSub_eq_some_iff.mpr rfl
    let sched : Inner := { w.sched with
      fastProbing := w.sched.fastProbing - (rest.length + 1)
      probing := w.sched.probing - rest.length
      files := queue
      batches := update w.sched.batches batch state }
    have takeEq : w.take (.stolenFile first.2 batch group) sched = { w with
        sched
        probes := first.2 ::ₘ w.probes
        batches := update w.batches batch record
        stolen := update w.stolen batch (w.stolen batch ++ [group]) } := by
      simp [World.take, sched, files, filesEq, record]
    refine ⟨first.2, batch, group, sched, by
      simp [Inner.stealFastGroup, found, subFast, siblings, subProbing, pushEq, sched], ?_,
      rest.map Prod.snd, ?_⟩
    rotate_left
    · rw [takeEq]
      refine ⟨by rw [filesEq, map_cons], rfl, queueJobs, ?_, ?_⟩
      · simp only [update_self, recordHeld]
        exact heldEq
      · rw [length_map]
        exact Nat.sub_add_cancel (by omega)
    rw [takeEq]
    refine { inv with
      files := queueWf
      registered := by rw [queueGroups]; exact inv.registered
      batches := accounts
      probing := ?_
      fastProbing := ?_
      places := fun other => Eq.trans ?_ (inv.places other) }
    · simp only [World.slots, sched, Multiset.card_cons]
      omega
    · simp only [World.slots, sched]
      omega
    · have heldCount := sum_update_add alive w.batches record fun one => one.held.count other
      rw [recordHeld, heldEq] at heldCount
      simp only [World.places_def, sched, queueJobs, Multiset.count_add, Multiset.count_cons]
        at heldCount ⊢
      omega

/-- A queued range is taken. -/
theorem takeRange {queue : RangeQueue} {idx : Nat} {range : Span}
    (takes : w.sched.ranges.Takes (some (idx, range)) queue) :
    Inv (w.take (.range w.sched.nextHandle)
      ({ w.sched with ranges := queue }.claimRange idx range none).2) := by
  have start : (({ w.sched with ranges := queue }.claimRange idx range none).2.cells
      w.sched.nextHandle).pos = range.off := Inner.claimRange_pos ..
  simp only [World.take, start]
  exact inv.claimQueued takes

/-- A queued publication is claimed. -/
theorem takeFinish {idx : Nat} {matched : Bool} {rest : List (Nat × Bool)}
    (finishesEq : w.sched.finishes = (idx, matched) :: rest) :
    Inv (w.take (.finish idx matched)
      { w.sched with finishes := rest, finishing := w.sched.finishing + 1 }) := by
  refine { inv with finishing := ?_, places := fun other => Eq.trans ?_ (inv.places other) }
  · have before := inv.finishing
    simp only [World.take, Multiset.card_cons]
    omega
  · simp only [World.places_def, World.take, finishesEq, map_cons, ← Multiset.cons_coe,
      Multiset.count_cons]
    omega

/-- A queued file is taken to be probed. -/
theorem takeFile {key : FileKey} {files : FileQueue} (wf : files.Wf)
    (jobs : w.sched.files.jobs = key.index ::ₘ files.jobs)
    (groupOf : files.groupOf = w.sched.files.groupOf) :
    Inv (w.take (.file key.index) { w.sched with files, probing := w.sched.probing + 1 }) := by
  refine { inv with
    files := wf
    registered := (congrArg length groupOf).trans inv.registered
    probing := ?_
    places := fun other => Eq.trans ?_ (inv.places other) }
  · have before := inv.probing
    simp only [World.take, World.slots, Multiset.card_cons] at before ⊢
    omega
  · simp only [World.places_def, World.take, jobs, Multiset.count_cons]
    omega

/-- A stolen range goes into flight beside its victim. -/
theorem takeStolenRange {seen : Nat → Nat} {handle : Nat} {sched : Inner}
    (stole : w.sched.steal cfg seen = some (handle, sched)) :
    Inv (w.take (.stolenRange handle) sched) := by
  rcases Inner.steal_eq_some stole with ⟨victim, flying, cut, lower, upper, rfl, rfl⟩
  have accounts := inv.ranges.steal flying (Nat.le_of_lt lower) (Nat.le_of_lt upper)
    (w.sched.cells victim).split
  let counted := (w.sched.setCell victim ((w.sched.cells victim).shrink cut)).addOutstanding
    (w.sched.cells victim).idx
  have start : ((counted.claimRange (w.sched.cells victim).idx
      (.between cut (w.sched.cells victim).end_) (w.sched.cells victim).split).2.cells
        w.sched.nextHandle).pos = cut := Inner.claimRange_pos counted ..
  simp only [World.take]
  rw [start]
  refine { inv with ranges := accounts, places := fun other => Eq.trans ?_ (inv.places other) }
  simp only [World.places_def, ← inv.isSome_addOutstanding flying other]
  rfl

/-- The search of `next` succeeds; what it hands out keeps the invariant, and if it
finds nothing, it changes nothing. -/
theorem findWork (seen : Nat → Nat) :
    w.sched.findWork cfg seen = some (none, w.sched) ∨
      ∃ turn sched, w.sched.findWork cfg seen = some (some turn, sched) ∧ turn ≠ .exit ∧
        Inv (w.take turn sched) ∧ ∀ idx batch group, turn = .stolenFile idx batch group →
          ∃ siblings, Stolen w (w.take turn sched) idx batch group siblings := by
  rcases inv.ranges.queue.pop with ⟨range, queue, popEq, takes, -⟩
  change w.sched.ranges.pop = _ at popEq
  cases range with
  | some found =>
    exact .inr ⟨.range w.sched.nextHandle, _, by simp [Inner.findWork, popEq], by simp,
      inv.takeRange takes, by simp⟩
  | none =>
  cases finishesEq : w.sched.finishes with
  | cons finish rest =>
    rcases finish with ⟨idx, matched⟩
    exact .inr ⟨.finish idx matched, _, by simp [Inner.findWork, popEq, finishesEq], by simp,
      inv.takeFinish finishesEq, by simp⟩
  | nil =>
  rcases inv.files.pop with ⟨filesEq, -⟩ | ⟨key, files, filesEq, filesWf, jobs, groupOf⟩
  · cases stealEq : w.sched.steal cfg seen with
    | some stolen =>
      rcases stolen with ⟨handle, sched⟩
      exact .inr ⟨.stolenRange handle, sched,
        by simp [Inner.findWork, popEq, finishesEq, filesEq, stealEq], by simp,
        inv.takeStolenRange stealEq, by simp⟩
    | none =>
      rcases inv.stealFastGroup with groupEq | ⟨idx, batch, group, sched, groupEq, after, stolen⟩
      · exact .inl (by simp [Inner.findWork, popEq, finishesEq, filesEq, stealEq, groupEq])
      · exact .inr ⟨.stolenFile idx batch group, sched,
          by simp [Inner.findWork, popEq, finishesEq, filesEq, stealEq, groupEq], by simp, after,
          fun _ _ _ same => by cases same; exact stolen⟩
  · exact .inr ⟨.file key.index, _, by simp [Inner.findWork, popEq, finishesEq, filesEq], by simp,
      inv.takeFile filesWf jobs groupOf, by simp⟩

/-- A turn of `next` succeeds and keeps the invariant.  It tells a worker to leave
only after an abort or when the scheduler finds itself finished, and a file it
steals comes with its whole group. -/
theorem next_spec {woken : Bool} (seen : Nat → Nat)
    (waiting : woken = true → 0 < w.sched.waitingWorkers) :
    ∃ turn after, w.next cfg woken seen = some (turn, after) ∧ Inv after ∧
      (turn = .exit → w.sched.abort = true ∨ w.sched.finished = true) ∧
      ∀ idx batch group, turn = .stolenFile idx batch group →
        ∃ siblings, Stolen w after idx batch group siblings := by
  have awake : ∃ waitingWorkers, w.sched.wake woken = some { w.sched with waitingWorkers } := by
    cases woken with
    | false => exact ⟨w.sched.waitingWorkers, rfl⟩
    | true =>
      have sub := @checkedSub_of_le w.sched.waitingWorkers 1 (by have := waiting rfl; omega)
      exact ⟨w.sched.waitingWorkers - 1, by simp [Inner.wake, sub]⟩
  rcases awake with ⟨waitingWorkers, awakeEq⟩
  let woke : World := { w with sched := { w.sched with waitingWorkers } }
  have wokeInv : Inv woke := { inv with }
  have turned : ∀ {turn sched}, woke.sched.nextTurn cfg seen = some (turn, sched) →
      w.next cfg woken seen = some (turn, woke.take turn sched) := by
    intro turn sched turnEq
    change Inner.nextTurn cfg { w.sched with waitingWorkers } seen = _ at turnEq
    simp only [World.next, awakeEq, turnEq, Option.bind_eq_bind, Option.bind_some]
    cases turn <;> rfl
  by_cases aborted : w.sched.abort
  · exact ⟨.exit, woke, @turned .exit woke.sched (by simp [Inner.nextTurn, woke, aborted]), wokeInv,
      fun _ => .inl aborted, by simp⟩
  have search : woke.sched.searchWork cfg seen = some (none, woke.sched) ∨
      ∃ turn sched, woke.sched.searchWork cfg seen = some (some turn, sched) ∧ turn ≠ .exit ∧
        Inv (woke.take turn sched) ∧ ∀ idx batch group, turn = .stolenFile idx batch group →
          ∃ siblings, Stolen woke (woke.take turn sched) idx batch group siblings := by
    unfold Inner.searchWork
    split
    · exact wokeInv.findWork seen
    · exact .inl rfl
  have going : woke.sched.abort = false := by simpa [woke] using aborted
  rcases search with nothing | ⟨turn, sched, found, busy, after, stolen⟩
  · by_cases done : w.sched.finished
    · have wokeDone : woke.sched.finished = true := done
      exact ⟨.exit, woke, @turned .exit woke.sched
        (by simp [Inner.nextTurn, going, nothing, wokeDone]), wokeInv, fun _ => .inr done,
        by simp⟩
    · have wokeBusy : woke.sched.finished = false := Bool.eq_false_of_not_eq_true done
      exact ⟨.wait, _, @turned .wait
        { woke.sched with waitingWorkers := woke.sched.waitingWorkers + 1 }
        (by simp [Inner.nextTurn, going, nothing, wokeBusy]), { wokeInv with }, by simp, by simp⟩
  · refine ⟨turn, _, turned (by simp [Inner.nextTurn, going, found]), after,
      fun leaves => absurd leaves busy, fun idx batch group same => ?_⟩
    rcases stolen idx batch group same with ⟨siblings, taken⟩
    exact ⟨siblings, { taken with }⟩

/-- A permitted event succeeds and keeps the invariant. -/
theorem step {event : Event} (permitted : w.enabled event) : Safe cfg w event := by
  cases event with
  | pushFile size dest => exact inv.pushFile size dest permitted
  | reserveInitialRanges workers => exact inv.control (.inl ⟨workers, rfl⟩)
  | releasePreflightedWork => exact inv.control (.inr (.inl rfl))
  | endScan => exact inv.control (.inr (.inr (.inl rfl)))
  | abortCopy => exact inv.control (.inr (.inr (.inr (.inl rfl))))
  | failFile idx => exact inv.control (.inr (.inr (.inr (.inr ⟨idx, rfl⟩))))
  | next woken seen =>
    rcases @Inv.next_spec w cfg inv woken seen permitted.1 with ⟨turn, after, nextEq, afterInv, -⟩
    exact ⟨after, by simp [World.step, nextEq], afterInv⟩
  | takeSmallNear first maxSize maxN maxBytes =>
    exact inv.takeSmallNear permitted maxSize maxN maxBytes
  | returnUnstartedFile idx size => exact inv.returnUnstartedFile permitted size
  | returnUnstartedRange handle =>
    exact inv.returnUnstartedRange permitted.1 permitted.2.1 permitted.2.2
  | returnUnstartedFinish idx matched => exact inv.returnUnstartedFinish permitted matched
  | requeueProbed idx size => exact inv.requeueProbed permitted size
  | requeueHeldProbe idx size => exact inv.requeueHeldProbe permitted size
  | requeueFinishHeldProbe idx matched => exact inv.requeueFinishHeldProbe permitted matched
  | endStaleProbe idx => exact inv.endStaleProbe permitted idx
  | rangesReady idx ranges => exact inv.rangesReady permitted.1 permitted.2
  | rangeWork idx maxSize => exact inv.rangeWork idx maxSize
  | advance handle pos => exact inv.advance permitted.1 permitted.2.1 permitted.2.2
  | updateRangeSplit handle split => exact inv.updateRangeSplit permitted split
  | releaseRest handle => exact inv.releaseRest permitted
  | rangeDone handle => exact inv.rangeDone permitted
  | retryRange handle => exact inv.retryRange permitted
  | finishDone idx => exact inv.finishDone permitted
  | requeueHeldFinish idx size => exact inv.requeueHeldFinish permitted size
  | requeueFinishHeldFinish idx matched => exact inv.requeueFinishHeldFinish permitted matched
  | endStaleFinish => exact inv.endStaleFinish permitted
  | beginFastBatch idx active maxN => exact inv.beginFastBatch permitted.1 permitted.2 active
  | markFast batch files => exact inv.markFast permitted.1 permitted.2
  | shareFastGroups batch files groups =>
    rcases permitted with ⟨collecting, all, slots, some_, tiles⟩
    exact inv.shareFastGroups collecting all slots some_ tiles
  | claimFast batch maxFiles maxBytes => exact inv.claimFast permitted maxFiles maxBytes
  | finishFastGroups batch => exact inv.finishFastGroups permitted
  | requeueBatched batch idx size => exact inv.requeueBatched permitted.1 permitted.2 size
  | completeFastBatch batch => exact inv.completeFastBatch permitted
  | published idx => exact inv.published permitted
  | requeueLate idx size => exact inv.requeueLate permitted size
  | requeueFinishLate idx matched => exact inv.requeueFinishLate permitted matched

end

end Inv

end Syq.Sched
