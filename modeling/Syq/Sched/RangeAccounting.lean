import Syq.Sched.Inner

/-!
# Accounting for byte ranges

Every byte a file registers is, at any time, in a queued range, in a range in
flight, in a range that completed, or in a part that was abandoned unread.  The
bookkeeping the scheduler itself does not keep, such as where each claim started
and what has completed, is a history recorded beside it.  Both the number of live
ranges and the ownership of a byte are totals over the queued ranges and the
ranges in flight, so the effect of an operation on `live` is proved once and
used for both.
-/

namespace Syq.Sched

open Syq.Lib Span List Option Function

/-- What happened to the ranges of each file since its last `ranges_ready`, and
where the claim of each handle started. -/
structure RangeHistory where
  starts : Nat → Nat
  registered : Nat → List Span
  completed : Nat → List Span
  abandoned : Nat → List Span
  /-- Completions that were reported, by `range_done` or as a queued finish. -/
  completions : Nat → Nat
  /-- Last ranges retired without a report, of a failed file or after an abort. -/
  silenced : Nat → Nat

namespace RangeHistory

def empty : RangeHistory where
  starts _ := 0
  registered _ := []
  completed _ := []
  abandoned _ := []
  completions _ := 0
  silenced _ := 0

/-- A new handle claims from `start` on. -/
def claim (history : RangeHistory) (handle start : Nat) : RangeHistory :=
  { history with starts := update history.starts handle start }

/-- A file's ranges are registered anew. -/
def register (history : RangeHistory) (idx : Nat) (ranges : List Span) : RangeHistory :=
  { history with
    registered := update history.registered idx ranges
    completed := update history.completed idx []
    abandoned := update history.abandoned idx []
    completions := update history.completions idx 0
    silenced := update history.silenced idx 0 }

/-- The last range of a file was retired, with or without a report. -/
def close (history : RangeHistory) (idx : Nat) (reported : Bool) : RangeHistory :=
  if reported then
    { history with
      completions := update history.completions idx (history.completions idx + 1) }
  else
    { history with silenced := update history.silenced idx (history.silenced idx + 1) }

/-- A range was retired at `pos`, with `[pos, end_)` never claimed. -/
def retire (history : RangeHistory) (idx start pos end_ : Nat) : RangeHistory :=
  { history with
    completed :=
      update history.completed idx (history.completed idx ++ [.between start pos])
    abandoned :=
      update history.abandoned idx (history.abandoned idx ++ [.between pos end_]) }

/-- A claim of a file was completed or abandoned, and the file closed if it was the last. -/
structure Settles (history : RangeHistory) (idx : Nat) (claim : Span) (left : Nat)
    (next : RangeHistory) : Prop where
  starts : next.starts = history.starts
  registered : next.registered = history.registered
  settled : ∀ other byte,
    cover (next.completed other) byte + cover (next.abandoned other) byte =
      cover (history.completed other) byte + cover (history.abandoned other) byte +
        if idx = other then claim.count byte else 0
  closed : ∀ other, next.completions other + next.silenced other =
    history.completions other + history.silenced other + if idx = other ∧ left = 0 then 1 else 0

/-- What a retired range claimed and left is its whole claim. -/
theorem retire_settled (history : RangeHistory) (idx : Nat) {start pos end_ : Nat}
    (lower : start ≤ pos) (upper : pos ≤ end_) (other byte : Nat) :
    cover ((history.retire idx start pos end_).completed other) byte +
        cover ((history.retire idx start pos end_).abandoned other) byte =
      cover (history.completed other) byte + cover (history.abandoned other) byte +
        if idx = other then (Span.between start end_).count byte else 0 := by
  have cut := count_between_add lower upper byte
  by_cases same : idx = other
  · subst same
    simp only [retire, update_self, cover_append, cover_cons, cover_nil, if_true]
    omega
  · simp only [retire, update_of_ne (Ne.symm same), same, if_false, Nat.add_zero]

/-- Closing a file counts once, as a report or in silence. -/
theorem close_closed (history : RangeHistory) (idx : Nat) (reported : Bool) (other : Nat) :
    (history.close idx reported).completions other + (history.close idx reported).silenced other =
      history.completions other + history.silenced other + if idx = other then 1 else 0 := by
  by_cases same : idx = other
  · subst same
    cases reported <;> simp [close] <;> omega
  · cases reported <;> simp [close, update_of_ne (Ne.symm same), same]

theorem silenced_of_register {history : RangeHistory} {idx other : Nat} (ranges : List Span)
    (counted : (history.register idx ranges).silenced other ≠ 0) : history.silenced other ≠ 0 := by
  by_cases same : other = idx
  · subst same
    simp [register] at counted
  · simpa [register, update_of_ne same] using counted

theorem close_silenced {history : RangeHistory} {idx other : Nat} {reported : Bool}
    (loud : ¬(other = idx ∧ reported = false)) :
    (history.close idx reported).silenced other = history.silenced other := by
  cases reported with
  | true => rfl
  | false =>
    have diff : other ≠ idx := fun same => loud ⟨same, rfl⟩
    simp [close, update_of_ne diff]

variable (history : RangeHistory)

include history

@[simp]
theorem close_starts (idx : Nat) (reported : Bool) :
    (history.close idx reported).starts = history.starts := by
  cases reported <;> rfl

@[simp]
theorem close_registered (idx : Nat) (reported : Bool) :
    (history.close idx reported).registered = history.registered := by
  cases reported <;> rfl

@[simp]
theorem close_completed (idx : Nat) (reported : Bool) :
    (history.close idx reported).completed = history.completed := by
  cases reported <;> rfl

@[simp]
theorem close_abandoned (idx : Nat) (reported : Bool) :
    (history.close idx reported).abandoned = history.abandoned := by
  cases reported <;> rfl

end RangeHistory

/-- The part of the scheduler that accounts for ranges, with its history. -/
structure RangeView where
  queue : RangeQueue
  inflight : List Nat
  cells : Nat → RangeState
  nextHandle : Nat
  outstanding : Nat → Option Nat
  history : RangeHistory

/-- The range part of a scheduler state. -/
def Inner.rangeView (s : Inner) (history : RangeHistory) : RangeView :=
  ⟨s.ranges, s.inflight, s.cells, s.nextHandle, s.outstanding, history⟩

namespace RangeView

variable {view : RangeView} {handle idx : Nat} {queue : RangeQueue}

/-! ## Totals over live ranges -/

/-- A weight of the ranges in flight of one file. -/
def flying (view : RangeView) (flight : Nat → RangeState → Nat) (idx : Nat) : Nat :=
  (view.inflight.map fun handle =>
    if (view.cells handle).idx = idx then
      flight (view.history.starts handle) (view.cells handle)
    else 0).sum

/-- The total of a weight over the queued ranges of a file and its ranges in
flight. -/
def live (view : RangeView) (queued : Span → Nat) (flight : Nat → RangeState → Nat)
    (idx : Nat) : Nat :=
  ∑ range ∈ view.queue.file idx, queued range + view.flying flight idx

/-- The number of queued ranges and ranges in flight of a file. -/
def pieces (view : RangeView) (idx : Nat) : Nat :=
  view.live (fun _ => 1) (fun _ _ => 1) idx

/-- How many queued ranges and claims in flight of a file hold a byte. -/
def holders (view : RangeView) (idx byte : Nat) : Nat :=
  view.live (fun range => range.count byte)
    (fun start range => (Span.between start range.end_).count byte) idx

/-! ## Elementary changes -/

/-- Put a range of a file in flight behind a new handle. -/
def claim (view : RangeView) (idx : Nat) (range : Span) (split : Option RangeSplit) : RangeView :=
  { view with
    cells := update view.cells view.nextHandle (.claimed idx range split)
    inflight := view.inflight ++ [view.nextHandle]
    nextHandle := view.nextHandle + 1
    history := view.history.claim view.nextHandle range.off }

/-- Take a handle out of flight. -/
def retire (view : RangeView) (handle : Nat) : RangeView :=
  { view with inflight := view.inflight.filter (· ≠ handle) }

/-- Replace the state behind a handle. -/
def setCell (view : RangeView) (handle : Nat) (range : RangeState) : RangeView :=
  { view with cells := update view.cells handle range }

/-- Replace the queue of unclaimed ranges. -/
def setQueue (view : RangeView) (queue : RangeQueue) : RangeView :=
  { view with queue }

/-- Count one more outstanding range of a file. -/
def addOutstanding (view : RangeView) (idx : Nat) : RangeView :=
  { view with
    outstanding :=
      update view.outstanding idx (some ((view.outstanding idx).getD 0 + 1)) }

variable {queued : Span → Nat} {flight : Nat → RangeState → Nat}

@[simp]
theorem live_addOutstanding (view : RangeView) (idx other : Nat) :
    (view.addOutstanding idx).live queued flight other = view.live queued flight other :=
  rfl

theorem live_claim (fresh : view.nextHandle ∉ view.inflight) (idx : Nat) (range : Span)
    (split : Option RangeSplit) (other : Nat) :
    (view.claim idx range split).live queued flight other =
      view.live queued flight other +
        if idx = other then flight range.off (.claimed idx range split) else 0 := by
  have unchanged : ∀ handle ∈ view.inflight, handle ≠ view.nextHandle := by
    rintro handle handleMem rfl
    exact fresh handleMem
  rw [live, live, Nat.add_assoc]
  congr 1
  simp only [flying, claim, RangeHistory.claim, map_append, sum_append, map_cons, map_nil, sum_cons,
    sum_nil, update_self]
  congr 1
  refine congrArg sum (map_congr_left fun handle handleMem => ?_)
  simp only [update_of_ne (unchanged handle handleMem)]

theorem live_retire (nodup : view.inflight.Nodup) (mem : handle ∈ view.inflight) (other : Nat) :
    view.live queued flight other =
      (view.retire handle).live queued flight other +
        if (view.cells handle).idx = other then
          flight (view.history.starts handle) (view.cells handle)
        else 0 := by
  rw [live, flying, sum_map_eq_add_filter _ nodup mem, Nat.add_comm _ (sum _), ← Nat.add_assoc]
  rfl

theorem live_setCell (nodup : view.inflight.Nodup) (mem : handle ∈ view.inflight)
    (queued : Span → Nat) (flight : Nat → RangeState → Nat) (range : RangeState)
    (sameFile : range.idx = (view.cells handle).idx) (other : Nat) :
    (view.setCell handle range).live queued flight other +
        (if (view.cells handle).idx = other then
          flight (view.history.starts handle) (view.cells handle)
        else 0) =
      view.live queued flight other +
        if (view.cells handle).idx = other then flight (view.history.starts handle) range
        else 0 := by
  have exchange := sum_map_change nodup mem
    (f := fun which =>
      if (update view.cells handle range which).idx = other then
        flight (view.history.starts which) (update view.cells handle range which)
      else 0)
    (g := fun which =>
      if (view.cells which).idx = other then
        flight (view.history.starts which) (view.cells which)
      else 0)
    (fun which diff => by rw [update_of_ne diff])
  simp only [update_self, sameFile] at exchange
  rw [live, live, Nat.add_assoc, Nat.add_assoc]
  exact congrArg (_ + ·) exchange

theorem live_extend {ranges : List Span} (nodup : ranges.Nodup)
    (fresh : ∀ range ∈ ranges, range ∉ view.queue.file idx)
    (fileEq : queue.file =
      update view.queue.file idx (view.queue.file idx ∪ ranges.toFinset)) (other : Nat) :
    (view.setQueue queue).live queued flight other =
      view.live queued flight other +
        if idx = other then (ranges.map queued).sum else 0 := by
  have apart : Disjoint (view.queue.file idx) ranges.toFinset := by
    rw [Finset.disjoint_right]
    exact fun range rangeMem => fresh range (mem_toFinset.mp rangeMem)
  change ∑ range ∈ queue.file other, queued range + view.flying flight other = _
  rw [fileEq, live]
  by_cases same : idx = other
  · subst same
    rw [update_self, Finset.sum_union apart, sum_toFinset queued nodup, if_pos rfl]
    omega
  · rw [update_of_ne (Ne.symm same), if_neg same, Nat.add_zero]

variable {range : Span}

theorem live_push (fresh : range ∉ view.queue.file idx) (fileEq : queue.file =
      update view.queue.file idx (insert range (view.queue.file idx)))
    (other : Nat) :
    (view.setQueue queue).live queued flight other =
      view.live queued flight other + if idx = other then queued range else 0 := by
  rw [RangeQueue.update_insert] at fileEq
  rw [live_extend (nodup_singleton range) (by simpa using fresh) fileEq]
  simp

theorem live_take (mem : range ∈ view.queue.file idx) (fileEq : queue.file =
      update view.queue.file idx ((view.queue.file idx).erase range)) (other : Nat) :
    view.live queued flight other =
      (view.setQueue queue).live queued flight other +
        if idx = other then queued range else 0 := by
  change _ = ∑ span ∈ queue.file other, queued span + view.flying flight other + _
  rw [fileEq, live]
  by_cases same : idx = other
  · subst same
    rw [update_self, if_pos rfl, ← Finset.sum_erase_add _ queued mem]
    omega
  · rw [update_of_ne (Ne.symm same), if_neg same, Nat.add_zero]

/-! ## The invariant -/

/-- The shape of the range part: a well-formed queue of nonempty ranges, and
distinct handles whose claims start no later than their position. -/
structure Shape (view : RangeView) : Prop where
  queue : view.queue.Wf
  nonempty : ∀ {idx range}, range ∈ view.queue.file idx → 0 < range.len
  nodup : view.inflight.Nodup
  below : ∀ {handle}, handle ∈ view.inflight → handle < view.nextHandle
  started : ∀ {handle}, handle ∈ view.inflight →
    view.history.starts handle ≤ (view.cells handle).pos

/-- The bytes of a file that are held, completed or abandoned. -/
def accounted (view : RangeView) (idx byte : Nat) : Nat :=
  view.holders idx byte + cover (view.history.completed idx) byte +
    cover (view.history.abandoned idx) byte

/-- The accounting of ranges: the outstanding count is the number of live
ranges, every registered byte is accounted for once, and a file is closed exactly
when its last live range is gone. -/
structure Accounts (view : RangeView) : Prop extends Shape view where
  outstanding : ∀ idx, view.outstanding idx =
    if view.pieces idx = 0 then none else some (view.pieces idx)
  conserved : ∀ idx byte,
    view.accounted idx byte = cover (view.history.registered idx) byte
  once : ∀ idx byte, cover (view.history.registered idx) byte ≤ 1
  closed : ∀ idx, view.history.completions idx + view.history.silenced idx +
    (if view.pieces idx = 0 then 0 else 1) = if view.history.registered idx = [] then 0 else 1

namespace Shape

section

variable (shape : view.Shape)

include shape

theorem fresh : view.nextHandle ∉ view.inflight :=
  fun mem => Nat.lt_irrefl _ (shape.below mem)

theorem claim (idx : Nat) (range : Span) (split : Option RangeSplit) :
    (view.claim idx range split).Shape := by
  have old : ∀ {handle}, handle ∈ view.inflight → handle ≠ view.nextHandle := by
    rintro handle mem rfl
    exact shape.fresh mem
  refine ⟨shape.queue, shape.nonempty, ?_, ?_, ?_⟩
  · exact nodup_append.mpr ⟨shape.nodup, nodup_singleton _, fun handle mem new newMem =>
      mem_singleton.mp newMem ▸ old mem⟩
  · intro handle mem
    rcases mem_append.mp mem with oldMem | newMem
    · exact Nat.lt_succ_of_lt (shape.below oldMem)
    · exact mem_singleton.mp newMem ▸ Nat.lt_succ_self _
  · intro handle mem
    simp only [RangeView.claim, RangeHistory.claim]
    rcases mem_append.mp mem with oldMem | newMem
    · rw [update_of_ne (old oldMem), update_of_ne (old oldMem)]
      exact shape.started oldMem
    · obtain rfl := mem_singleton.mp newMem
      rw [update_self, update_self]
      exact Nat.le_refl _

theorem retire (handle : Nat) : (view.retire handle).Shape :=
  ⟨shape.queue, shape.nonempty, shape.nodup.filter _,
    fun mem => shape.below (List.mem_of_mem_filter mem),
    fun mem => shape.started (List.mem_of_mem_filter mem)⟩

theorem setCell (handle : Nat) (range : RangeState)
    (started : view.history.starts handle ≤ range.pos) : (view.setCell handle range).Shape := by
  refine ⟨shape.queue, shape.nonempty, shape.nodup, shape.below, ?_⟩
  intro which mem
  simp only [RangeView.setCell]
  by_cases same : which = handle
  · subst same
    rw [update_self]
    exact started
  · rw [update_of_ne same]
    exact shape.started mem

theorem addOutstanding (idx : Nat) : (view.addOutstanding idx).Shape :=
  ⟨shape.queue, shape.nonempty, shape.nodup, shape.below, shape.started⟩

theorem refile (wf : queue.Wf) {files : Finset Span} (ne : ∀ range ∈ files, 0 < range.len)
    (fileEq : queue.file = update view.queue.file idx files) : (view.setQueue queue).Shape := by
  refine ⟨wf, ?_, shape.nodup, shape.below, shape.started⟩
  intro other range mem
  change range ∈ queue.file other at mem
  rw [fileEq] at mem
  by_cases same : other = idx
  · subst same
    rw [update_self] at mem
    exact ne range mem
  · rw [update_of_ne same] at mem
    exact shape.nonempty mem

/-- Queueing nonempty ranges keeps the shape. -/
theorem extend (wf : queue.Wf) {ranges : List Span} (ne : ∀ range ∈ ranges, 0 < range.len)
    (fileEq : queue.file =
      update view.queue.file idx (view.queue.file idx ∪ ranges.toFinset)) :
    (view.setQueue queue).Shape := by
  refine shape.refile wf (fun range mem => ?_) fileEq
  rcases Finset.mem_union.mp mem with old | new
  · exact shape.nonempty old
  · exact ne range (mem_toFinset.mp new)

theorem push (wf : queue.Wf) (ne : 0 < range.len) (fileEq : queue.file =
      update view.queue.file idx (insert range (view.queue.file idx))) :
    (view.setQueue queue).Shape := by
  rw [RangeQueue.update_insert] at fileEq
  exact shape.extend wf (by simpa using ne) fileEq

theorem take (wf : queue.Wf) (fileEq : queue.file =
      update view.queue.file idx ((view.queue.file idx).erase range)) :
    (view.setQueue queue).Shape :=
  shape.refile wf (fun _ mem => shape.nonempty (Finset.mem_of_mem_erase mem)) fileEq

end

end Shape

/-! ## How the accounts change -/

namespace Accounts

variable {next : RangeView}

theorem holders_le_one (accounts : view.Accounts) (idx byte : Nat) :
    view.holders idx byte ≤ 1 := by
  have total := accounts.conserved idx byte
  have once := accounts.once idx byte
  simp only [accounted] at total
  omega

/-- A range in flight is one of its file's live ranges. -/
theorem le_flying (mem : handle ∈ view.inflight) (flight : Nat → RangeState → Nat) :
    flight (view.history.starts handle) (view.cells handle) ≤
      view.flying flight (view.cells handle).idx := by
  have single := single_le_sum (fun _ _ => Nat.zero_le _) _
    (mem_map_of_mem (f := fun which =>
      if (view.cells which).idx = (view.cells handle).idx then
        flight (view.history.starts which) (view.cells which)
      else 0) mem)
  simpa [flying] using single

theorem pieces_pos (mem : handle ∈ view.inflight) : 0 < view.pieces (view.cells handle).idx := by
  have flying := le_flying mem fun _ _ => 1
  simp only [pieces, live]
  omega

section

variable (accounts : view.Accounts)

include accounts

/-- A byte that a range in flight holds is in no queued range of its file. -/
theorem not_queued (mem : handle ∈ view.inflight) {byte : Nat}
    (lower : view.history.starts handle ≤ byte) (upper : byte < (view.cells handle).end_)
    (holds : range.count byte ≠ 0) :
    range ∉ view.queue.file (view.cells handle).idx := by
  intro queued
  have flying := le_flying mem fun start cell => (between start cell.end_).count byte
  have claimed : (between (view.history.starts handle) (view.cells handle).end_).count
      byte = 1 :=
    count_of_mem lower (by rw [between_stop (by omega)]; exact upper)
  have inQueue := Finset.single_le_sum (f := fun span : Span => span.count byte)
    (fun _ _ => Nat.zero_le _) queued
  have most := accounts.holders_le_one (view.cells handle).idx byte
  simp only [holders, live] at most
  omega

/-- A change that keeps what is registered and what is accounted for. -/
theorem change (shape : next.Shape)
    (outstanding : ∀ idx, next.outstanding idx =
      if next.pieces idx = 0 then none else some (next.pieces idx))
    (accounted : ∀ idx byte, next.accounted idx byte = view.accounted idx byte)
    (registered : next.history.registered = view.history.registered)
    (closed : ∀ idx, next.history.completions idx + next.history.silenced idx +
        (if next.pieces idx = 0 then 0 else 1) =
      view.history.completions idx + view.history.silenced idx +
        if view.pieces idx = 0 then 0 else 1) : next.Accounts := by
  refine ⟨shape, outstanding, ?_, ?_, ?_⟩
  · intro idx byte
    rw [accounted, registered]
    exact accounts.conserved idx byte
  · intro idx byte
    rw [registered]
    exact accounts.once idx byte
  · intro idx
    rw [closed, registered]
    exact accounts.closed idx

/-- A change that keeps the live counts, the held bytes and, but for the claim starts, the
history keeps the accounts. -/
theorem unchanged (shape : next.Shape) (outstanding : next.outstanding = view.outstanding)
    (pieces : ∀ idx, next.pieces idx = view.pieces idx)
    (holders : ∀ idx byte, next.holders idx byte = view.holders idx byte) {starts : Nat → Nat}
    (history : next.history = { view.history with starts }) : next.Accounts := by
  refine accounts.change shape (fun idx => ?_) (fun idx byte => ?_) (by rw [history]) fun idx => ?_
  · rw [outstanding, pieces]
    exact accounts.outstanding idx
  · rw [accounted, accounted, holders, history]
  · rw [history, pieces]

/-- One more live range of a file that has some, counted as outstanding. -/
theorem grow (shape : next.Shape) (alive : 0 < view.pieces idx) (outstanding : next.outstanding =
      update view.outstanding idx (some ((view.outstanding idx).getD 0 + 1)))
    (pieces : ∀ other, next.pieces other = view.pieces other + if idx = other then 1 else 0)
    (holders : ∀ other byte, next.holders other byte = view.holders other byte)
    {starts : Nat → Nat} (history : next.history = { view.history with starts }) :
    next.Accounts := by
  refine accounts.change shape (fun other => ?_) (fun other byte => ?_) (by rw [history])
    fun other => ?_
  · have before := accounts.outstanding idx
    rw [outstanding, pieces]
    by_cases same : idx = other
    · subst same
      rw [update_self, before, if_pos rfl, if_neg (by omega)]
      rfl
    · rw [update_of_ne (Ne.symm same), if_neg same]
      exact accounts.outstanding other
  · rw [accounted, accounted, holders, history]
  · rw [history, pieces]
    by_cases same : idx = other
    · subst same
      rw [if_neg (by omega), if_neg (by omega)]
    · rw [if_neg same, Nat.add_zero]

/-- One live range of a file is retired; the file is closed if it was the last. -/
theorem shrink (shape : next.Shape)
    (outstanding : next.outstanding = update view.outstanding idx
      (if next.pieces idx = 0 then none else some (next.pieces idx)))
    (pieces : ∀ other, view.pieces other = next.pieces other + if idx = other then 1 else 0)
    (accounted : ∀ other byte, next.accounted other byte = view.accounted other byte)
    (registered : next.history.registered = view.history.registered)
    (closed : ∀ other, next.history.completions other + next.history.silenced other =
      view.history.completions other + view.history.silenced other +
        if idx = other ∧ next.pieces idx = 0 then 1 else 0) : next.Accounts := by
  refine accounts.change shape (fun other => ?_) accounted registered fun other => ?_
  · rw [outstanding]
    by_cases same : idx = other
    · subst same
      rw [update_self]
    · have count := pieces other
      rw [if_neg same, Nat.add_zero] at count
      rw [update_of_ne (Ne.symm same), ← count]
      exact accounts.outstanding other
  · have count := pieces other
    rw [closed]
    by_cases same : idx = other
    · subst same
      by_cases last : next.pieces idx = 0 <;> simp [last, count]
    · simp only [same, if_false, Nat.add_zero, false_and] at count ⊢
      rw [count]

/-! ## The operations -/

/-- Claiming a queued range moves it from the queue into flight. -/
theorem claimQueued (takes : view.queue.Takes (some (idx, range)) queue) :
    ((view.setQueue queue).claim idx range none).Accounts := by
  rcases takes with ⟨wf, queued, fileEq, -⟩
  have shape := accounts.toShape.take wf fileEq
  refine accounts.unchanged (shape.claim idx range none) rfl ?_ ?_ rfl
  · intro other
    rw [pieces, pieces, live_claim shape.fresh, live_take queued fileEq]
  · intro other byte
    rw [holders, holders, live_claim shape.fresh, live_take queued fileEq]
    simp only [RangeState.claimed, between_off_stop]

variable (mem : handle ∈ view.inflight)

include mem

/-- Moving the position of a range in flight, or setting its split policy, leaves
the accounts alone: only its claim start and its end matter. -/
theorem setCell (range : RangeState) (sameFile : range.idx = (view.cells handle).idx)
    (sameEnd : range.end_ = (view.cells handle).end_)
    (forward : (view.cells handle).pos ≤ range.pos) : (view.setCell handle range).Accounts := by
  have started := accounts.started mem
  refine accounts.unchanged (accounts.toShape.setCell handle range (by omega)) rfl ?_ ?_ rfl
  · intro other
    have exchange := live_setCell accounts.nodup mem (fun _ => 1) (fun _ _ => 1) range sameFile
      other
    simp only [pieces]
    omega
  · intro other byte
    have exchange := live_setCell accounts.nodup mem (fun range => range.count byte)
      (fun start range => (between start range.end_).count byte) range sameFile other
    simp only [sameEnd] at exchange
    simp only [holders]
    omega

/-- Stealing cuts a range in flight in two and puts the second half in flight. -/
theorem steal {cut : Nat} (lower : (view.cells handle).pos ≤ cut)
    (upper : cut ≤ (view.cells handle).end_) (split : Option RangeSplit) :
    (((view.setCell handle ((view.cells handle).shrink cut)).addOutstanding
      (view.cells handle).idx).claim (view.cells handle).idx
        (.between cut (view.cells handle).end_) split).Accounts := by
  have started := accounts.started mem
  have shape := (accounts.toShape.setCell handle ((view.cells handle).shrink cut)
    started).addOutstanding (view.cells handle).idx
  refine accounts.grow (shape.claim _ _ _) (pieces_pos mem) rfl ?_ ?_ rfl
  · intro other
    have exchange := live_setCell accounts.nodup mem (fun _ => 1) (fun _ _ => 1)
      ((view.cells handle).shrink cut) rfl other
    rw [pieces, live_claim shape.fresh, live_addOutstanding]
    simp only [pieces]
    omega
  · intro other byte
    have exchange := live_setCell accounts.nodup mem (fun range => range.count byte)
      (fun start range => (between start range.end_).count byte)
      ((view.cells handle).shrink cut) rfl other
    have cuts := count_between_add (Nat.le_trans started lower) upper byte
    have shrunk : ((view.cells handle).shrink cut).end_ = cut := Nat.max_eq_right lower
    simp only [shrunk] at exchange
    rw [holders, holders, live_claim shape.fresh, live_addOutstanding]
    simp only [RangeState.claimed, between_off, between_stop upper]
    by_cases same : (view.cells handle).idx = other
    · simp only [same, if_true] at exchange ⊢
      omega
    · simp only [same, if_false] at exchange ⊢
      omega

/-- Releasing the unread rest of a range cuts it in two and queues the second
part. -/
theorem release (unread : (view.cells handle).pos < (view.cells handle).end_) :
    ∃ queue, view.queue.push (view.cells handle).idx (view.cells handle).unclaimed =
        some queue ∧
      (((view.setCell handle (view.cells handle).release).addOutstanding
        (view.cells handle).idx).setQueue queue).Accounts := by
  have started := accounts.started mem
  have fresh : (view.cells handle).unclaimed ∉ view.queue.file (view.cells handle).idx := by
    refine accounts.not_queued mem started unread (count_ne_zero_iff.mpr ⟨?_, ?_⟩)
    · exact Nat.le_refl _
    · rw [RangeState.unclaimed, between_stop (Nat.le_of_lt unread)]
      exact unread
  rcases accounts.queue.push fresh with ⟨queue, pushEq, wf, fileEq, -⟩
  have shape := (accounts.toShape.setCell handle (view.cells handle).release
    started).addOutstanding (view.cells handle).idx
  have ne : 0 < (view.cells handle).unclaimed.len := Nat.sub_pos_of_lt unread
  have pushed : ∀ queued flight other,
      (((view.setCell handle (view.cells handle).release).addOutstanding
        (view.cells handle).idx).setQueue queue).live queued flight other =
      (view.setCell handle (view.cells handle).release).live queued flight other +
        if (view.cells handle).idx = other then queued (view.cells handle).unclaimed else 0 :=
    fun _ _ => live_push fresh fileEq
  refine ⟨queue, pushEq, accounts.grow (shape.push wf ne fileEq) (pieces_pos mem) rfl ?_ ?_
    rfl⟩
  · intro other
    have exchange := live_setCell accounts.nodup mem (fun _ => 1) (fun _ _ => 1)
      (view.cells handle).release rfl other
    rw [pieces, pushed]
    simp only [pieces]
    omega
  · intro other byte
    have exchange := live_setCell accounts.nodup mem (fun range => range.count byte)
      (fun start range => (between start range.end_).count byte)
      (view.cells handle).release rfl other
    have cuts := count_between_add started (Nat.le_of_lt unread) byte
    rw [holders, holders, pushed]
    simp only [RangeState.release, RangeState.unclaimed] at exchange ⊢
    by_cases same : (view.cells handle).idx = other
    · simp only [same, if_true] at exchange ⊢
      omega
    · simp only [same, if_false] at exchange ⊢
      omega

/-- Returning a claim to the queue from its start on, as `retry_range` and
`return_unstarted` do, moves the whole claim back. -/
theorem giveBack (ne : view.history.starts handle < (view.cells handle).end_) :
    ∃ queue, view.queue.push (view.cells handle).idx
        (.between (view.history.starts handle) (view.cells handle).end_) = some queue ∧
      queue.file = update view.queue.file (view.cells handle).idx
        (insert (.between (view.history.starts handle) (view.cells handle).end_)
          (view.queue.file (view.cells handle).idx)) ∧
      ((view.retire handle).setQueue queue).Accounts := by
  have fresh : between (view.history.starts handle) (view.cells handle).end_ ∉
      view.queue.file (view.cells handle).idx := by
    refine accounts.not_queued mem (Nat.le_refl _) ne
      (count_ne_zero_iff.mpr ⟨Nat.le_refl _, ?_⟩)
    rw [between_stop (Nat.le_of_lt ne)]
    exact ne
  rcases accounts.queue.push fresh with ⟨queue, pushEq, wf, fileEq, -⟩
  have pushed : ∀ queued flight other,
      ((view.retire handle).setQueue queue).live queued flight other =
      (view.retire handle).live queued flight other + if (view.cells handle).idx = other then
        queued (.between (view.history.starts handle) (view.cells handle).end_) else 0 :=
    fun _ _ => live_push fresh fileEq
  have shape := (accounts.toShape.retire handle).push wf (Nat.sub_pos_of_lt ne) fileEq
  refine ⟨queue, pushEq, fileEq, accounts.unchanged shape rfl ?_ ?_ rfl⟩
  · intro other
    rw [pieces, pieces, pushed, live_retire accounts.nodup mem]
  · intro other byte
    rw [holders, holders, pushed, live_retire accounts.nodup mem]

/-- Retiring a range takes one from the outstanding ranges of its file; what it
had claimed is completed and the rest is abandoned. -/
theorem retire {history : RangeHistory} {left : Nat}
    (leftEq : view.pieces (view.cells handle).idx = left + 1)
    (settles : view.history.Settles (view.cells handle).idx
      (.between (view.history.starts handle) (view.cells handle).end_) left history) :
    RangeView.Accounts { view.retire handle with
      outstanding := update view.outstanding (view.cells handle).idx
        (if left = 0 then none else some left)
      history } := by
  have retired := accounts.toShape.retire handle
  have counts : ∀ queued flight other,
      RangeView.live { view.retire handle with
        outstanding := update view.outstanding (view.cells handle).idx
          (if left = 0 then none else some left)
        history } queued flight other = (view.retire handle).live queued flight other := by
    intro queued flight other
    simp only [live, flying, settles.starts]
    rfl
  have piecesEq : ∀ other, view.pieces other = RangeView.pieces { view.retire handle with
        outstanding := update view.outstanding (view.cells handle).idx
          (if left = 0 then none else some left)
        history } other + if (view.cells handle).idx = other then 1 else 0 := by
    intro other
    rw [pieces, pieces, counts, live_retire accounts.nodup mem]
  have leftPieces := piecesEq (view.cells handle).idx
  rw [leftEq, if_pos rfl] at leftPieces
  have leftSame := Nat.succ_injective leftPieces
  refine accounts.shrink ⟨retired.queue, retired.nonempty, retired.nodup, retired.below, ?_⟩
    (by rw [← leftSame]) piecesEq ?_ settles.registered (by rw [← leftSame]; exact settles.closed)
  · intro which whichMem
    rw [settles.starts]
    exact retired.started whichMem
  · intro other byte
    rw [accounted, accounted, holders, holders, counts, live_retire accounts.nodup mem]
    have balance := settles.settled other byte
    change _ + cover (history.completed other) byte + cover (history.abandoned other) byte = _
    omega

end

/-- The accounts of a scheduler that retired a range. -/
theorem dropped {s : Inner} {history next : RangeHistory} {left : Nat}
    (accounts : (s.rangeView history).Accounts) (flying : handle ∈ s.inflight)
    (pieces : (s.rangeView history).pieces (s.cells handle).idx = left + 1)
    (settles : history.Settles (s.cells handle).idx
      (.between (history.starts handle) (s.cells handle).end_) left next) :
    ((s.dropped handle left).rangeView next).Accounts :=
  accounts.retire flying pieces settles

end Accounts

end RangeView

/-! ## Initial shares -/

/-- The blocks the first `part` shares hold. -/
def sharedBlocks (blocks parts part : Nat) : Nat :=
  part * (blocks / parts) + min part (blocks % parts)

/-- The shares follow one another from the offset to the end of the range, no share is shorter
than an equal part in whole blocks, and they meet at multiples of the block if the offset is one. -/
theorem shareLoop_tiles {block blocks parts stop : Nat} (blockPos : 0 < block)
    (share : 0 < blocks / parts) {left part off : Nat} (reach : part + left = parts)
    (room : off + (blocks - sharedBlocks blocks parts part) * block ≤ stop)
    (done : left = 0 → off = stop) :
    Tiles off (Inner.shareLoop block blocks parts stop left part off) stop ∧
      ∀ span ∈ Inner.shareLoop block blocks parts stop left part off,
        blocks / parts * block ≤ span.len ∧
        (span.stop ≠ stop → off % block = 0 → span.stop % block = 0) := by
  induction left generalizing part off with
  | zero => exact ⟨done rfl, by simp [Inner.shareLoop]⟩
  | succ left ih =>
    have grown : sharedBlocks blocks parts (part + 1) = sharedBlocks blocks parts part +
        (blocks / parts + if part < blocks % parts then 1 else 0) := by
      unfold sharedBlocks
      rw [Nat.succ_mul]
      split <;> omega
    have fits : sharedBlocks blocks parts (part + 1) ≤ blocks := by
      have whole := Nat.div_add_mod blocks parts
      have fewer := Nat.mul_le_mul_right (blocks / parts) (show part + 1 ≤ parts by omega)
      unfold sharedBlocks
      omega
    generalize nEq : blocks / parts + (if part < blocks % parts then 1 else 0) = n at grown
    have atLeast : blocks / parts ≤ n := by omega
    have cut : blocks - sharedBlocks blocks parts part =
        n + (blocks - sharedBlocks blocks parts (part + 1)) := by omega
    have size : block ≤ n * block := Nat.le_mul_of_pos_left block (by omega)
    have least := Nat.mul_le_mul_right block atLeast
    rw [cut, Nat.add_mul] at room
    simp only [Inner.shareLoop, nEq, forall_mem_cons]
    by_cases last : part + 1 = parts
    · rw [if_pos last]
      have noneLeft : left = 0 := by omega
      subst noneLeft
      have stopEq : (between off stop).stop = stop := between_stop (by omega)
      refine ⟨⟨rfl, Nat.sub_pos_of_lt (by omega), stopEq⟩, ⟨?_, absurd stopEq⟩,
        by simp [Inner.shareLoop]⟩
      show _ ≤ stop - off
      omega
    · rw [if_neg last]
      have stopEq : (between off (off + n * block)).stop = off + n * block :=
        between_stop (by omega)
      rcases @ih (part + 1) (off + n * block) (by omega) (by omega) (by omega) with
        ⟨tiles, shares⟩
      refine ⟨⟨rfl, Nat.sub_pos_of_lt (by omega), ?_⟩, ⟨?_, fun _ aligned => ?_⟩, ?_⟩
      · rwa [stopEq]
      · show _ ≤ off + n * block - off
        omega
      · rw [stopEq, Nat.add_mul_mod_self_right, aligned]
      · intro span mem
        refine ⟨(shares span mem).1, fun inner aligned => (shares span mem).2 inner ?_⟩
        rw [Nat.add_mul_mod_self_right, aligned]

/-- Among several shares each has the blocks of a minimum split. -/
theorem le_share_of_several {cfg : Config} {workers blocks : Nat}
    (several : 1 < Inner.shareCount cfg workers blocks) :
    cfg.minSplit ⌈/⌉ cfg.block ≤ blocks / Inner.shareCount cfg workers blocks := by
  have few : Inner.shareCount cfg workers blocks ≤ blocks / (cfg.minSplit ⌈/⌉ cfg.block) := by
    unfold Inner.shareCount at several ⊢
    omega
  have positive : 0 < cfg.minSplit ⌈/⌉ cfg.block := by
    by_contra zero
    rw [Nat.eq_zero_of_not_pos zero] at few
    omega
  rw [Nat.le_div_iff_mul_le positive, Nat.mul_comm] at few
  exact (Nat.le_div_iff_mul_le (by omega)).mpr few

/-- The initial shares of one range follow one another through it, meet at multiples of the
block, and are as long as the minimum split if the range is. -/
theorem initialShares_single (cfg : Config) (workers : Nat) (noFiles : Bool) {range : Span}
    (ne : 0 < range.len) :
    Tiles range.off (Inner.initialShares cfg workers noFiles [range]) range.stop ∧
      ∀ span ∈ Inner.initialShares cfg workers noFiles [range],
        (span.stop ≠ range.stop → span.stop % cfg.block = 0) ∧
        (cfg.minSplit ≤ range.len → cfg.minSplit ≤ span.len) := by
  simp only [Inner.initialShares]
  split_ifs with cutUp
  · rcases cutUp with ⟨-, -, aligned, several⟩
    have least := le_share_of_several several
    have enough := Nat.mul_le_mul_right cfg.block least
    have whole := (ceilDiv_le_iff_le_mul cfg.block_pos).mp (le_refl (cfg.minSplit ⌈/⌉ cfg.block))
    have twice := cfg.two_blocks
    have blockPos := cfg.block_pos
    rw [Nat.mul_comm] at whole
    have fits := Nat.div_mul_le_self range.len cfg.block
    generalize range.len / cfg.block = blocks at *
    generalize Inner.shareCount cfg workers blocks = parts at *
    have share : 0 < blocks / parts := by
      by_contra zero
      rw [Nat.eq_zero_of_not_pos zero] at enough
      omega
    have room : range.off + (blocks - sharedBlocks blocks parts 0) * cfg.block ≤ range.stop := by
      simp only [sharedBlocks, stop, Nat.zero_mul, Nat.zero_min, Nat.add_zero, Nat.sub_zero]
      omega
    rcases shareLoop_tiles blockPos share (Nat.zero_add parts) room (by omega) with ⟨tiles, shares⟩
    refine ⟨tiles, fun span mem => ?_⟩
    exact ⟨fun inner => (shares span mem).2 inner aligned,
      fun _ => (whole.trans enough).trans (shares span mem).1⟩
  · exact ⟨⟨rfl, ne, rfl⟩, by simp⟩

/-- Cutting a range into initial shares neither loses nor repeats a byte, and
leaves nonempty shares. -/
theorem initialShares_spec (cfg : Config) (workers : Nat) (noFiles : Bool) {ranges : List Span}
    (ne : ∀ range ∈ ranges, 0 < range.len) :
    (∀ byte, cover (Inner.initialShares cfg workers noFiles ranges) byte = cover ranges byte) ∧
      (∀ range ∈ Inner.initialShares cfg workers noFiles ranges, 0 < range.len) ∧
      (Inner.initialShares cfg workers noFiles ranges = [] ↔ ranges = []) := by
  match ranges with
  | [range] =>
    have single := ne range (mem_singleton_self range)
    have tiles := (initialShares_single cfg workers noFiles single).1
    refine ⟨fun byte => ?_, tiles.nonempty, ?_⟩
    · rw [tiles.cover_eq, between_off_stop, cover_cons, cover_nil, Nat.add_zero]
    · refine iff_of_false (fun noShares => ?_) (cons_ne_nil _ _)
      rw [noShares] at tiles
      have sameEnds : range.off = range.stop := tiles
      simp only [stop] at sameEnds
      omega
  | [] => exact ⟨fun _ => rfl, ne, Iff.rfl⟩
  | first :: second :: rest => exact ⟨fun _ => rfl, ne, Iff.rfl⟩

/-- `ranges_ready` succeeds for a file with one range and no queued ones: it claims the first
share and queues the rest, which follow one another through the range. -/
theorem initial_ranges_partition (cfg : Config) (s : Inner) (idx : Nat) (range : Span)
    (probed : 0 < s.probing) (nonempty : 0 < range.len) (wf : s.ranges.Wf)
    (unqueued : s.ranges.file idx = ∅) :
    ∃ first rest queue,
      s.rangesReady cfg idx [range] = some (some s.nextHandle, { s with
        probing := s.probing - 1
        initialRangeWorkers := 0
        outstanding := update s.outstanding idx (some (rest.length + 1))
        cells := update s.cells s.nextHandle (.claimed idx first none)
        inflight := s.inflight ++ [s.nextHandle]
        nextHandle := s.nextHandle + 1
        ranges := queue }) ∧
      queue.Wf ∧ queue.file = update s.ranges.file idx rest.toFinset ∧
      queue.len = s.ranges.len + rest.length ∧
      Tiles range.off (first :: rest) range.stop ∧
      ∀ span ∈ first :: rest, (span.stop ≠ range.stop → span.stop % cfg.block = 0) ∧
        (cfg.minSplit ≤ range.len → cfg.minSplit ≤ span.len) := by
  have sub := @checkedSub_of_le s.probing 1 (by omega)
  rcases initialShares_single cfg s.initialRangeWorkers s.files.isEmpty nonempty with
    ⟨tiles, shares⟩
  cases sharesEq : Inner.initialShares cfg s.initialRangeWorkers s.files.isEmpty [range] with
  | nil =>
    rw [sharesEq] at tiles
    have sameEnds : range.off = range.stop := tiles
    simp only [stop] at sameEnds
    omega
  | cons first rest =>
    rw [sharesEq] at tiles shares
    have nodup : (first :: rest).Nodup := by
      refine nodup_of_cover_le_one (fun byte => ?_) tiles.nonempty
      rw [tiles.cover_eq]
      exact count_le_one _ _
    have fresh : ∀ span ∈ rest, span ∉ s.ranges.file idx := by simp [unqueued]
    rcases wf.extend (nodup_cons.mp nodup).2 fresh with
      ⟨queue, queueEq, queueWf, fileEq, lenEq⟩
    rw [unqueued, Finset.empty_union] at fileEq
    refine ⟨first, rest, queue, ?_, queueWf, fileEq, lenEq, tiles, shares⟩
    simp only [Inner.rangesReady, sub, sharesEq, bind_eq_bind]
    change (s.ranges.extend idx rest).bind _ = _
    rw [queueEq]
    rfl

/-- Two workers share twenty-one bytes in blocks of five: the first two blocks are claimed, and
the rest with the last byte is queued. -/
theorem initial_ranges_partition_two :
    let s := { Inner.new with probing := 1, initialRangeWorkers := 2 }
    ((s.rangesReady (.new 5 0 (by decide)) 0 [⟨10, 21⟩]).map fun done =>
      ((done.2.cells 0).end_, done.2.ranges.file 0)) = some (20, {⟨20, 11⟩}) ∧
    ∃ first rest, ∃ queue : RangeQueue, Tiles 10 (first :: rest) 31 ∧ queue.Wf ∧
      queue.file = update s.ranges.file 0 rest.toFinset := by
  intro s
  rcases initial_ranges_partition (.new 5 0 (by decide)) s 0 ⟨10, 21⟩ (by decide) (by decide)
    RangeQueue.wf_empty rfl with ⟨first, rest, queue, -, wf, file, -, tiles, -⟩
  exact ⟨by decide +kernel, first, rest, queue, tiles, wf, file⟩

namespace RangeView.Accounts

variable {view : RangeView} {idx : Nat}

/-- A file without live ranges has no weight in any total. -/
theorem live_eq_zero (idle : view.pieces idx = 0) (queued : Span → Nat)
    (flight : Nat → RangeState → Nat) : view.live queued flight idx = 0 := by
  simp only [pieces, live, Nat.add_eq_zero_iff, Finset.sum_eq_zero_iff] at idle ⊢
  rcases idle with ⟨noQueued, noFlying⟩
  refine ⟨fun range mem => absurd (noQueued range mem) (by simp), ?_⟩
  refine sum_eq_zero fun weight weightMem => ?_
  rcases mem_map.mp weightMem with ⟨handle, handleMem, rfl⟩
  by_cases sameFile : (view.cells handle).idx = idx
  · have flying := le_flying handleMem fun _ _ => 1
    rw [sameFile] at flying
    omega
  · rw [if_neg sameFile]

/-- Registering no range of a file without live ranges only clears its history. -/
theorem registerNone (accounts : view.Accounts) (idle : view.pieces idx = 0) :
    RangeView.Accounts { view with history := view.history.register idx [] } := by
  refine ⟨⟨accounts.queue, accounts.nonempty, accounts.nodup, accounts.below,
    accounts.started⟩, accounts.outstanding, ?_, ?_, ?_⟩
  · intro other byte
    change view.holders other byte + _ + _ = _
    by_cases same : other = idx
    · subst same
      rw [holders, live_eq_zero idle]
      simp [RangeHistory.register]
    · simpa [accounted, RangeHistory.register, update_of_ne same] using
        accounts.conserved other byte
  · intro other byte
    by_cases same : other = idx
    · subst same
      simp [RangeHistory.register]
    · simpa [RangeHistory.register, update_of_ne same] using accounts.once other byte
  · intro other
    change _ + _ + (if view.pieces other = 0 then 0 else 1) = _
    by_cases same : other = idx
    · subst same
      simp [RangeHistory.register, idle]
    · simpa [RangeHistory.register, update_of_ne same] using accounts.closed other

/-- Registering ranges of a file without live ranges: the first share is claimed
and the rest are queued. -/
theorem register (accounts : view.Accounts) (idle : view.pieces idx = 0) {ranges : List Span}
    (once : ∀ byte, cover ranges byte ≤ 1) (given : ranges ≠ []) {first : Span} {rest : List Span}
    (shares : ∀ byte, cover (first :: rest) byte =
      cover ranges byte) (ne : ∀ range ∈ first :: rest, 0 < range.len) :
    ∃ queue, view.queue.extend idx rest = some queue ∧
      (RangeView.claim { view with
        queue
        outstanding :=
          update view.outstanding idx (some (first :: rest).length)
        history := view.history.register idx ranges } idx first none).Accounts := by
  have nodup := nodup_of_cover_le_one (fun byte => by rw [shares]; exact once byte) ne
  have noneQueued : view.queue.file idx = ∅ := by
    have empty := live_eq_zero idle (fun _ => 1) fun _ _ => 0
    simp only [live, Nat.add_eq_zero_iff, Finset.sum_eq_zero_iff, one_ne_zero] at empty
    exact Finset.eq_empty_of_forall_notMem fun range mem => empty.1 range mem
  have restNodup := (nodup_cons.mp nodup).2
  have fresh : ∀ range ∈ rest, range ∉ view.queue.file idx := by simp [noneQueued]
  rcases accounts.queue.extend restNodup fresh with ⟨queue, extendEq, wf, fileEq, -⟩
  have queuedShape := accounts.toShape.extend wf
    (fun range mem => ne range (mem_cons_of_mem first mem)) fileEq
  refine ⟨queue, extendEq, ?_⟩
  set registered : RangeView := { view with
    queue
    outstanding := update view.outstanding idx (some (first :: rest).length)
    history := view.history.register idx ranges } with registeredEq
  have shape : registered.Shape := ⟨queuedShape.queue, queuedShape.nonempty, queuedShape.nodup,
    queuedShape.below, queuedShape.started⟩
  have totals : ∀ queued flight other,
      (registered.claim idx first none).live queued flight other =
        view.live queued flight other + if idx = other then
          flight first.off (.claimed idx first none) + (rest.map queued).sum else 0 := by
    intro queued flight other
    rw [live_claim shape.fresh]
    change (view.setQueue queue).live queued flight other + _ = _
    rw [live_extend restNodup fresh fileEq]
    split <;> omega
  have others : ∀ {other}, idx ≠ other →
      (registered.claim idx first none).pieces other = view.pieces other := by
    intro other diff
    rw [pieces, pieces, totals, if_neg diff, Nat.add_zero]
  have this : (registered.claim idx first none).pieces idx = rest.length + 1 := by
    rw [pieces, totals, live_eq_zero idle]
    simp [Nat.add_comm]
  refine ⟨shape.claim idx first none, ?_, ?_, ?_, ?_⟩
  · intro other
    change update view.outstanding idx _ other = _
    by_cases same : idx = other
    · subst same
      rw [update_self, this, if_neg (Nat.succ_ne_zero _), length_cons]
    · rw [update_of_ne (Ne.symm same), others same]
      exact accounts.outstanding other
  · intro other byte
    rw [accounted, holders, totals]
    by_cases same : idx = other
    · subst same
      rw [live_eq_zero idle]
      have whole := shares byte
      simpa [registeredEq, RangeView.claim, RangeHistory.claim, RangeHistory.register,
        RangeState.claimed, between_off_stop, cover] using whole
    · rw [if_neg same]
      simpa [accounted, holders, registeredEq, RangeView.claim, RangeHistory.claim,
        RangeHistory.register, update_of_ne (Ne.symm same)]
        using accounts.conserved other byte
  · intro other byte
    by_cases same : idx = other
    · subst same
      simpa [registeredEq, RangeView.claim, RangeHistory.claim, RangeHistory.register]
        using once byte
    · simpa [registeredEq, RangeView.claim, RangeHistory.claim, RangeHistory.register,
        update_of_ne (Ne.symm same)] using accounts.once other byte
  · intro other
    by_cases same : idx = other
    · subst same
      rw [this]
      simp [registeredEq, RangeView.claim, RangeHistory.claim, RangeHistory.register, given]
    · rw [others same]
      simpa [registeredEq, RangeView.claim, RangeHistory.claim, RangeHistory.register,
        update_of_ne (Ne.symm same)] using accounts.closed other

end RangeView.Accounts

end Syq.Sched
