import Syq.Lib.Collections

/-!
# The byte ledger of a signed grant

A grant signs a ceiling on the bytes its files may occupy.  A preparation reserves
the size it declares, and files are told apart by destination path and partial.  An
observation holds its size provisionally until it is settled, any other preparation
retains it.  The ledger keeps the reservations of the files in flight and the total
of everything reserved and published so far.
-/

namespace Syq.Restricted

open Syq.Lib List Option

abbrev Path := List UInt8

abbrev CopyId := BitVec 128

/-- A file the copy writes: its destination path and its partial. -/
abbrev FileKey := Path × CopyId

/-- One file's count against the entry limit, shared by the requests that may
create or open it. -/
structure EntryCharge where
  holders : Nat
  made : Bool
  deriving DecidableEq

structure ByteReservation where
  retained : Option Nat
  /-- The provisional sizes by hold. -/
  observations : List (Nat × Nat)
  entry : Option EntryCharge
  /-- Which reservation of its key this is. -/
  instance_ : Nat
  deriving DecidableEq

namespace ByteReservation

/-- The sizes a reservation keeps: the retained one and those of its holds. -/
def sizes (reservation : ByteReservation) : List Nat :=
  reservation.retained.toList ++ reservation.observations.map Prod.snd

def effectiveSize (reservation : ByteReservation) : Option Nat :=
  reservation.sizes.max?

/-- What a reservation adds to the total. -/
def size (reservation : ByteReservation) : Nat :=
  reservation.effectiveSize.getD 0

/-- Keep `size` beyond the request that declared it. -/
def retain (reservation : ByteReservation) (size : Nat) : ByteReservation :=
  { reservation with
    retained := some (reservation.retained.elim size fun retained => max retained size) }

/-- Hold `size` until hold `hold` is settled. -/
def observe (reservation : ByteReservation) (hold size : Nat) : ByteReservation :=
  { reservation with observations := (hold, size) :: reservation.observations }

/-- Remove a hold. -/
def release (reservation : ByteReservation) (hold : Nat) : ByteReservation :=
  { reservation with
    observations := reservation.observations.filter fun observation => observation.1 ≠ hold }

/-- Remove a hold on `size`, keeping the size or not. -/
def settle (reservation : ByteReservation) (hold size : Nat) (retain : Bool) : ByteReservation :=
  if retain then (reservation.release hold).retain size else reservation.release hold

end ByteReservation

structure Ledger where
  reserved : Table FileKey ByteReservation
  reservedBytes : Nat
  nextHold : Nat
  nextInstance : Nat

namespace Ledger

/-- Nothing reserved. -/
def empty : Ledger where
  reserved := ∅
  reservedBytes := 0
  nextHold := 0
  nextInstance := 0

/-- `reserved.entry(key).or_insert_with(..)`: the reservation of a key, a new one if
it has none, and the instance counter after that. -/
def entryOrNew (ledger : Ledger) (key : FileKey) : ByteReservation × Nat :=
  match ledger.reserved.lookup key with
  | some reservation => (reservation, ledger.nextInstance)
  | none => (⟨none, [], none, ledger.nextInstance + 1⟩, ledger.nextInstance + 1)

/-- The size a key has reserved, if it is in the ledger. -/
def effective (ledger : Ledger) (key : FileKey) : Option Nat :=
  (ledger.reserved.lookup key).bind ByteReservation.effectiveSize

/-- The total once a key declares `size`: a declaration only grows. -/
def totalWith (ledger : Ledger) (key : FileKey) (size : Nat) : Nat :=
  let previous := ledger.effective key
  let effective := previous.elim size fun previous => max previous size
  ledger.reservedBytes + (effective - previous.getD 0)

/-- Charge the size a prepared or seeded file will occupy, once per file at the
largest size declared for it. -/
def reserveBytes (maxTotalBytes : Nat) (ledger : Ledger) (key : FileKey) (size : Nat)
    (observationOnly : Bool) : Except String (Option Nat) × Ledger :=
  let total := ledger.totalWith key size
  if u64Max < total then
    (.error "signed reservation byte counter overflow", ledger)
  else if maxTotalBytes < total then
    (.error "signed grant total-byte limit exceeded by file preparation", ledger)
  else
    let (reservation, nextInstance) := ledger.entryOrNew key
    if observationOnly then
      if u64Max < ledger.nextHold + 1 then
        (.error "reservation hold counter overflow", ledger)
      else
        (.ok (some ledger.nextHold), { ledger with
          reserved := ledger.reserved.insert key (reservation.observe ledger.nextHold size)
          reservedBytes := total
          nextHold := ledger.nextHold + 1
          nextInstance })
    else
      (.ok none, { ledger with
        reserved := ledger.reserved.insert key (reservation.retain size)
        reservedBytes := total
        nextInstance })

/-- Store a reservation under its key, or drop it when it keeps no size. -/
def store (ledger : Ledger) (key : FileKey) (reservation : ByteReservation) :
    Table FileKey ByteReservation :=
  if reservation.effectiveSize.isNone then ledger.reserved.erase key
  else ledger.reserved.insert key reservation

/-- Settle one observation's hold, keeping its size or giving it back.  `none` is a
reservation without a size or an underflow. -/
def settleObservationReservation (ledger : Ledger) (key : FileKey) (hold : Nat)
    (retain : Bool) : Option Ledger :=
  match ledger.reserved.lookup key with
  | none => some ledger
  | some reservation => do
      let before ← reservation.effectiveSize
      match reservation.observations.lookup hold with
      | none => return ledger
      | some size =>
        let settled := reservation.settle hold size retain
        let freed ← checkedSub before settled.size
        let reservedBytes ← checkedSub ledger.reservedBytes freed
        return { ledger with reservedBytes, reserved := ledger.store key settled }

/-- Release the holds of the patches of a refused request. -/
def releasePatchHolds (ledger : Ledger) : List (FileKey × Nat) → Option Ledger
  | [] => some ledger
  | (key, hold) :: rest => do
      let ledger ← ledger.settleObservationReservation key hold false
      ledger.releasePatchHolds rest

/-- A published file leaves the ledger; its bytes stay counted. -/
def removePublished (ledger : Ledger) (key : FileKey) : Ledger :=
  { ledger with reserved := ledger.reserved.erase key }

end Ledger

/-! ## Sizes of one reservation -/

namespace ByteReservation

variable (reservation : ByteReservation)

theorem effectiveSize_eq :
    reservation.effectiveSize =
      if reservation.sizes = [] then none else some reservation.size := by
  by_cases empty : reservation.sizes = []
  · simp [effectiveSize, empty]
  · simp [size, effectiveSize, max?_eq_foldr, empty]

theorem size_eq : reservation.size = reservation.sizes.foldr max 0 := by
  by_cases empty : reservation.sizes = []
  · simp [size, effectiveSize, empty]
  · simp [size, effectiveSize, max?_eq_foldr, empty]

@[simp]
theorem size_retain (size : Nat) : (reservation.retain size).size = max reservation.size size := by
  simp only [size_eq, sizes, retain, foldr_max_append]
  cases reservation.retained with
  | none => simp [Nat.max_comm]
  | some retained =>
    simp only [elim_some, toList_some, foldr_cons]
    omega

@[simp]
theorem size_observe (hold size : Nat) :
    (reservation.observe hold size).size = max reservation.size size := by
  simp only [size_eq, sizes, observe, foldr_max_append, map_cons, foldr_cons]
  omega

theorem sizes_retain_ne_nil (size : Nat) : (reservation.retain size).sizes ≠ [] := by
  simp [sizes, retain]

theorem sizes_observe_ne_nil (hold size : Nat) : (reservation.observe hold size).sizes ≠ [] := by
  simp [sizes, observe]

/-- Releasing a hold never makes a reservation larger. -/
theorem size_release_le (hold : Nat) : (reservation.release hold).size ≤ reservation.size := by
  rw [size_eq, size_eq]
  refine foldr_max_le fun item mem => le_foldr_max ?_
  simp only [sizes, release, List.mem_append, List.mem_map, List.mem_filter] at mem ⊢
  rcases mem with retained | ⟨observation, ⟨observed, -⟩, rfl⟩
  · exact .inl retained
  · exact .inr ⟨observation, observed, rfl⟩

/-- Settling a hold leaves at least the other holds and the retained size. -/
theorem size_release_le_settle (hold size : Nat) (retain : Bool) :
    (reservation.release hold).size ≤ (reservation.settle hold size retain).size := by
  cases retain <;> simp [settle]

variable {reservation}

/-- A held size is no larger than the reservation. -/
theorem le_size_of_lookup {hold size : Nat}
    (held : reservation.observations.lookup hold = some size) : size ≤ reservation.size := by
  rcases lookup_eq_some_iff.mp held with ⟨before, after, observed, -⟩
  rw [size_eq]
  refine le_foldr_max (mem_append_right _ (mem_map.mpr ⟨(hold, size), ?_, rfl⟩))
  rw [observed]
  exact mem_append_right before mem_cons_self

/-- Settling a hold never makes a reservation larger. -/
theorem size_settle_le {hold size : Nat}
    (held : reservation.observations.lookup hold = some size) (retain : Bool) :
    (reservation.settle hold size retain).size ≤ reservation.size := by
  have others := reservation.size_release_le hold
  cases retain with
  | false => simpa [settle] using others
  | true => simpa [settle] using Nat.max_le.mpr ⟨others, le_size_of_lookup held⟩

theorem observe_ne (hold size : Nat) : reservation.observe hold size ≠ reservation := by
  intro same
  have lengths := congrArg (fun reservation => reservation.observations.length) same
  simp [observe] at lengths

end ByteReservation

namespace Ledger

/-! ## The invariant of the ledger -/

/-- What holds of a ledger under a ceiling, when files of `published` bytes have left
it: every reservation keeps a size, holds and instances are numbered without
repetition, and the total counts each reservation once at its largest size. -/
structure Wf (maxTotalBytes published : Nat) (ledger : Ledger) : Prop where
  sized : ∀ {key reservation}, ledger.reserved.lookup key = some reservation →
    reservation.sizes ≠ []
  below : ∀ {key reservation}, ledger.reserved.lookup key = some reservation →
    ∀ observation ∈ reservation.observations, observation.1 < ledger.nextHold
  numbered : ∀ {key reservation}, ledger.reserved.lookup key = some reservation →
    reservation.instance_ ≤ ledger.nextInstance
  distinct : ∀ {key other reservation otherReservation},
    ledger.reserved.lookup key = some reservation →
    ledger.reserved.lookup other = some otherReservation →
    reservation.instance_ = otherReservation.instance_ → key = other
  balance : ledger.reservedBytes =
    total (fun _ reservation => reservation.size) ledger.reserved + published
  bounded : ledger.reservedBytes ≤ maxTotalBytes

theorem wf_empty (maxTotalBytes : Nat) : empty.Wf maxTotalBytes 0 where
  sized found := by simp [empty] at found
  below found := by simp [empty] at found
  numbered found := by simp [empty] at found
  distinct found := by simp [empty] at found
  balance := by simp [empty]
  bounded := Nat.zero_le _

/-- The size of a key, zero if it has no reservation. -/
def sizeOf (ledger : Ledger) (key : FileKey) : Nat :=
  ((ledger.reserved.lookup key).map ByteReservation.size).getD 0

variable (ledger : Ledger)

include ledger

/-- Taking one key out of the total. -/
theorem total_eq_sizeOf_add (key : FileKey) :
    total (fun _ resv => resv.size) ledger.reserved =
      ledger.sizeOf key + total (fun _ resv => resv.size)
        (ledger.reserved.erase key) := by
  cases found : ledger.reserved.lookup key with
  | none =>
    rw [erase_of_lookup_none found]
    simp [sizeOf, found]
  | some resv =>
    rw [total_of_lookup _ found]
    simp [sizeOf, found]

theorem getD_effective (key : FileKey) :
    (ledger.effective key).getD 0 = ledger.sizeOf key := by
  cases found : ledger.reserved.lookup key with
  | none => simp [effective, sizeOf, found]
  | some resv => simp [effective, sizeOf, found, ByteReservation.size]

/-- Declaring a size raises the total by what it exceeds the size of its key. -/
theorem totalWith_add_sizeOf (key : FileKey) (size : Nat) :
    ledger.totalWith key size + ledger.sizeOf key =
      ledger.reservedBytes + max (ledger.sizeOf key) size := by
  rw [totalWith, ← getD_effective]
  cases ledger.effective key with
  | none => simp
  | some prev =>
    simp only [elim_some, getD_some]
    omega

theorem size_entryOrNew (key : FileKey) :
    (ledger.entryOrNew key).1.size = ledger.sizeOf key := by
  cases found : ledger.reserved.lookup key with
  | none => simp [entryOrNew, sizeOf, found, ByteReservation.size_eq, ByteReservation.sizes]
  | some resv => simp [entryOrNew, sizeOf, found]

theorem nextInstance_le_entryOrNew (key : FileKey) :
    ledger.nextInstance ≤ (ledger.entryOrNew key).2 := by
  cases found : ledger.reserved.lookup key <;> simp [entryOrNew, found]

omit ledger

variable {next : Ledger} {key : FileKey} {observationOnly : Bool}

/-- What a granted reservation leaves: a fresh hold for an observation, a retained size
otherwise. -/
theorem reserveBytes_ok {maxTotalBytes : Nat} {ledger : Ledger} {size : Nat} {hold : Option Nat}
    (granted : ledger.reserveBytes maxTotalBytes key size observationOnly = (.ok hold, next)) :
    if observationOnly then
      hold = some ledger.nextHold ∧ next =
        ⟨ledger.reserved.insert key ((ledger.entryOrNew key).1.observe ledger.nextHold size),
          ledger.totalWith key size, ledger.nextHold + 1, (ledger.entryOrNew key).2⟩
    else
      hold = none ∧ next =
        ⟨ledger.reserved.insert key ((ledger.entryOrNew key).1.retain size),
          ledger.totalWith key size, ledger.nextHold, (ledger.entryOrNew key).2⟩ := by
  unfold reserveBytes at granted
  dsimp only at granted
  split at granted
  · cases granted
  split at granted
  · cases granted
  split at granted
  · rename_i observing
    split at granted
    · cases granted
    · cases granted
      simp [observing]
  · rename_i retaining
    cases granted
    simp [retaining]

/-- A refused reservation changes nothing. -/
theorem reserveBytes_error {maxTotalBytes : Nat} {ledger : Ledger} {size : Nat} {msg : String}
    (refused : ledger.reserveBytes maxTotalBytes key size observationOnly =
      (.error msg, next)) : next = ledger := by
  unfold reserveBytes at refused
  dsimp only at refused
  split at refused
  · exact (Prod.mk.inj refused).2.symm
  split at refused
  · exact (Prod.mk.inj refused).2.symm
  split at refused
  · split at refused
    · exact (Prod.mk.inj refused).2.symm
    · cases refused
  · cases refused

namespace Wf

variable {maxTotalBytes published : Nat} {ledger : Ledger}
variable {key : FileKey} {reservation : ByteReservation}

section

variable (wf : ledger.Wf maxTotalBytes published)

include wf

/-- One reservation is put in the ledger, new or in the place of the old one. -/
theorem insert {reservedBytes nextHold nextInstance : Nat} (sized : reservation.sizes ≠ [])
    (moreHolds : ledger.nextHold ≤ nextHold)
    (below : ∀ observation ∈ reservation.observations, observation.1 < nextHold)
    (moreInstances : ledger.nextInstance ≤ nextInstance)
    (numbered : reservation.instance_ ≤ nextInstance)
    (distinct : ∀ {other otherResv}, ledger.reserved.lookup other = some otherResv →
      reservation.instance_ = otherResv.instance_ → key = other)
    (balance : reservedBytes + ledger.sizeOf key = ledger.reservedBytes + reservation.size)
    (bounded : reservedBytes ≤ maxTotalBytes) :
    Wf maxTotalBytes published
      ⟨ledger.reserved.insert key reservation, reservedBytes, nextHold, nextInstance⟩ := by
  refine ⟨forall_of_insert wf.sized sized, ?_, ?_, ?_, ?_, bounded⟩
  · exact forall_of_insert (fun old observation observed =>
      Nat.lt_of_lt_of_le (wf.below old observation observed) moreHolds) below
  · exact forall_of_insert (fun old => Nat.le_trans (wf.numbered old) moreInstances) numbered
  · intro first second firstFound secondFound firstEq secondEq same
    rcases cases_of_insert firstEq with ⟨rfl, rfl⟩ | ⟨-, firstOld⟩ <;>
      rcases cases_of_insert secondEq with ⟨rfl, rfl⟩ | ⟨-, secondOld⟩
    · rfl
    · exact distinct secondOld same
    · exact (distinct firstOld same.symm).symm
    · exact wf.distinct firstOld secondOld same
  · have before := wf.balance
    have parts := ledger.total_eq_sizeOf_add key
    change reservedBytes = total _ (ledger.reserved.insert key reservation) + published
    rw [total_insert]
    omega

/-- One reservation leaves the ledger; its bytes are given back or stay counted. -/
theorem erase {reservedBytes nowPub : Nat}
    (balance : reservedBytes + ledger.sizeOf key + published =
      ledger.reservedBytes + nowPub) (bounded : reservedBytes ≤ maxTotalBytes) :
    Wf maxTotalBytes nowPub { ledger with
      reserved := ledger.reserved.erase key, reservedBytes } := by
  refine ⟨fun found => wf.sized (lookup_of_erase found),
    fun found => wf.below (lookup_of_erase found),
    fun found => wf.numbered (lookup_of_erase found),
    fun first second => wf.distinct (lookup_of_erase first) (lookup_of_erase second), ?_, bounded⟩
  have before := wf.balance
  have parts := ledger.total_eq_sizeOf_add key
  change reservedBytes = total _ (ledger.reserved.erase key) + nowPub
  omega

theorem entryOrNew_below (key : FileKey) :
    ∀ observation ∈ (ledger.entryOrNew key).1.observations, observation.1 < ledger.nextHold := by
  cases found : ledger.reserved.lookup key with
  | none => simp [entryOrNew, found]
  | some reservation =>
    simp only [entryOrNew, found]
    exact wf.below found

theorem entryOrNew_numbered (key : FileKey) :
    (ledger.entryOrNew key).1.instance_ ≤ (ledger.entryOrNew key).2 := by
  cases found : ledger.reserved.lookup key with
  | none => simp [entryOrNew, found]
  | some reservation =>
    simp only [entryOrNew, found]
    exact wf.numbered found

theorem entryOrNew_distinct (key : FileKey) {other : FileKey} {otherResv : ByteReservation}
    (stored : ledger.reserved.lookup other = some otherResv)
    (same : (ledger.entryOrNew key).1.instance_ = otherResv.instance_) : key = other := by
  cases found : ledger.reserved.lookup key with
  | none =>
    have old := wf.numbered stored
    simp only [entryOrNew, found] at same
    omega
  | some reservation =>
    simp only [entryOrNew, found] at same
    exact wf.distinct found stored same

/-- A reservation keeps the ledger well formed, refused or granted. -/
theorem reserveBytes (key : FileKey) (size : Nat) (observationOnly : Bool) :
    (ledger.reserveBytes maxTotalBytes key size observationOnly).2.Wf maxTotalBytes published := by
  have grows := ledger.totalWith_add_sizeOf key size
  have sizeEq := ledger.size_entryOrNew key
  have moreInstances := ledger.nextInstance_le_entryOrNew key
  unfold Ledger.reserveBytes
  dsimp only
  split
  · exact wf
  split
  · exact wf
  rename_i fits
  have bounded : ledger.totalWith key size ≤ maxTotalBytes := Nat.le_of_not_lt fits
  cases observationOnly with
  | true =>
    rw [if_pos rfl]
    split
    · exact wf
    · refine wf.insert (ByteReservation.sizes_observe_ne_nil _ _ _) (Nat.le_succ _) ?_
        moreInstances (wf.entryOrNew_numbered key) (wf.entryOrNew_distinct key) ?_ bounded
      · exact forall_mem_cons.mpr ⟨Nat.lt_succ_self _, fun observation old =>
          Nat.lt_succ_of_lt (wf.entryOrNew_below key observation old)⟩
      · rw [ByteReservation.size_observe, sizeEq]
        exact grows
  | false =>
    refine wf.insert (ByteReservation.sizes_retain_ne_nil _ _) (Nat.le_refl _)
      (wf.entryOrNew_below key) moreInstances (wf.entryOrNew_numbered key)
      (wf.entryOrNew_distinct key) ?_ bounded
    rw [ByteReservation.size_retain, sizeEq]
    exact grows

theorem of_reserveBytes {size : Nat} {hold : Option Nat}
    (granted : ledger.reserveBytes maxTotalBytes key size observationOnly = (.ok hold, next)) :
    next.Wf maxTotalBytes published := by
  have nextWf := wf.reserveBytes key size observationOnly
  rwa [granted] at nextWf

end

theorem sizeOf_of_lookup (found : ledger.reserved.lookup key = some reservation) :
    ledger.sizeOf key = reservation.size := by
  simp [Ledger.sizeOf, found]

section

variable (wf : ledger.Wf maxTotalBytes published)

include wf

/-- A key's size is part of the total. -/
theorem sizeOf_le (key : FileKey) : ledger.sizeOf key ≤ ledger.reservedBytes := by
  have parts := ledger.total_eq_sizeOf_add key
  have balance := wf.balance
  omega

/-- Storing a smaller reservation of the same instance in the place of the old one. -/
theorem store {settled : ByteReservation} (found : ledger.reserved.lookup key = some reservation)
    (sameInstance : settled.instance_ = reservation.instance_)
    (observations : ∀ observation ∈ settled.observations, observation ∈ reservation.observations)
    (smaller : settled.size ≤ reservation.size) :
    Wf maxTotalBytes published { ledger with
      reservedBytes := ledger.reservedBytes - (reservation.size - settled.size)
      reserved := ledger.store key settled } := by
  have sizeEq := sizeOf_of_lookup found
  have inTotal := wf.sizeOf_le key
  have bounded := wf.bounded
  by_cases empty : settled.sizes = []
  · have nothing : settled.size = 0 := by rw [ByteReservation.size_eq, empty]; rfl
    have stored : ledger.store key settled = ledger.reserved.erase key := by
      simp [Ledger.store, ByteReservation.effectiveSize_eq, empty]
    rw [stored]
    exact wf.erase (by omega) (by omega)
  · have stored : ledger.store key settled = ledger.reserved.insert key settled := by
      simp [Ledger.store, ByteReservation.effectiveSize_eq, empty]
    rw [stored]
    refine wf.insert empty (Nat.le_refl _)
      (fun observation observed => wf.below found observation (observations observation observed))
      (Nat.le_refl _) (sameInstance ▸ wf.numbered found)
      (fun other same => wf.distinct found other (sameInstance ▸ same)) (by omega) (by omega)

/-- Settling a hold never fails.  It changes nothing if the hold is gone; otherwise it
gives back what the reservation of the key no longer needs. -/
theorem settle (key : FileKey) (hold : Nat) (retain : Bool) :
    ∃ next, ledger.settleObservationReservation key hold retain = some next ∧
      next.Wf maxTotalBytes published ∧
      ((next = ledger ∧ ∀ reservation, ledger.reserved.lookup key = some reservation →
          reservation.observations.lookup hold = none) ∨
        ∃ reservation size, ledger.reserved.lookup key = some reservation ∧
          reservation.observations.lookup hold = some size ∧ next = { ledger with
            reservedBytes := ledger.reservedBytes -
              (reservation.size - (reservation.settle hold size retain).size)
            reserved := ledger.store key (reservation.settle hold size retain) }) := by
  cases found : ledger.reserved.lookup key with
  | none => exact ⟨ledger, by simp [settleObservationReservation, found], wf, by simp⟩
  | some reservation =>
    have sized : reservation.effectiveSize = some reservation.size := by
      rw [ByteReservation.effectiveSize_eq, if_neg (wf.sized found)]
    cases held : reservation.observations.lookup hold with
    | none =>
      exact ⟨ledger, by simp [settleObservationReservation, found, sized, held], wf,
        .inl ⟨rfl, by simpa using held⟩⟩
    | some size =>
      have smaller := ByteReservation.size_settle_le held retain
      have inTotal := wf.sizeOf_le key
      rw [sizeOf_of_lookup found] at inTotal
      have freed := @checkedSub_of_le reservation.size
        (reservation.settle hold size retain).size (by omega)
      have left := @checkedSub_of_le ledger.reservedBytes
        (reservation.size - (reservation.settle hold size retain).size) (by omega)
      refine ⟨_, ?_, wf.store found ?_ ?_ smaller, .inr ⟨reservation, size, rfl, held, rfl⟩⟩
      · simp [settleObservationReservation, found, sized, held, freed, left]
      · cases retain <;> rfl
      · intro observation observed
        cases retain <;> exact mem_of_mem_filter observed

/-- A published file's bytes stay counted. -/
theorem removePublished (key : FileKey) :
    (ledger.removePublished key).Wf maxTotalBytes (published + ledger.sizeOf key) :=
  wf.erase (by omega) wf.bounded

/-- The patches of a refused request give their holds back, all of them. -/
theorem releasePatchHolds (holds : List (FileKey × Nat)) :
    ∃ next, ledger.releasePatchHolds holds = some next ∧ next.Wf maxTotalBytes published := by
  induction holds generalizing ledger with
  | nil => exact ⟨ledger, rfl, wf⟩
  | cons hold rest ih =>
    rcases wf.settle hold.1 hold.2 false with ⟨next, settled, nextWf, -⟩
    rcases ih nextWf with ⟨last, restEq, lastWf⟩
    exact ⟨last, by simp [Ledger.releasePatchHolds, settled, restEq], lastWf⟩

/-- The count of a file is no part of the ledger's balance. -/
theorem withEntry (found : ledger.reserved.lookup key = some reservation)
    (entry : Option EntryCharge) :
    Wf maxTotalBytes published { ledger with
      reserved := ledger.reserved.insert key { reservation with entry } } := by
  have sized := wf.sized found
  have below := wf.below found
  have numbered := wf.numbered found
  refine wf.insert sized (Nat.le_refl _) below (Nat.le_refl _) numbered
    (fun other same => wf.distinct found other same) ?_ wf.bounded
  rw [sizeOf_of_lookup found]
  rfl

end

end Wf

/-! ## Instances and counts

What happens to the bytes of a reservation leaves its instance and the count of its
file alone. -/

/-- Each reservation of `after` is one of `before` with the same instance and count,
or a new one that counts nothing yet. -/
structure Keeps (before after : Ledger) : Prop where
  nextInstance : before.nextInstance ≤ after.nextInstance
  entry : ∀ {key reservation}, after.reserved.lookup key = some reservation →
    (∃ old, before.reserved.lookup key = some old ∧ old.instance_ = reservation.instance_ ∧
      old.entry = reservation.entry) ∨
    (before.nextInstance < reservation.instance_ ∧ reservation.entry = none)

namespace Keeps

variable {ledger : Ledger}

theorem refl (ledger : Ledger) : Keeps ledger ledger :=
  ⟨Nat.le_refl _, fun found => .inl ⟨_, found, rfl, rfl⟩⟩

theorem trans {first second third : Ledger} (one : Keeps first second) (two : Keeps second third) :
    Keeps first third := by
  refine ⟨Nat.le_trans one.nextInstance two.nextInstance, ?_⟩
  intro key resv found
  rcases two.entry found with ⟨middle, middleFound, sameInstance, sameEntry⟩ | ⟨new, none_⟩
  · rcases one.entry middleFound with ⟨old, oldFound, oldInstance, oldEntry⟩ | ⟨new, none_⟩
    · exact .inl ⟨old, oldFound, oldInstance.trans sameInstance, oldEntry.trans sameEntry⟩
    · exact .inr ⟨sameInstance ▸ new, sameEntry ▸ none_⟩
  · exact .inr ⟨Nat.lt_of_le_of_lt one.nextInstance new, none_⟩

/-- Putting a reservation with the instance and count that `entryOrNew` gives. -/
theorem insert {resv : ByteReservation} {reservedBytes nextHold : Nat}
    (sameInstance : resv.instance_ = (ledger.entryOrNew key).1.instance_)
    (sameEntry : resv.entry = (ledger.entryOrNew key).1.entry) :
    Keeps ledger ⟨ledger.reserved.insert key resv, reservedBytes, nextHold,
      (ledger.entryOrNew key).2⟩ := by
  refine ⟨ledger.nextInstance_le_entryOrNew key, ?_⟩
  intro other found lookupEq
  rcases cases_of_insert lookupEq with ⟨rfl, rfl⟩ | ⟨-, old⟩
  · rw [sameInstance, sameEntry]
    cases stored : ledger.reserved.lookup other with
    | none => exact .inr (by simp [entryOrNew, stored])
    | some old => exact .inl ⟨old, rfl, by simp [entryOrNew, stored]⟩
  · exact .inl ⟨found, old, rfl, rfl⟩

theorem erase (ledger : Ledger) (key : FileKey) (reservedBytes : Nat) :
    Keeps ledger { ledger with reserved := ledger.reserved.erase key, reservedBytes } :=
  ⟨Nat.le_refl _, fun found => .inl ⟨_, lookup_of_erase found, rfl, rfl⟩⟩

theorem reserveBytes (maxTotalBytes : Nat) (ledger : Ledger) (key : FileKey) (size : Nat)
    (observationOnly : Bool) :
    Keeps ledger (ledger.reserveBytes maxTotalBytes key size observationOnly).2 := by
  unfold Ledger.reserveBytes
  dsimp only
  split
  · exact refl ledger
  split
  · exact refl ledger
  split
  · split
    · exact refl ledger
    · exact insert rfl rfl
  · exact insert rfl rfl

theorem settle {hold : Nat} {retain : Bool}
    (settled : ledger.settleObservationReservation key hold retain = some next) :
    Keeps ledger next := by
  unfold settleObservationReservation at settled
  split at settled
  · rw [← some.inj settled]
    exact refl ledger
  · rename_i reservation found
    rcases bind_eq_some_iff.mp settled with ⟨before, -, rest⟩
    split at rest
    · rw [← some.inj rest]
      exact refl ledger
    · rename_i size held
      rcases bind_eq_some_iff.mp rest with ⟨freed, -, rest⟩
      rcases bind_eq_some_iff.mp rest with ⟨reservedBytes, -, rest⟩
      rw [← some.inj rest]
      have new : ledger.entryOrNew key = (reservation, ledger.nextInstance) := by
        simp [entryOrNew, found]
      unfold store
      split
      · exact erase ledger key reservedBytes
      · have kept : Keeps ledger ⟨ledger.reserved.insert key (reservation.settle hold size retain),
            reservedBytes, ledger.nextHold, (ledger.entryOrNew key).2⟩ :=
          insert (by rw [new]; cases retain <;> rfl) (by rw [new]; cases retain <;> rfl)
        rwa [new] at kept

theorem releasePatchHolds {holds : List (FileKey × Nat)}
    (released : ledger.releasePatchHolds holds = some next) : Keeps ledger next := by
  induction holds generalizing ledger with
  | nil =>
    rw [← some.inj released]
    exact refl ledger
  | cons hold rest ih =>
    rcases bind_eq_some_iff.mp released with ⟨middle, settled, tail⟩
    exact (settle settled).trans (ih tail)

end Keeps

end Ledger

/-- A reservation without some of the holds on its key. -/
def ByteReservation.without (reservation : ByteReservation) (holds : List (FileKey × Nat))
    (key : FileKey) : ByteReservation :=
  { reservation with
    observations := reservation.observations.filter fun observation =>
      decide ((key, observation.1) ∉ holds) }

theorem ByteReservation.sizes_without_eq_nil {resv : ByteReservation}
    {holds : List (FileKey × Nat)} {key : FileKey} (empty : resv.sizes = []) :
    (resv.without holds key).sizes = [] := by
  simp only [ByteReservation.sizes, append_eq_nil_iff, map_eq_nil_iff] at empty ⊢
  exact ⟨empty.1, by simp [ByteReservation.without, empty.2]⟩

namespace Ledger

variable {maxTotalBytes published : Nat} {ledger : Ledger}

/-- The reservation of a key once some holds are released. -/
def lookupWithout (ledger : Ledger) (holds : List (FileKey × Nat)) (key : FileKey) :
    Option ByteReservation :=
  (ledger.reserved.lookup key).bind fun reservation =>
    if (reservation.without holds key).sizes = [] then none
    else some (reservation.without holds key)

theorem Wf.lookupWithout_nil (wf : ledger.Wf maxTotalBytes published) (key : FileKey) :
    ledger.lookupWithout [] key = ledger.reserved.lookup key := by
  cases found : ledger.reserved.lookup key with
  | none => simp [lookupWithout, found]
  | some reservation =>
    have same : reservation.without [] key = reservation := by
      simp [ByteReservation.without]
    simp [lookupWithout, found, same, wf.sized found]

theorem lookup_store (ledger : Ledger) (key : FileKey) (reservation : ByteReservation) :
    (ledger.store key reservation).lookup key =
      if reservation.sizes = [] then none else some reservation := by
  by_cases empty : reservation.sizes = []
  · simp [store, ByteReservation.effectiveSize_eq, empty]
  · simp [store, ByteReservation.effectiveSize_eq, empty]

theorem lookup_store_of_ne (ledger : Ledger) {key other : FileKey} (resv : ByteReservation)
    (diff : other ≠ key) :
    (ledger.store key resv).lookup other = ledger.reserved.lookup other := by
  unfold store
  split
  · exact Finmap.lookup_erase_ne diff
  · exact Finmap.lookup_insert_of_ne _ diff

variable (wf : ledger.Wf maxTotalBytes published)

include wf

/-- Settling one hold without keeping its size, as seen from any key. -/
theorem Wf.lookupWithout_settle {next : Ledger} {key : FileKey} {hold : Nat}
    (settled : ledger.settleObservationReservation key hold false = some next)
    (holds : List (FileKey × Nat)) (other : FileKey) :
    next.lookupWithout holds other = ledger.lookupWithout ((key, hold) :: holds) other := by
  rcases wf.settle key hold false with ⟨_, nextEq, -, either⟩
  rw [settled] at nextEq
  cases nextEq
  rcases either with ⟨rfl, gone⟩ | ⟨reservation, size, found, held, rfl⟩
  · cases stored : next.reserved.lookup other with
    | none => simp [lookupWithout, stored]
    | some reservation =>
      have without : reservation.without ((key, hold) :: holds) other =
          reservation.without holds other := by
        unfold ByteReservation.without
        congr 1
        refine filter_congr fun observation observed => ?_
        have different : (other, observation.1) ≠ (key, hold) := by
          rintro ⟨⟩
          exact absurd (gone reservation stored) (by
            rw [lookup_eq_none_iff]
            intro none_
            simpa using none_ observation observed)
        simp [different]
      simp only [lookupWithout, stored, bind_some, without]
  · change lookupWithout ⟨ledger.store key (reservation.release hold), _, _, _⟩ holds other = _
    by_cases same : other = key
    · subst same
      have without : (reservation.release hold).without holds other =
          reservation.without ((other, hold) :: holds) other := by
        simp only [ByteReservation.release, ByteReservation.without, List.filter_filter]
        congr 1
        refine List.filter_congr fun observation _ => ?_
        simp [Bool.and_comm]
      by_cases empty : (reservation.release hold).sizes = []
      · have emptied : (reservation.without ((other, hold) :: holds) other).sizes = [] :=
          without ▸ ByteReservation.sizes_without_eq_nil empty
        simp [lookupWithout, ledger.lookup_store, empty, found, emptied]
      · simp [lookupWithout, ledger.lookup_store, empty, found, without]
    · have kept := ledger.lookup_store_of_ne (reservation.release hold) same
      have notHold : ∀ number, (other, number) ≠ (key, hold) := by
        rintro number ⟨⟩
        exact same rfl
      simp only [lookupWithout, kept]
      simp [ByteReservation.without, notHold]

/-- A fresh hold does not show once it is released with the others. -/
theorem Wf.lookupWithout_observe (key : FileKey)
    (size reservedBytes : Nat) (holds : List (FileKey × Nat)) (other : FileKey) :
    lookupWithout ⟨ledger.reserved.insert key
        ((ledger.entryOrNew key).1.observe ledger.nextHold size), reservedBytes,
        ledger.nextHold + 1, (ledger.entryOrNew key).2⟩ (holds ++ [(key, ledger.nextHold)]) other =
      ledger.lookupWithout holds other := by
  by_cases same : other = key
  · subst same
    have without : ((ledger.entryOrNew other).1.observe ledger.nextHold size).without
        (holds ++ [(other, ledger.nextHold)]) other =
          (ledger.entryOrNew other).1.without holds other := by
      simp only [ByteReservation.observe, ByteReservation.without]
      congr 1
      rw [filter_cons_of_neg (by simp)]
      refine filter_congr fun observation observed => ?_
      have older := wf.entryOrNew_below other observation observed
      have different : observation.1 ≠ ledger.nextHold := Nat.ne_of_lt older
      simp [different]
    cases found : ledger.reserved.lookup other with
    | none =>
      have empty : ((ledger.entryOrNew other).1.without holds other).sizes = [] := by
        simp [entryOrNew, found, ByteReservation.without, ByteReservation.sizes]
      simp [lookupWithout, found, without, empty]
    | some reservation =>
      have known : (ledger.entryOrNew other).1 = reservation := by simp [entryOrNew, found]
      rw [known] at without
      simp [lookupWithout, found, without, known]
  · have notHold : ∀ number, (other, number) ≠ (key, ledger.nextHold) := by
      rintro number ⟨⟩
      exact same rfl
    simp only [lookupWithout, Finmap.lookup_insert_of_ne _ same]
    simp [ByteReservation.without, notHold]

/-- What releasing holds leaves of each reservation. -/
theorem Wf.lookup_releasePatchHolds {next : Ledger}
    {holds : List (FileKey × Nat)} (released : ledger.releasePatchHolds holds = some next)
    (key : FileKey) : next.reserved.lookup key = ledger.lookupWithout holds key := by
  induction holds generalizing ledger with
  | nil =>
    rw [wf.lookupWithout_nil]
    rw [← some.inj released]
  | cons hold rest ih =>
    rcases bind_eq_some_iff.mp released with ⟨middle, settled, tail⟩
    rcases wf.settle hold.1 hold.2 false with ⟨_, nextEq, middleWf, -⟩
    rw [settled] at nextEq
    cases nextEq
    rw [ih middleWf tail]
    exact wf.lookupWithout_settle settled rest key

end Ledger

end Syq.Restricted
