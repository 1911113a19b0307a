import Syq.Restricted.Request

/-!
# Charging requests against the signed limits

Every authorized request is counted against the entry, deletion and byte limits
before it executes, and gives back what the executor reports it did not change.  A
file the copy writes counts once, through its reservation, however many requests
prepare, seed or finalize it.
-/

namespace Syq.Restricted

open Syq.Lib

variable {budget : Budget}

structure Limits where
  maxEntries : Nat
  maxDeletions : Nat
  maxTotalBytes : Nat

/-- A file's reservation key and which reservation of it a request shares. -/
abbrev FileShare := FileKey × Nat

/-- What a request counted against the limits: its own changes, which of its
operations are deletions, and the file whose count it shares. -/
structure Charged where
  changes : Nat
  deleting : List Nat
  file : Option FileShare
  deriving DecidableEq

/-- The budgets of a grant. -/
structure Budget where
  ledger : Ledger
  changes : Nat
  deletions : Nat
  transferredBytes : Nat

/-! ## Charging -/

/-- The file whose shared count a request needs: one it creates, opens for writing
or publishes. -/
def chargedFile : Request → Option FileKey
  | .prepare path _ _ copyId createIfMissing update =>
    if createIfMissing || update then some (path, copyId) else none
  | .stageBasis path copyId _ | .seedBasis path copyId _ | .finalize path copyId =>
    some (path, copyId)
  | _ => none

def Op.isDeletion : Op → Bool
  | .rmdir _ | .unlink _ => true
  | _ => false

/-- The deletions of a request, by operation. -/
def deletingOps : Request → List Nat
  | .apply ops => (ops.zipIdx.filter fun op => op.1.isDeletion).map Prod.snd
  | _ => []

/-- The changes a request counts as its own, and the bytes it carries. -/
def ownCharges (ownFileChange : Bool) : Request → Nat × Nat
  | .apply ops => (ops.length, 0)
  | .putSmallBatch puts => (puts.length, (puts.map SmallPut.data).sum)
  | .patchSmallBatch patches => (patches.length, (patches.map SmallPatch.data).sum)
  | .patchBegin _ _ | .finishBasis _ => (1, 0)
  | .prepare .. | .stageBasis .. | .seedBasis .. | .finalize .. => (ownFileChange.toNat, 0)
  | .prepareSmallFiles files => (files.length, 0)
  | .copySmallFiles payloads => (0, (payloads.map SmallCopyPayload.data).sum)
  | .writeRange _ _ data | .patchData data => (0, data)
  | _ => (0, 0)

/-- What `charge_request` is about to count. -/
structure ChargePlan where
  charged : Charged
  /-- The file's shared count is charged with the request. -/
  fileCharge : Bool
  bytes : Nat

def ChargePlan.counted (plan : ChargePlan) : Nat :=
  plan.charged.changes + plan.fileCharge.toNat

def ChargePlan.deletions (plan : ChargePlan) : Nat :=
  plan.charged.deleting.length

/-- The file's count is shared through its reservation; without one, the request
counts the file as an ordinary change of its own. -/
def chargePlan (ledger : Ledger) (request : Request) : ChargePlan :=
  let (file, fileCharge, ownFileChange) :=
    match chargedFile request with
    | none => (none, false, false)
    | some key =>
      match ledger.reserved.lookup key with
      | some reservation =>
        (some (key, reservation.instance_), reservation.entry.isNone, false)
      | none => (none, false, true)
  let (changes, bytes) := ownCharges ownFileChange request
  ⟨⟨changes, deletingOps request, file⟩, fileCharge, bytes⟩

/-- A request shares the count of its file through the reservation, and charges it when
no other request has. -/
theorem chargePlan_file (ledger : Ledger) (req : Request) :
    ((chargePlan ledger req).charged.file = none ∧ (chargePlan ledger req).fileCharge = false) ∨
    ∃ key resv, ledger.reserved.lookup key = some resv ∧
      (chargePlan ledger req).charged.file = some (key, resv.instance_) ∧
      (chargePlan ledger req).fileCharge = resv.entry.isNone := by
  cases fileEq : chargedFile req with
  | none => exact .inl (by simp [chargePlan, fileEq])
  | some key =>
    cases found : ledger.reserved.lookup key with
    | none => exact .inl (by simp [chargePlan, fileEq, found])
    | some resv =>
      exact .inr ⟨key, resv, found, by simp [chargePlan, fileEq, found]⟩

/-- Add to a counter unless it would pass the limit. -/
def charge (counter amount limit : Nat) : Option Nat :=
  if amount = 0 then some counter
  else if u64Max < counter + amount ∨ limit < counter + amount then none
  else some (counter + amount)

theorem charge_eq_some {counter amount limit total : Nat}
    (charged : charge counter amount limit = some total) : total = counter + amount := by
  unfold charge at charged
  split at charged
  · rename_i nothing
    rw [nothing]
    exact (Option.some.inj charged).symm
  · split at charged
    · cases charged
    · exact (Option.some.inj charged).symm

theorem charge_le {counter amount limit total : Nat}
    (charged : charge counter amount limit = some total) (within : counter ≤ limit) :
    total ≤ limit := by
  unfold charge at charged
  split at charged
  · rwa [← Option.some.inj charged]
  · split at charged
    · cases charged
    · rw [← Option.some.inj charged]
      omega

/-- The count of a file with `holders` shares out, once a change was made or not. -/
def entryCharge (holders : Nat) (made : Bool) : Option EntryCharge :=
  if holders = 0 ∧ made = false then none else some ⟨holders, made⟩

/-- A new share of a file's count. -/
def EntryCharge.join (entry : Option EntryCharge) : EntryCharge :=
  let entry := entry.getD ⟨0, false⟩
  { entry with holders := entry.holders + 1 }

theorem EntryCharge.join_entryCharge (holders : Nat) (made : Bool) :
    some (EntryCharge.join (entryCharge holders made)) = entryCharge (holders + 1) made := by
  unfold entryCharge
  split
  · rename_i nothing
    simp [EntryCharge.join, nothing]
  · simp [EntryCharge.join]

/-- Take a share in the count of a file; its reservation must be there. -/
def Ledger.shareEntry (ledger : Ledger) : Option FileShare → Option Ledger
  | none => some ledger
  | some (key, _) => do
      let reservation ← ledger.reserved.lookup key
      return { ledger with
        reserved := ledger.reserved.insert key
          { reservation with entry := some (.join reservation.entry) } }

/-- Count an authorized request against the signed limits; nothing stays counted when
a limit would be exceeded.  `none` is a counter that wraps below zero. -/
def chargeRequest (limits : Limits) (budget : Budget) (request : Request) :
    Option (Except String Charged × Budget) :=
  let plan := chargePlan budget.ledger request
  match charge budget.changes plan.counted limits.maxEntries with
  | none => some (.error "signed grant entry limit exceeded", budget)
  | some changes =>
  match charge budget.deletions plan.deletions limits.maxDeletions with
  | none => do
      let changes ← checkedSub changes plan.counted
      return (.error "signed grant deletion limit exceeded", { budget with changes })
  | some deletions =>
  match charge budget.transferredBytes plan.bytes limits.maxTotalBytes with
  | none => do
      let changes ← checkedSub changes plan.counted
      let deletions ← checkedSub deletions plan.deletions
      return (.error "signed grant total-byte limit exceeded", { budget with changes, deletions })
  | some transferredBytes => do
      let ledger ← budget.ledger.shareEntry plan.charged.file
      return (.ok plan.charged, { ledger, changes, deletions, transferredBytes })

/-! ## Giving back -/

/-- Release a settled request's share of a file's count, which is given back when the
last share goes and no request changed the file. -/
def releaseFile (budget : Budget) (file : Option FileShare) (made : Bool) : Option Budget :=
  match file with
  | none => some budget
  | some (key, instance_) =>
  match budget.ledger.reserved.lookup key with
  | none => some budget
  | some reservation =>
  if reservation.instance_ ≠ instance_ then some budget
  else
  match reservation.entry with
  | none => some budget
  | some entry =>
    let released : EntryCharge := ⟨entry.holders - 1, entry.made || made⟩
    let stored (entry : Option EntryCharge) : Ledger := { budget.ledger with
      reserved := budget.ledger.reserved.insert key { reservation with entry } }
    if released.holders = 0 ∧ released.made = false then do
      let changes ← checkedSub budget.changes 1
      return { budget with changes, ledger := stored none }
    else some { budget with ledger := stored (some released) }

/-- The positions at which a list of results says nothing was changed. -/
def positions {α : Type} (unmade : α → Bool) (results : List α) : List Nat :=
  (results.zipIdx.filter fun result => unmade result.1).map Prod.snd

/-- Whether a small copy left one of its files as it was. -/
def SmallCopyFileResult.unmade (result : SmallCopyFileResult) : Bool :=
  match result.error with
  | some error => error.isUnchanged
  | none =>
    match result.disposition with
    | .copied => false
    | .quickChecked | .contentMatched => !result.repaired
    | .excluded => true

/-- The changes of a request the executor reports it did not make, in order. -/
def unmadeChanges (charged : Charged) : Response → List Nat
  | .endpointError error => if error.isUnchanged then List.range charged.changes else []
  | .applied results => positions (fun result => result.any WireError.isUnchanged) results
  | .patchedBatch results =>
    positions (fun result =>
      match result with
      | .error error => error.staleCondition || error.error.isUnchanged
      | .ok _ => false) results
  | .publishedBatch results =>
    positions (fun result => result.any WireError.isUnchanged) results
  | .smallFilesCopied (.published results) => positions SmallCopyFileResult.unmade results
  | .smallFilesCopied (.stagingFailed error) =>
    if error.isUnchanged then List.range charged.changes else []
  | .smallFilesCopied _ => List.range charged.changes
  | _ => []

/-- A file request changes nothing only when its condition was unmet before it
started. -/
def fileUnmade : Response → Bool
  | .endpointError error => error.isUnchanged
  | _ => false

/-- How many of the deletions are among the unmade changes; both lists are in
operation order. -/
def undeleted (unmade : List Nat) : List Nat → Nat
  | [] => 0
  | index :: rest =>
    let left := unmade.dropWhile fun other => other < index
    (if left.head? = some index then 1 else 0) + undeleted left rest

/-- What a settlement gives back: own changes, deletions, and whether it made the
change its file share stands for. -/
structure Refund where
  changes : Nat
  deletions : Nat
  made : Bool
  deriving DecidableEq

/-- What the executor's response gives back of a charged request. -/
def Charged.refund (charged : Charged) (response : Response) : Refund :=
  let unmade := unmadeChanges charged response
  ⟨min unmade.length charged.changes, undeleted unmade charged.deleting, !fileUnmade response⟩

/-- What a request whose execution never started gives back: all of it. -/
def Charged.unexecuted (charged : Charged) : Refund :=
  ⟨charged.changes, charged.deleting.length, false⟩

/-- Give back what a refund says, in the order of `refund_unmade`. -/
def Budget.giveBack (budget : Budget) (charged : Charged) (refund : Refund) : Option Budget := do
  let changes ← checkedSub budget.changes refund.changes
  let budget ← releaseFile { budget with changes } charged.file refund.made
  let deletions ← checkedSub budget.deletions refund.deletions
  return { budget with deletions }

/-- Releasing a share of a stored count takes one holder off, and lowers the counter
when nothing is left of the count. -/
theorem releaseFile_of_stored {key : FileKey} {resv : ByteReservation} {holders : Nat}
    {madeBefore : Bool} (found : budget.ledger.reserved.lookup key = some resv)
    (entry : resv.entry = entryCharge (holders + 1) madeBefore) (made : Bool)
    (counted : 1 ≤ budget.changes) :
    releaseFile budget (some (key, resv.instance_)) made = some { budget with
      changes := budget.changes - if entryCharge holders (madeBefore || made) = none then 1 else 0
      ledger := { budget.ledger with
        reserved := budget.ledger.reserved.insert key
          { resv with entry := entryCharge holders (madeBefore || made) } } } := by
  have entryEq : resv.entry = some ⟨holders + 1, madeBefore⟩ := by
    simp [entry, entryCharge]
  have left := @checkedSub_of_le budget.changes 1 (by omega)
  by_cases nothing : holders = 0 ∧ (madeBefore || made) = false
  · simp [releaseFile, found, entryEq, entryCharge, nothing, left]
  · have kept : ¬ (holders = 0 ∧ madeBefore = false ∧ made = false) := by simpa using nothing
    simp [releaseFile, found, entryEq, entryCharge, kept]

/-- A share of a reservation that is no longer stored has nothing to release. -/
theorem releaseFile_of_gone {key : FileKey} {instance_ : Nat}
    (gone : ∀ resv, budget.ledger.reserved.lookup key = some resv →
      resv.instance_ ≠ instance_) (made : Bool) :
    releaseFile budget (some (key, instance_)) made = some budget := by
  cases found : budget.ledger.reserved.lookup key with
  | none => simp [releaseFile, found]
  | some resv => simp [releaseFile, found, gone resv found]

theorem undeleted_le (unmade deleting : List Nat) :
    undeleted unmade deleting ≤ deleting.length := by
  induction deleting generalizing unmade with
  | nil => exact Nat.le_refl _
  | cons index rest ih =>
    have tail := ih (unmade.dropWhile fun other => other < index)
    simp only [undeleted, List.length_cons]
    split <;> omega

/-- A request that was refused for a limit leaves every budget as it was. -/
theorem chargeRequest_error {limits : Limits} {next : Budget} {request : Request} {message : String}
    (refused : chargeRequest limits budget request = some (.error message, next)) :
    next = budget := by
  unfold chargeRequest at refused
  dsimp only at refused
  split at refused
  · cases refused
    rfl
  · rename_i changes changesEq
    have changesSum := charge_eq_some changesEq
    split at refused
    · rcases Option.bind_eq_some_iff.mp refused with ⟨back, backEq, result⟩
      cases budget
      simp_all
    · rename_i deletions deletionsEq
      have deletionsSum := charge_eq_some deletionsEq
      split at refused
      · rcases Option.bind_eq_some_iff.mp refused with ⟨backChanges, backChangesEq, rest⟩
        rcases Option.bind_eq_some_iff.mp rest with ⟨backDeletions, backDeletionsEq, result⟩
        cases result
        have back := checkedSub_eq_some_iff.mp backChangesEq
        have backDeletions := checkedSub_eq_some_iff.mp backDeletionsEq
        cases budget
        simp_all
      · rcases Option.bind_eq_some_iff.mp refused with ⟨ledger, -, result⟩
        cases result

end Syq.Restricted
