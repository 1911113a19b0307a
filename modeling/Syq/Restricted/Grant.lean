import Syq.Lib.Transition
import Syq.Restricted.Charge

/-!
# The budgets of a grant under concurrent requests

The connections of a grant share its ledger and its counters.  The ledger and the
shares of a file's count are only touched under the state lock, which a charge holds
to its end; the counters are atomic, so settlements lower them at any time, also
between the steps of a charge.  Events are therefore the atomic actions of the
source, and a run is any interleaving of them.

The state records beside the budgets every request that was charged, so that what
each of them still contributes to the counters can be said.
-/

namespace Syq.Restricted

open Syq.Lib

/-! ## Charged requests -/

/-- How a charged request ends: with the executor's response, or before its execution
started. -/
inductive Ending where
  | executed (response : Response)
  | unexecuted

/-- What an ending gives back: `refund_unmade` and `settle_unexecuted`. -/
def Charged.refundOf (charged : Charged) : Ending → Refund
  | .executed response => charged.refund response
  | .unexecuted => charged.unexecuted

/-- A settlement gives back at most what its own request was charged. -/
theorem Charged.refundOf_le (charged : Charged) (ending : Ending) :
    (charged.refundOf ending).changes ≤ charged.changes ∧
      (charged.refundOf ending).deletions ≤ charged.deleting.length := by
  cases ending with
  | executed resp => exact ⟨Nat.min_le_right _ _, undeleted_le _ _⟩
  | unexecuted => exact ⟨Nat.le_refl _, Nat.le_refl _⟩

/-- The progress of a settlement, whose parts are separate atomic actions. -/
structure Settling where
  ending : Ending
  changesGiven : Bool
  deletionsGiven : Bool
  fileReleased : Bool

/-- A request that was charged, and its settlement once that has started. -/
structure Holding where
  charged : Charged
  settling : Option Settling

namespace Holding

/-- The own changes a settlement has given back so far. -/
def givenChanges (holding : Holding) : Nat :=
  match holding.settling with
  | some settling =>
    if settling.changesGiven then (holding.charged.refundOf settling.ending).changes else 0
  | none => 0

def givenDeletions (holding : Holding) : Nat :=
  match holding.settling with
  | some settling =>
    if settling.deletionsGiven then (holding.charged.refundOf settling.ending).deletions else 0
  | none => 0

theorem givenChanges_le (holding : Holding) : holding.givenChanges ≤ holding.charged.changes := by
  unfold givenChanges
  split
  · rename_i settling _
    split
    · exact (holding.charged.refundOf_le settling.ending).1
    · exact Nat.zero_le _
  · exact Nat.zero_le _

theorem givenDeletions_le (holding : Holding) :
    holding.givenDeletions ≤ holding.charged.deleting.length := by
  unfold givenDeletions
  split
  · rename_i settling _
    split
    · exact (holding.charged.refundOf_le settling.ending).2
    · exact Nat.zero_le _
  · exact Nat.zero_le _

/-- The own changes still counted for a request. -/
def ownChanges (holding : Holding) : Nat :=
  holding.charged.changes - holding.givenChanges

def ownDeletions (holding : Holding) : Nat :=
  holding.charged.deleting.length - holding.givenDeletions

theorem ownChanges_of_due {charged : Charged} {settling : Settling}
    (due : settling.changesGiven = false) :
    (⟨charged, some settling⟩ : Holding).ownChanges = charged.changes := by
  simp [ownChanges, givenChanges, due]

theorem ownDeletions_of_due {charged : Charged} {settling : Settling}
    (due : settling.deletionsGiven = false) :
    (⟨charged, some settling⟩ : Holding).ownDeletions = charged.deleting.length := by
  simp [ownDeletions, givenDeletions, due]

/-- A share in the count of a file that has not been released. -/
def holds (share : FileShare) (holding : Holding) : Bool :=
  decide (holding.charged.file = some share) &&
    holding.settling.all fun settling => !settling.fileReleased

/-- A share in the count of a file that was released with a change made. -/
def madeChange (share : FileShare) (holding : Holding) : Bool :=
  decide (holding.charged.file = some share) &&
    holding.settling.any fun settling =>
      settling.fileReleased && (holding.charged.refundOf settling.ending).made

end Holding

/-! ## A charge in progress -/

/-- Where a charge stands between its atomic actions. -/
inductive Stage where
  | changesCharged
  | deletionsCharged
  | deletionsRefused
  | bytesRefused
  | changesRefunded
  deriving DecidableEq

/-- The counted instances once a charge is through. -/
def ChargePlan.countedWith (plan : ChargePlan) (counted : Finset Nat) : Finset Nat :=
  match plan.charged.file with
  | some (_, instance_) => if plan.fileCharge then insert instance_ counted else counted
  | none => counted

/-- A call of `charge_request` that holds the lock. -/
structure Charging where
  id : Nat
  request : Request
  plan : ChargePlan
  stage : Stage

namespace Charging

/-- What the charge has added to the entry counter so far. -/
def heldChanges (charging : Charging) : Nat :=
  match charging.stage with
  | .changesCharged | .deletionsCharged | .deletionsRefused | .bytesRefused =>
    charging.plan.counted
  | .changesRefunded => 0

def heldDeletions (charging : Charging) : Nat :=
  match charging.stage with
  | .changesCharged | .deletionsRefused => 0
  | .deletionsCharged | .bytesRefused | .changesRefunded => charging.plan.deletions

end Charging

/-! ## The system -/

structure Grant where
  budget : Budget
  charging : Option Charging
  /-- Every request charged so far. -/
  requests : Table Nat Holding
  /-- The reservations that left the ledger by publication, as they were then. -/
  published : List ByteReservation
  /-- The reservation instances whose file is counted in the entry counter. -/
  counted : Finset Nat

namespace Grant

def init : Grant where
  budget := ⟨.empty, 0, 0, 0⟩
  charging := none
  requests := ∅
  published := []
  counted := ∅

/-- What the charge in progress has added to the counters. -/
def chargingChanges (grant : Grant) : Nat :=
  grant.charging.elim 0 Charging.heldChanges

def chargingDeletions (grant : Grant) : Nat :=
  grant.charging.elim 0 Charging.heldDeletions

end Grant

inductive GrantEvent where
  | reserve (key : FileKey) (size : Nat) (observationOnly : Bool)
  | settleHold (key : FileKey) (hold : Nat) (retain : Bool)
  | releaseHolds (holds : List (FileKey × Nat))
  | publish (key : FileKey)
  | beginCharge (id : Nat) (request : Request)
  | chargeStep
  | settle (id : Nat) (ending : Ending)
  | giveChanges (id : Nat)
  | giveDeletions (id : Nat)
  | releaseFile (id : Nat)

/-- The events of charges. -/
def GrantEvent.ofCharge : GrantEvent → Bool
  | .beginCharge _ _ | .chargeStep => true
  | _ => false

namespace Grant

def withLedger (grant : Grant) (ledger : Ledger) : Grant :=
  { grant with budget := { grant.budget with ledger } }

def setStage (grant : Grant) (charging : Charging) (stage : Stage) : Grant :=
  { grant with charging := some { charging with stage } }

/-- The next action of a charge. -/
def chargeStep (limits : Limits) (grant : Grant) (charging : Charging) : Option Grant :=
  let plan := charging.plan
  match charging.stage with
  | .changesCharged =>
    match charge grant.budget.deletions plan.deletions limits.maxDeletions with
    | none => some (grant.setStage charging .deletionsRefused)
    | some deletions =>
      some { grant.setStage charging .deletionsCharged with
        budget := { grant.budget with deletions } }
  | .deletionsCharged =>
    match charge grant.budget.transferredBytes plan.bytes limits.maxTotalBytes with
    | none => some (grant.setStage charging .bytesRefused)
    | some transferredBytes => do
        -- The bytes and the share of the file are taken under the same lock.
        let ledger ← grant.budget.ledger.shareEntry plan.charged.file
        return { grant with
          budget := { grant.budget with ledger, transferredBytes }
          charging := none
          requests := grant.requests.insert charging.id ⟨plan.charged, none⟩
          counted := plan.countedWith grant.counted }
  | .deletionsRefused => do
      let changes ← checkedSub grant.budget.changes plan.counted
      return { grant with budget := { grant.budget with changes }, charging := none }
  | .bytesRefused => do
      let changes ← checkedSub grant.budget.changes plan.counted
      return { grant.setStage charging .changesRefunded with
        budget := { grant.budget with changes } }
  | .changesRefunded => do
      let deletions ← checkedSub grant.budget.deletions plan.deletions
      return { grant with budget := { grant.budget with deletions }, charging := none }

/-- Advance the settlement of a request. -/
def advance (grant : Grant) (id : Nat) (holding : Holding) (settling : Settling) : Grant :=
  { grant with requests := grant.requests.insert id { holding with settling := some settling } }

/-- A file's instance is no longer counted when its release lowered the counter. -/
def countedAfter (grant : Grant) (file : Option FileShare) (budget : Budget) : Finset Nat :=
  match file with
  | some (_, instance_) =>
    if budget.changes < grant.budget.changes then grant.counted.erase instance_
    else grant.counted
  | none => grant.counted

/-- What an event does.  `none` is a failed `expect` or a counter below zero. -/
def step (limits : Limits) (grant : Grant) : GrantEvent → Option Grant
  | .reserve key size observationOnly =>
    let ledger := grant.budget.ledger.reserveBytes limits.maxTotalBytes key size observationOnly
    some (grant.withLedger ledger.2)
  | .settleHold key hold retain => do
      let ledger ← grant.budget.ledger.settleObservationReservation key hold retain
      return grant.withLedger ledger
  | .releaseHolds holds => do
      let ledger ← grant.budget.ledger.releasePatchHolds holds
      return grant.withLedger ledger
  | .publish key =>
    some { grant.withLedger (grant.budget.ledger.removePublished key) with
      published := grant.published ++ (grant.budget.ledger.reserved.lookup key).toList }
  | .beginCharge id request =>
    let plan := chargePlan grant.budget.ledger request
    match charge grant.budget.changes plan.counted limits.maxEntries with
    | none => some grant
    | some changes => some { grant with
        budget := { grant.budget with changes }
        charging := some ⟨id, request, plan, .changesCharged⟩ }
  | .chargeStep => do grant.chargeStep limits (← grant.charging)
  | .settle id ending => do
      let holding ← grant.requests.lookup id
      return grant.advance id holding ⟨ending, false, false, false⟩
  | .giveChanges id => do
      let holding ← grant.requests.lookup id
      let settling ← holding.settling
      let changes ← checkedSub grant.budget.changes
        (holding.charged.refundOf settling.ending).changes
      return { grant.advance id holding { settling with changesGiven := true } with
        budget := { grant.budget with changes } }
  | .giveDeletions id => do
      let holding ← grant.requests.lookup id
      let settling ← holding.settling
      let deletions ← checkedSub grant.budget.deletions
        (holding.charged.refundOf settling.ending).deletions
      return { grant.advance id holding { settling with deletionsGiven := true } with
        budget := { grant.budget with deletions } }
  | .releaseFile id => do
      let holding ← grant.requests.lookup id
      let settling ← holding.settling
      let budget ← Restricted.releaseFile grant.budget holding.charged.file
        (holding.charged.refundOf settling.ending).made
      return { grant.advance id holding { settling with fileReleased := true } with
        budget, counted := grant.countedAfter holding.charged.file budget }

section Settlement

variable (limits : Limits) {grant : Grant} {id : Nat} {charged : Charged} {settling : Settling}

variable (found : grant.requests.lookup id = some ⟨charged, some settling⟩)

include found

theorem step_giveChanges :
    grant.step limits (.giveChanges id) =
      (checkedSub grant.budget.changes (charged.refundOf settling.ending).changes).map
        fun changes => { grant.advance id ⟨charged, some settling⟩
          { settling with changesGiven := true } with
            budget := { grant.budget with changes } } := by
  simp [step, found, Option.map_eq_bind]

theorem step_giveDeletions :
    grant.step limits (.giveDeletions id) =
      (checkedSub grant.budget.deletions (charged.refundOf settling.ending).deletions).map
        fun deletions => { grant.advance id ⟨charged, some settling⟩
          { settling with deletionsGiven := true } with
            budget := { grant.budget with deletions } } := by
  simp [step, found, Option.map_eq_bind]

theorem step_releaseFile :
    grant.step limits (.releaseFile id) =
      (Restricted.releaseFile grant.budget charged.file (charged.refundOf settling.ending).made).map
          fun budget => { grant.advance id ⟨charged, some settling⟩
            { settling with fileReleased := true } with
              budget, counted := grant.countedAfter charged.file budget } := by
  simp [step, found, Option.map_eq_bind]

end Settlement

/-- The settlement of a request has started and `part` of it is outstanding. -/
def due (grant : Grant) (id : Nat) (part : Settling → Bool) : Bool :=
  (grant.requests.lookup id).any fun holding =>
    holding.settling.any fun settling => !part settling

/-- The lock is free for what needs it, each request is charged under its own id and
settled once, and each part of a settlement happens once. -/
def enabled (grant : Grant) : GrantEvent → Bool
  | .reserve _ _ _ | .settleHold _ _ _ | .releaseHolds _ | .publish _ => grant.charging.isNone
  | .beginCharge id _ => grant.charging.isNone && (grant.requests.lookup id).isNone
  | .chargeStep => grant.charging.isSome
  | .settle id _ => (grant.requests.lookup id).any fun holding => holding.settling.isNone
  | .giveChanges id => grant.due id Settling.changesGiven
  | .giveDeletions id => grant.due id Settling.deletionsGiven
  | .releaseFile id => grant.charging.isNone && grant.due id Settling.fileReleased

end Grant

/-- The grant's budgets under every interleaving. -/
def grantSystem (limits : Limits) : System Grant GrantEvent where
  enabled grant event := grant.enabled event = true
  decidableEnabled _ _ := inferInstance
  step := Grant.step limits

end Syq.Restricted
