import Syq.Restricted.Grant

/-!
# The invariant of a grant's budgets

The counters are the sum of what the charged requests and the counted files still
contribute, and the count stored with a reservation is the one its shares give.
Every event is permitted only where it succeeds, and keeps this.
-/

namespace Syq.Restricted

open Syq.Lib Finmap Holding List Option

variable {holding : Holding} {requests : Table Nat Holding} {id : Nat}

/-! ## Shares of a file's count -/

/-- The shares of a file's count that are out. -/
def holders (requests : Table Nat Holding) (share : FileShare) : Nat :=
  total (fun _ holding => (holding.holds share).toNat) requests

/-- The shares that were released with a change made. -/
def madeChanges (requests : Table Nat Holding) (share : FileShare) : Nat :=
  total (fun _ holding => (holding.madeChange share).toNat) requests

/-- The count that the shares of a file give. -/
def entryOf (requests : Table Nat Holding) (share : FileShare) : Option EntryCharge :=
  entryCharge (holders requests share) (decide (0 < madeChanges requests share))

theorem holds_of_ne {share : FileShare} (other : holding.charged.file ≠ some share) :
    holding.holds share = false := by
  simp [holds, other]

theorem madeChange_of_ne {share : FileShare} (other : holding.charged.file ≠ some share) :
    holding.madeChange share = false := by
  simp [madeChange, other]

/-- Nobody shares a file that no request was charged for. -/
theorem entryOf_of_unshared {share : FileShare}
    (unshared : ∀ {id holding}, requests.lookup id = some holding →
      holding.charged.file ≠ some share) : entryOf requests share = none := by
  have noHolders : holders requests share = 0 :=
    total_eq_zero _ fun found => by simp [holds_of_ne (unshared found)]
  have noChanges : madeChanges requests share = 0 :=
    total_eq_zero _ fun found => by simp [madeChange_of_ne (unshared found)]
  simp [entryOf, entryCharge, noHolders, noChanges]

/-- A request that is as before towards a file leaves its count alone. -/
theorem entryOf_update {next : Holding} {share : FileShare}
    (found : requests.lookup id = some holding) (holds : next.holds share = holding.holds share)
    (made : next.madeChange share = holding.madeChange share) :
    entryOf (requests.insert id next) share = entryOf requests share := by
  have sameHolders : holders (requests.insert id next) share = holders requests share :=
    total_update_eq _ found (by rw [holds])
  have sameChanges : madeChanges (requests.insert id next) share = madeChanges requests share :=
    total_update_eq _ found (by rw [made])
  rw [entryOf, sameHolders, sameChanges, entryOf]

/-- A newly charged request takes a share. -/
theorem entryOf_charge (fresh : requests.lookup id = none) (charged : Charged) (share : FileShare) :
    entryOf (requests.insert id ⟨charged, none⟩) share =
      if charged.file = some share then some (.join (entryOf requests share))
      else entryOf requests share := by
  have absent : id ∉ requests := lookup_eq_none.mp fresh
  have sameChanges : madeChanges (requests.insert id ⟨charged, none⟩) share =
      madeChanges requests share := by
    rw [madeChanges, total_insert_of_notMem _ absent]
    simp [madeChange, madeChanges]
  have moreHolders : holders (requests.insert id ⟨charged, none⟩) share =
      holders requests share + (decide (charged.file = some share)).toNat := by
    rw [holders, total_insert_of_notMem _ absent, Nat.add_comm]
    simp [holds, holders]
  by_cases shares : charged.file = some share
  · rw [entryOf, entryOf, EntryCharge.join_entryCharge, moreHolders, sameChanges]
    simp [shares]
  · rw [entryOf, moreHolders, sameChanges]
    simp [shares, entryOf]

/-- A request releases its share: one holder less, and one more that made a change if
it did. -/
theorem entryOf_release {charged : Charged} {settling : Settling} {share : FileShare}
    (found : requests.lookup id = some ⟨charged, some settling⟩)
    (outstanding : settling.fileReleased = false) (shared : charged.file = some share) :
    ∃ others, entryOf requests share =
        entryCharge (others + 1) (decide (0 < madeChanges requests share)) ∧
      entryOf (requests.insert id ⟨charged, some { settling with fileReleased := true }⟩) share =
        entryCharge others (decide (0 < madeChanges requests share) ||
          (charged.refundOf settling.ending).made) := by
  have fewer := total_update (fun _ holding => (holding.holds share).toNat) found
    ⟨charged, some { settling with fileReleased := true }⟩
  have more := total_update (fun _ holding => (holding.madeChange share).toNat) found
    ⟨charged, some { settling with fileReleased := true }⟩
  simp only [holds, shared, outstanding, decide_true, all_some, Bool.not_false, Bool.not_true,
    Bool.and_true, Bool.and_false, Bool.toNat_false] at fewer
  simp only [madeChange, shared, outstanding, decide_true, any_some, Bool.true_and, Bool.false_and,
    Bool.toNat_false] at more
  refine ⟨holders (requests.insert id ⟨charged, some { settling with fileReleased := true }⟩) share,
    ?_, ?_⟩
  · exact congrArg (entryCharge · _) fewer.symm
  · rw [entryOf]
    rw [show madeChanges (requests.insert id
      ⟨charged, some { settling with fileReleased := true }⟩) share = madeChanges requests share +
        (charged.refundOf settling.ending).made.toNat from more]
    cases (charged.refundOf settling.ending).made <;> simp

/-! ## The counts stored with the reservations -/

/-- The count of each stored reservation is the one its shares give, and its instance
is counted exactly when there is one. -/
structure Shares (requests : Table Nat Holding) (counted : Finset Nat) (ledger : Ledger) :
    Prop where
  entry : ∀ {key reservation}, ledger.reserved.lookup key = some reservation →
    reservation.entry = entryOf requests (key, reservation.instance_)
  countedIff : ∀ {key reservation}, ledger.reserved.lookup key = some reservation →
    (reservation.instance_ ∈ counted ↔ reservation.entry ≠ none)
  sharesNumbered : ∀ {id holding share}, requests.lookup id = some holding →
    holding.charged.file = some share → share.2 ≤ ledger.nextInstance
  countedNumbered : ∀ {instance_}, instance_ ∈ counted → instance_ ≤ ledger.nextInstance

namespace Shares

variable {counted : Finset Nat} {ledger : Ledger}
variable {maxTotalBytes pub : Nat} {key : FileKey} {resv : ByteReservation}

section

variable (shares : Shares requests counted ledger)

include shares

/-- What happens to the bytes leaves the counts alone. -/
theorem keeps {next : Ledger} (keeps : ledger.Keeps next) : Shares requests counted next where
  entry := by
    intro key resv found
    rcases keeps.entry found with ⟨old, oldFound, sameInstance, sameEntry⟩ | ⟨new, nothing⟩
    · rw [← sameInstance, ← sameEntry]
      exact shares.entry oldFound
    · rw [nothing]
      refine (entryOf_of_unshared ?_).symm
      intro id holding held shared
      exact absurd (shares.sharesNumbered held shared) (Nat.not_le.mpr new)
  countedIff := by
    intro key resv found
    rcases keeps.entry found with ⟨old, oldFound, sameInstance, sameEntry⟩ | ⟨new, nothing⟩
    · rw [← sameInstance, ← sameEntry]
      exact shares.countedIff oldFound
    · have uncounted : resv.instance_ ∉ counted := fun mem =>
        absurd (shares.countedNumbered mem) (Nat.not_le.mpr new)
      exact ⟨fun mem => absurd mem uncounted, fun stored => absurd nothing stored⟩
  sharesNumbered held shared := Nat.le_trans (shares.sharesNumbered held shared) keeps.nextInstance
  countedNumbered mem := Nat.le_trans (shares.countedNumbered mem) keeps.nextInstance

/-- A request whose share is numbered keeps the instances numbered. -/
theorem numbered_insert {next : Holding} (numbered : ∀ {share}, next.charged.file = some share →
      share.2 ≤ ledger.nextInstance) {other : Nat} {share : FileShare}
    (held : (requests.insert id next).lookup other = some holding)
    (shared : holding.charged.file = some share) : share.2 ≤ ledger.nextInstance := by
  rcases cases_of_insert held with ⟨-, rfl⟩ | ⟨-, held⟩
  · exact numbered shared
  · exact shares.sharesNumbered held shared

/-- A request whose file and share of it stay as they are. -/
theorem update {next : Holding} (found : requests.lookup id = some holding)
    (file : next.charged.file = holding.charged.file)
    (same : ∀ {key resv}, ledger.reserved.lookup key = some resv →
      next.holds (key, resv.instance_) = holding.holds (key, resv.instance_) ∧
      next.madeChange (key, resv.instance_) =
        holding.madeChange (key, resv.instance_)) :
    Shares (requests.insert id next) counted ledger where
  entry stored := by
    rw [entryOf_update found (same stored).1 (same stored).2]
    exact shares.entry stored
  countedIff := shares.countedIff
  sharesNumbered := shares.numbered_insert fun shared =>
    shares.sharesNumbered found (file ▸ shared)
  countedNumbered := shares.countedNumbered

/-- One reservation gets the count that the new table of requests gives, and its
instance is counted accordingly; the table gives the others the count they had. -/
theorem replaceEntry (wf : ledger.Wf maxTotalBytes pub)
    (found : ledger.reserved.lookup key = some resv) {nextReqs : Table Nat Holding}
    (others : ∀ share, share ≠ (key, resv.instance_) →
      entryOf nextReqs share = entryOf requests share)
    (numbered : ∀ {id holding share}, nextReqs.lookup id = some holding →
      holding.charged.file = some share → share.2 ≤ ledger.nextInstance)
    {entry : Option EntryCharge}
    (entryEq : entry = entryOf nextReqs (key, resv.instance_)) {nextCounted : Finset Nat}
    (countedEq : ∀ instance_, instance_ ∈ nextCounted ↔
      if instance_ = resv.instance_ then entry ≠ none else instance_ ∈ counted) :
    Shares nextReqs nextCounted { ledger with
      reserved := ledger.reserved.insert key { resv with entry } } where
  entry := by
    intro other stored lookupEq
    rcases cases_of_insert lookupEq with ⟨rfl, rfl⟩ | ⟨diff, old⟩
    · exact entryEq
    · rw [others _ (by simp [diff])]
      exact shares.entry old
  countedIff := by
    intro other stored lookupEq
    rw [countedEq]
    rcases cases_of_insert lookupEq with ⟨rfl, rfl⟩ | ⟨diff, old⟩
    · simp
    · rw [if_neg fun sameInstance => diff (wf.distinct old found sameInstance)]
      exact shares.countedIff old
  sharesNumbered := numbered
  countedNumbered := by
    intro instance_ mem
    rw [countedEq] at mem
    by_cases same : instance_ = resv.instance_
    · rw [same]
      exact wf.numbered found
    · rw [if_neg same] at mem
      exact shares.countedNumbered mem

/-- A request that shares no count is charged. -/
theorem chargeAlone (fresh : requests.lookup id = none) {charged : Charged}
    (noFile : charged.file = none) : Shares (requests.insert id ⟨charged, none⟩) counted ledger :=
  { shares with
    entry := fun found => by
      rw [entryOf_charge fresh, noFile, if_neg (by simp)]
      exact shares.entry found
    sharesNumbered := shares.numbered_insert fun file => by simp [noFile] at file }

/-- A request takes a share in the count of a stored reservation. -/
theorem charge (wf : ledger.Wf maxTotalBytes pub)
    (found : ledger.reserved.lookup key = some resv) (fresh : requests.lookup id = none)
    {charged : Charged} (file : charged.file = some (key, resv.instance_)) :
    Shares (requests.insert id ⟨charged, none⟩)
      (if resv.entry.isNone then insert resv.instance_ counted else counted)
      { ledger with
        reserved := ledger.reserved.insert key
          { resv with entry := some (.join resv.entry) } } := by
  refine shares.replaceEntry wf found ?_ (shares.numbered_insert ?_) ?_ ?_
  · intro share other
    rw [entryOf_charge fresh, file, if_neg fun same => other (some.inj same).symm]
  · intro share shared
    rw [file] at shared
    cases shared
    exact wf.numbered found
  · rw [entryOf_charge fresh, if_pos file, shares.entry found]
  · intro instance_
    have countedIff := shares.countedIff found
    by_cases same : instance_ = resv.instance_
    · subst same
      cases entry : resv.entry with
      | none => simp
      | some count => simp [countedIff, entry]
    · cases resv.entry <;> simp [same]

/-- The first share of a count counts its instance. -/
theorem card_charge (found : ledger.reserved.lookup key = some resv) :
    (if resv.entry.isNone then insert resv.instance_ counted else counted).card =
      counted.card + resv.entry.isNone.toNat := by
  have countedIff := shares.countedIff found
  cases entry : resv.entry with
  | none => exact Finset.card_insert_of_notMem fun mem => countedIff.mp mem entry
  | some count => rfl

/-- A request releases its share in the count of a stored reservation, whose instance
stays counted while something is left of the count. -/
theorem release (wf : ledger.Wf maxTotalBytes pub)
    (stored : ledger.reserved.lookup key = some resv) {charged : Charged}
    {settling : Settling} (found : requests.lookup id = some ⟨charged, some settling⟩)
    (outstanding : settling.fileReleased = false)
    (file : charged.file = some (key, resv.instance_)) {entry : Option EntryCharge}
    (entryEq : entry = entryOf (requests.insert id
      ⟨charged, some { settling with fileReleased := true }⟩) (key, resv.instance_)) :
    resv.instance_ ∈ counted ∧
    Shares (requests.insert id ⟨charged, some { settling with fileReleased := true }⟩)
      (if entry = none then counted.erase resv.instance_ else counted)
      { ledger with
        reserved := ledger.reserved.insert key { resv with entry } } := by
  rcases entryOf_release found outstanding file with ⟨others, before, -⟩
  have member : resv.instance_ ∈ counted := by
    rw [shares.countedIff stored, shares.entry stored, before]
    simp [entryCharge]
  refine ⟨member, shares.replaceEntry wf stored ?_ (shares.numbered_insert ?_) entryEq ?_⟩
  · intro share other
    have notShared : charged.file ≠ some share := fun same =>
      other (some.inj (same.symm.trans file))
    exact entryOf_update found (by rw [holds_of_ne notShared, holds_of_ne notShared])
      (by rw [madeChange_of_ne notShared, madeChange_of_ne notShared])
  · intro share shared
    exact shares.sharesNumbered found shared
  · intro instance_
    by_cases same : instance_ = resv.instance_
    · subst same
      by_cases nothing : entry = none <;> simp [nothing, member]
    · by_cases nothing : entry = none <;> simp [nothing, same]

end

end Shares

/-! ## The invariant -/

namespace Grant

structure Inv (limits : Limits) (grant : Grant) : Prop where
  ledger : grant.budget.ledger.Wf limits.maxTotalBytes
    (grant.published.map ByteReservation.size).sum
  shares : Shares grant.requests grant.counted grant.budget.ledger
  changes : grant.budget.changes = total (fun _ holding => holding.ownChanges) grant.requests +
    grant.counted.card + grant.chargingChanges
  deletions : grant.budget.deletions =
    total (fun _ holding => holding.ownDeletions) grant.requests + grant.chargingDeletions
  changesWithin : grant.budget.changes ≤ limits.maxEntries
  deletionsWithin : grant.budget.deletions ≤ limits.maxDeletions
  charging : ∀ {charging}, grant.charging = some charging →
    grant.requests.lookup charging.id = none ∧
      charging.plan = chargePlan grant.budget.ledger charging.request

theorem Inv.init (limits : Limits) : Grant.init.Inv limits where
  ledger := Ledger.wf_empty _
  shares :=
    { entry := fun found => by simp [Grant.init, Ledger.empty] at found
      countedIff := fun found => by simp [Grant.init, Ledger.empty] at found
      sharesNumbered := fun found => by simp [Grant.init] at found
      countedNumbered := fun mem => by simp [Grant.init] at mem }
  changes := by simp [Grant.init, chargingChanges]
  deletions := by simp [Grant.init, chargingDeletions]
  changesWithin := Nat.zero_le _
  deletionsWithin := Nat.zero_le _
  charging found := by simp [Grant.init] at found

/-- What a step of a charge makes of the counters and of the charge in progress: they move by
the same amounts. -/
structure Moves (limits : Limits) (grant : Grant) (changes deletions : Nat)
    (charging : Option Charging) : Prop where
  changesEq : changes + grant.chargingChanges =
    grant.budget.changes + charging.elim 0 Charging.heldChanges
  deletionsEq : deletions + grant.chargingDeletions =
    grant.budget.deletions + charging.elim 0 Charging.heldDeletions
  changesWithin : changes ≤ limits.maxEntries
  deletionsWithin : deletions ≤ limits.maxDeletions
  fresh : ∀ {now}, charging = some now → grant.requests.lookup now.id = none ∧
    now.plan = chargePlan grant.budget.ledger now.request

namespace Inv

variable {limits : Limits} {grant : Grant} {charging : Charging} {settling : Settling}

/-! ### The ledger -/

section

variable (inv : grant.Inv limits)

include inv

variable (free : grant.charging = none)

include free

/-- The ledger changes while no charge is in progress. -/
theorem withLedger {next : Ledger} {published : List ByteReservation}
    (keeps : grant.budget.ledger.Keeps next)
    (wf : next.Wf limits.maxTotalBytes (published.map ByteReservation.size).sum) :
    Inv limits { grant.withLedger next with published } := by
  refine { inv with
    ledger := wf
    shares := inv.shares.keeps keeps
    charging := ?_ }
  intro charging found
  rw [show grant.charging = some charging from found] at free
  cases free

theorem reserve (key : FileKey) (size : Nat) (observationOnly : Bool) :
    Inv limits (grant.withLedger
      (grant.budget.ledger.reserveBytes limits.maxTotalBytes key size observationOnly).2) :=
  inv.withLedger free (.reserveBytes ..) (inv.ledger.reserveBytes ..)

theorem settleHold (key : FileKey) (hold : Nat) (retain : Bool) :
    ∃ next, grant.budget.ledger.settleObservationReservation key hold retain = some next ∧
      Inv limits (grant.withLedger next) := by
  rcases inv.ledger.settle key hold retain with ⟨next, settled, wf, -⟩
  exact ⟨next, settled, inv.withLedger free (.settle settled) wf⟩

theorem releaseHolds (holds : List (FileKey × Nat)) :
    ∃ next, grant.budget.ledger.releasePatchHolds holds = some next ∧
      Inv limits (grant.withLedger next) := by
  rcases inv.ledger.releasePatchHolds holds with ⟨next, released, wf⟩
  exact ⟨next, released, inv.withLedger free (.releasePatchHolds released) wf⟩

theorem publish (key : FileKey) :
    Inv limits { grant.withLedger (grant.budget.ledger.removePublished key) with
      published := grant.published ++ (grant.budget.ledger.reserved.lookup key).toList } := by
  apply inv.withLedger free (.erase _ _ _)
  have sizeEq : ((grant.budget.ledger.reserved.lookup key).toList.map
      ByteReservation.size).sum = grant.budget.ledger.sizeOf key := by
    cases found : grant.budget.ledger.reserved.lookup key with
    | none => simp [Ledger.sizeOf, found]
    | some reservation => simp [Ledger.sizeOf, found]
  rw [map_append, sum_append, sizeEq]
  exact inv.ledger.removePublished key

omit free

/-! ### Charges -/

theorem charged {changes deletions : Nat} {charging : Option Charging}
    (moves : Moves limits grant changes deletions charging) :
    Inv limits { grant with
      budget := { grant.budget with changes, deletions }
      charging } := by
  have changesBefore := inv.changes
  have deletionsBefore := inv.deletions
  rcases moves with ⟨changesEq, deletionsEq, changesWithin, deletionsWithin, fresh⟩
  refine { inv with
    changes := ?_
    deletions := ?_
    changesWithin := changesWithin
    deletionsWithin := deletionsWithin
    charging := fresh }
  · change changes = total (fun _ holding => holding.ownChanges) grant.requests +
      grant.counted.card + charging.elim 0 Charging.heldChanges
    omega
  · change deletions = total (fun _ holding => holding.ownDeletions) grant.requests +
      charging.elim 0 Charging.heldDeletions
    omega

theorem beginCharge (free : grant.charging = none) (unused : grant.requests.lookup id = none)
    (req : Request) :
    ∃ next, grant.step limits (.beginCharge id req) = some next ∧ next.Inv limits := by
  cases chargedEq : charge grant.budget.changes (chargePlan grant.budget.ledger req).counted
      limits.maxEntries with
  | none => exact ⟨grant, by simp [step, chargedEq], inv⟩
  | some changes =>
    have sum := charge_eq_some chargedEq
    refine ⟨_, by simp only [step, chargedEq]; rfl, inv.charged ⟨?_, ?_,
      charge_le chargedEq inv.changesWithin, inv.deletionsWithin, ?_⟩⟩
    · simp only [chargingChanges, free, elim_none, elim_some, Charging.heldChanges]
      omega
    · simp [chargingDeletions, free, Charging.heldDeletions]
    · rintro now ⟨⟩
      exact ⟨unused, rfl⟩

variable (current : grant.charging = some charging)

include current

/-- The request of a finished charge contributes what the charge had added. -/
theorem commit (stage : charging.stage = .deletionsCharged) {ledger : Ledger}
    (wf : ledger.Wf limits.maxTotalBytes
      (grant.published.map ByteReservation.size).sum) {counted : Finset Nat}
    (shares : Shares (grant.requests.insert charging.id ⟨charging.plan.charged, none⟩) counted
      ledger) (card : counted.card = grant.counted.card + charging.plan.fileCharge.toNat)
    (transferredBytes : Nat) :
    Inv limits { grant with
      budget := { grant.budget with ledger, transferredBytes }
      charging := none
      requests := grant.requests.insert charging.id ⟨charging.plan.charged, none⟩
      counted } := by
  have absent : charging.id ∉ grant.requests :=
    lookup_eq_none.mp (inv.charging current).1
  have changesBefore := inv.changes
  have deletionsBefore := inv.deletions
  simp only [chargingChanges, current, elim_some, Charging.heldChanges, stage,
    ChargePlan.counted] at changesBefore
  simp only [chargingDeletions, current, elim_some, Charging.heldDeletions, stage,
    ChargePlan.deletions] at deletionsBefore
  refine { inv with
    ledger := wf
    shares := shares
    changes := ?_
    deletions := ?_
    charging := fun impossible => by cases impossible }
  · change grant.budget.changes = total (fun _ holding => holding.ownChanges)
      (grant.requests.insert charging.id ⟨charging.plan.charged, none⟩) + counted.card + 0
    rw [total_insert_of_notMem _ absent]
    simp only [ownChanges, givenChanges] at changesBefore ⊢
    omega
  · change grant.budget.deletions = total (fun _ holding => holding.ownDeletions)
      (grant.requests.insert charging.id ⟨charging.plan.charged, none⟩) + 0
    rw [total_insert_of_notMem _ absent]
    simp only [ownDeletions, givenDeletions] at deletionsBefore ⊢
    omega

/-- A charge that is within the limits finds the reservation whose count it shares. -/
theorem share (stage : charging.stage = .deletionsCharged) {transferredBytes : Nat}
    (chargedEq : charge grant.budget.transferredBytes charging.plan.bytes
      limits.maxTotalBytes = some transferredBytes) :
    ∃ next, grant.chargeStep limits charging = some next ∧ next.Inv limits := by
  rcases inv.charging current with ⟨fresh, planEq⟩
  have planFile := chargePlan_file grant.budget.ledger charging.request
  rw [← planEq] at planFile
  rcases planFile with ⟨noFile, noCharge⟩ | ⟨key, resv, found, file, fileCharge⟩
  · have counted : charging.plan.countedWith grant.counted = grant.counted := by
      simp [ChargePlan.countedWith, noFile]
    refine ⟨_, by simp [chargeStep, stage, chargedEq, noFile, Ledger.shareEntry]; rfl,
      inv.commit current stage inv.ledger ?_ (by simp [counted, noCharge]) transferredBytes⟩
    rw [counted]
    exact inv.shares.chargeAlone fresh noFile
  · have counted : charging.plan.countedWith grant.counted =
        if resv.entry.isNone then insert resv.instance_ grant.counted
        else grant.counted := by
      simp [ChargePlan.countedWith, file, fileCharge]
    have shared : grant.budget.ledger.shareEntry charging.plan.charged.file = some
        { grant.budget.ledger with
          reserved := grant.budget.ledger.reserved.insert key
            { resv with entry := some (.join resv.entry) } } := by
      simp [file, Ledger.shareEntry, found]
    refine ⟨_, by simp only [chargeStep, stage, chargedEq, shared]; rfl,
      inv.commit current stage (inv.ledger.withEntry found _) ?_ ?_ transferredBytes⟩
    · rw [counted]
      exact inv.shares.charge inv.ledger found fresh file
    · rw [counted, fileCharge]
      exact inv.shares.card_charge found

/-- A step of a charge within the limits is its last, or moves the counters by what the
charge then holds; a charge that goes over a limit takes back what it has added. -/
theorem chargeStep_cases :
    (∃ changes deletions now, grant.chargeStep limits charging = some { grant with
        budget := { grant.budget with changes, deletions }
        charging := now } ∧ Moves limits grant changes deletions now) ∨
    (charging.stage = .deletionsCharged ∧ ∃ transferredBytes,
      charge grant.budget.transferredBytes charging.plan.bytes limits.maxTotalBytes =
        some transferredBytes) := by
  have fresh := inv.charging current
  have changes := inv.changes
  have deletions := inv.deletions
  have heldChanges : grant.chargingChanges = charging.heldChanges := by
    simp [chargingChanges, current]
  have heldDeletions : grant.chargingDeletions = charging.heldDeletions := by
    simp [chargingDeletions, current]
  cases stage : charging.stage with
  | changesCharged =>
    cases chargedEq : charge grant.budget.deletions charging.plan.deletions limits.maxDeletions with
    | none =>
      refine .inl ⟨_, _, _, by simp only [Grant.chargeStep, stage, chargedEq]; rfl, ?_, ?_,
        inv.changesWithin, inv.deletionsWithin, ?_⟩
      · simp [heldChanges, Charging.heldChanges, stage]
      · simp [heldDeletions, Charging.heldDeletions, stage]
      · rintro now ⟨⟩
        exact fresh
    | some total =>
      have sum := charge_eq_some chargedEq
      refine .inl ⟨_, _, _, by simp only [Grant.chargeStep, stage, chargedEq]; rfl, ?_, ?_,
        inv.changesWithin, charge_le chargedEq inv.deletionsWithin, ?_⟩
      · simp [heldChanges, Charging.heldChanges, stage, setStage]
      · simp [heldDeletions, Charging.heldDeletions, stage, setStage, sum]
      · rintro now ⟨⟩
        exact fresh
  | deletionsCharged =>
    cases chargedEq : charge grant.budget.transferredBytes charging.plan.bytes
        limits.maxTotalBytes with
    | none =>
      refine .inl ⟨_, _, _, by simp only [Grant.chargeStep, stage, chargedEq]; rfl, ?_, ?_,
        inv.changesWithin, inv.deletionsWithin, ?_⟩
      · simp [heldChanges, Charging.heldChanges, stage]
      · simp [heldDeletions, Charging.heldDeletions, stage]
      · rintro now ⟨⟩
        exact fresh
    | some transferredBytes => exact .inr ⟨rfl, transferredBytes, rfl⟩
  | deletionsRefused =>
    simp only [heldChanges, Charging.heldChanges, stage] at changes
    have left := @checkedSub_of_le grant.budget.changes charging.plan.counted (by omega)
    refine .inl ⟨_, _, _, by simp only [Grant.chargeStep, stage, left]; rfl, ?_, ?_,
      Nat.le_trans (Nat.sub_le _ _) inv.changesWithin, inv.deletionsWithin,
      fun impossible => by cases impossible⟩
    · simp only [heldChanges, Charging.heldChanges, stage, elim_none]
      omega
    · simp [heldDeletions, Charging.heldDeletions, stage]
  | bytesRefused =>
    simp only [heldChanges, Charging.heldChanges, stage] at changes
    have left := @checkedSub_of_le grant.budget.changes charging.plan.counted (by omega)
    refine .inl ⟨_, _, _, by simp only [Grant.chargeStep, stage, left]; rfl, ?_, ?_,
      Nat.le_trans (Nat.sub_le _ _) inv.changesWithin, inv.deletionsWithin, ?_⟩
    · simp only [heldChanges, Charging.heldChanges, stage, setStage, elim_some]
      omega
    · simp [heldDeletions, Charging.heldDeletions, stage, setStage]
    · rintro now ⟨⟩
      exact fresh
  | changesRefunded =>
    simp only [heldDeletions, Charging.heldDeletions, stage] at deletions
    have left := @checkedSub_of_le grant.budget.deletions charging.plan.deletions (by omega)
    refine .inl ⟨_, _, _, by simp only [Grant.chargeStep, stage, left]; rfl, ?_, ?_,
      inv.changesWithin, Nat.le_trans (Nat.sub_le _ _) inv.deletionsWithin,
      fun impossible => by cases impossible⟩
    · simp [heldChanges, Charging.heldChanges, stage]
    · simp only [heldDeletions, Charging.heldDeletions, stage, elim_none]
      omega

theorem chargeStep :
    ∃ next, grant.chargeStep limits charging = some next ∧ next.Inv limits := by
  rcases inv.chargeStep_cases current with
    ⟨changes, deletions, now, stepEq, moves⟩ | ⟨stage, transferredBytes, chargedEq⟩
  · exact ⟨_, stepEq, inv.charged moves⟩
  · exact inv.share current stage chargedEq

omit current

/-! ### Settlements -/

/-- A settlement of `id` goes on: the counters move by what the request and the counted
files contribute less. -/
theorem advance (found : grant.requests.lookup id = some holding) (next : Holding)
    (changes deletions : Nat) {ledger : Ledger} {counted : Finset Nat}
    (wf : ledger.Wf limits.maxTotalBytes (grant.published.map ByteReservation.size).sum)
    (shares : Shares (grant.requests.insert id next) counted ledger)
    (sameLedger : ∀ {charging}, grant.charging = some charging → ledger = grant.budget.ledger)
    (changesEq : changes + holding.ownChanges + grant.counted.card =
      grant.budget.changes + next.ownChanges + counted.card)
    (deletionsEq : deletions + holding.ownDeletions = grant.budget.deletions + next.ownDeletions)
    (changesLe : changes ≤ grant.budget.changes)
    (deletionsLe : deletions ≤ grant.budget.deletions) :
    Inv limits { grant with
      requests := grant.requests.insert id next
      counted
      budget := { grant.budget with ledger, changes, deletions } } := by
  have changesBefore := inv.changes
  have deletionsBefore := inv.deletions
  have ownChanges := total_update (fun _ holding => holding.ownChanges) found next
  have ownDeletions := total_update (fun _ holding => holding.ownDeletions) found next
  refine { inv with
    ledger := wf
    shares := shares
    changes := ?_
    deletions := ?_
    changesWithin := Nat.le_trans changesLe inv.changesWithin
    deletionsWithin := Nat.le_trans deletionsLe inv.deletionsWithin
    charging := ?_ }
  · change changes = total (fun _ holding => holding.ownChanges) (grant.requests.insert id next) +
      counted.card + grant.chargingChanges
    omega
  · change deletions = total (fun _ holding => holding.ownDeletions)
      (grant.requests.insert id next) + grant.chargingDeletions
    omega
  · intro charging current
    rcases inv.charging current with ⟨fresh, planEq⟩
    have other : charging.id ≠ id := by
      rintro rfl
      rw [fresh] at found
      cases found
    exact ⟨(lookup_insert_of_ne _ other).trans fresh, by rwa [sameLedger current]⟩

theorem settle {charged : Charged} (found : grant.requests.lookup id = some ⟨charged, none⟩)
    (ending : Ending) :
    ∃ next, grant.step limits (.settle id ending) = some next ∧ next.Inv limits := by
  refine ⟨_, by simp only [step, found]; rfl, inv.advance found
    ⟨charged, some ⟨ending, false, false, false⟩⟩ _ _ inv.ledger (inv.shares.update found rfl ?_)
    (fun _ => rfl) rfl rfl (Nat.le_refl _) (Nat.le_refl _)⟩
  intro key resv stored
  simp [holds, madeChange]

/-- What a request still counts is part of the counters. -/
theorem ownChanges_le (found : grant.requests.lookup id = some holding) :
    holding.ownChanges ≤ grant.budget.changes ∧ holding.ownDeletions ≤ grant.budget.deletions := by
  have changes := inv.changes
  have deletions := inv.deletions
  have ownChanges := le_total_of_lookup (fun _ holding => holding.ownChanges) found
  have ownDeletions := le_total_of_lookup (fun _ holding => holding.ownDeletions) found
  constructor <;> omega

theorem giveChanges {charged : Charged}
    (found : grant.requests.lookup id = some ⟨charged, some settling⟩)
    (outstanding : settling.changesGiven = false) :
    ∃ next, grant.step limits (.giveChanges id) = some next ∧ next.Inv limits := by
  have within := (charged.refundOf_le settling.ending).1
  have inCounter := (inv.ownChanges_le found).1
  rw [ownChanges_of_due outstanding] at inCounter
  have left := @checkedSub_of_le grant.budget.changes
    (charged.refundOf settling.ending).changes (by omega)
  rw [step_giveChanges limits found, left]
  refine ⟨_, rfl, inv.advance found ⟨charged, some { settling with changesGiven := true }⟩
    _ _ inv.ledger (inv.shares.update found rfl fun _ => ⟨rfl, rfl⟩) (fun _ => rfl) ?_ rfl
    (Nat.sub_le _ _) (Nat.le_refl _)⟩
  rw [ownChanges_of_due outstanding]
  simp only [ownChanges, givenChanges, ↓reduceIte, Grant.advance]
  omega

theorem giveDeletions {charged : Charged}
    (found : grant.requests.lookup id = some ⟨charged, some settling⟩)
    (outstanding : settling.deletionsGiven = false) :
    ∃ next, grant.step limits (.giveDeletions id) = some next ∧ next.Inv limits := by
  have within := (charged.refundOf_le settling.ending).2
  have inCounter := (inv.ownChanges_le found).2
  rw [ownDeletions_of_due outstanding] at inCounter
  have left := @checkedSub_of_le grant.budget.deletions
    (charged.refundOf settling.ending).deletions (by omega)
  rw [step_giveDeletions limits found, left]
  refine ⟨_, rfl, inv.advance found ⟨charged, some { settling with deletionsGiven := true }⟩
    _ _ inv.ledger (inv.shares.update found rfl fun _ => ⟨rfl, rfl⟩) (fun _ => rfl) rfl ?_
    (Nat.le_refl _) (Nat.sub_le _ _)⟩
  rw [ownDeletions_of_due outstanding]
  simp only [ownDeletions, givenDeletions, ↓reduceIte]
  omega

/-- A request without a share of a stored count releases nothing. -/
theorem releaseNothing {charged : Charged}
    (found : grant.requests.lookup id = some ⟨charged, some settling⟩)
    (gone : ∀ {key resv}, grant.budget.ledger.reserved.lookup key = some resv →
      charged.file ≠ some (key, resv.instance_)) :
    grant.step limits (.releaseFile id) = some (grant.advance id ⟨charged, some settling⟩
      { settling with fileReleased := true }) ∧
    Inv limits (grant.advance id ⟨charged, some settling⟩
      { settling with fileReleased := true }) := by
  constructor
  · rw [step_releaseFile limits found]
    cases file : charged.file with
    | none => rfl
    | some share =>
      rw [releaseFile_of_gone fun resv stored same =>
        gone stored (by rw [file, same])]
      simp [countedAfter, Grant.advance]
  · refine inv.advance found ⟨charged, some { settling with fileReleased := true }⟩ _ _ inv.ledger
      (inv.shares.update found rfl ?_) (fun _ => rfl) rfl rfl (Nat.le_refl _) (Nat.le_refl _)
    intro key resv stored
    have other := gone stored
    exact ⟨by rw [holds_of_ne other, holds_of_ne other],
      by rw [madeChange_of_ne other, madeChange_of_ne other]⟩

/-- A request releases its share of a stored count, which is given back exactly when
nothing is left of it. -/
theorem releaseShare (free : grant.charging = none) {charged : Charged}
    (found : grant.requests.lookup id = some ⟨charged, some settling⟩)
    (outstanding : settling.fileReleased = false) {key : FileKey} {resv : ByteReservation}
    (stored : grant.budget.ledger.reserved.lookup key = some resv)
    (file : charged.file = some (key, resv.instance_)) {entry : Option EntryCharge}
    (entryEq : entry = entryOf (grant.requests.insert id
      ⟨charged, some { settling with fileReleased := true }⟩) (key, resv.instance_)) :
    ∃ next, grant.step limits (.releaseFile id) = some next ∧ next.Inv limits ∧
      resv.instance_ ∈ grant.counted ∧
      next.counted = (if entry = none then grant.counted.erase resv.instance_ else grant.counted) ∧
      next.budget.changes + grant.counted.card = grant.budget.changes + next.counted.card := by
  rcases entryOf_release found outstanding file with ⟨others, before, after⟩
  rcases inv.shares.release inv.ledger stored found outstanding file entryEq with
    ⟨counted, shares⟩
  have positive : 0 < grant.counted.card := Finset.card_pos.mpr ⟨_, counted⟩
  have changes := inv.changes
  have released := releaseFile_of_stored stored ((inv.shares.entry stored).trans before)
    (charged.refundOf settling.ending).made (by omega)
  rw [← after, ← entryEq] at released
  rw [step_releaseFile limits found, file, released]
  have lowered : ∀ ledger, grant.countedAfter (some (key, resv.instance_))
      { grant.budget with
        changes := grant.budget.changes - if entry = none then 1 else 0, ledger } =
        if entry = none then grant.counted.erase resv.instance_ else grant.counted := by
    intro ledger
    by_cases nothing : entry = none
    · simp only [countedAfter, nothing, ↓reduceIte]
      rw [if_pos (by omega)]
    · simp [countedAfter, nothing]
  have card : (grant.budget.changes - if entry = none then 1 else 0) + grant.counted.card =
      grant.budget.changes +
        (if entry = none then grant.counted.erase resv.instance_ else grant.counted).card := by
    split
    · rw [Finset.card_erase_of_mem counted]
      omega
    · omega
  have next := inv.advance found ⟨charged, some { settling with fileReleased := true }⟩
    (grant.budget.changes - if entry = none then 1 else 0) grant.budget.deletions
    (inv.ledger.withEntry stored entry) shares (fun busy => by rw [free] at busy; cases busy)
    (by simp only [ownChanges, givenChanges]; omega) rfl (Nat.sub_le _ _)
    (Nat.le_refl _)
  refine ⟨_, rfl, ?_, counted, lowered _, ?_⟩
  · rw [← lowered] at next
    exact next
  · rw [← lowered] at card
    exact card

theorem releaseFile (free : grant.charging = none) {charged : Charged}
    (found : grant.requests.lookup id = some ⟨charged, some settling⟩)
    (outstanding : settling.fileReleased = false) :
    ∃ next, grant.step limits (.releaseFile id) = some next ∧ next.Inv limits := by
  by_cases shared : ∃ key resv,
      grant.budget.ledger.reserved.lookup key = some resv ∧
        charged.file = some (key, resv.instance_)
  · rcases shared with ⟨key, resv, stored, file⟩
    rcases inv.releaseShare free found outstanding stored file rfl with ⟨next, stepEq, nextInv, -⟩
    exact ⟨next, stepEq, nextInv⟩
  · exact ⟨_, inv.releaseNothing found fun stored file => shared ⟨_, _, stored, file⟩⟩

end

/-! ### Every event -/

theorem due_cases {part : Settling → Bool} (due : grant.due id part = true) :
    ∃ charged settling, grant.requests.lookup id = some ⟨charged, some settling⟩ ∧
      part settling = false := by
  unfold Grant.due at due
  cases found : grant.requests.lookup id with
  | none => simp [found] at due
  | some holding =>
    rcases holding with ⟨charged, _ | settling⟩
    · simp [found] at due
    · exact ⟨charged, settling, rfl, by simpa [found] using due⟩

/-- No permitted event fails, and each keeps the invariant. -/
theorem step (inv : grant.Inv limits) {event : GrantEvent} (enabled : grant.enabled event = true) :
    ∃ next, grant.step limits event = some next ∧ next.Inv limits := by
  cases event with
  | reserve key size observationOnly =>
    exact ⟨_, rfl, inv.reserve (isNone_iff_eq_none.mp enabled) key size observationOnly⟩
  | settleHold key hold retain =>
    rcases inv.settleHold (isNone_iff_eq_none.mp enabled) key hold retain with
      ⟨next, settled, nextInv⟩
    exact ⟨_, by simp [Grant.step, settled], nextInv⟩
  | releaseHolds holds =>
    rcases inv.releaseHolds (isNone_iff_eq_none.mp enabled) holds with
      ⟨next, released, nextInv⟩
    exact ⟨_, by simp [Grant.step, released], nextInv⟩
  | publish key => exact ⟨_, rfl, inv.publish (isNone_iff_eq_none.mp enabled) key⟩
  | beginCharge id req =>
    simp only [Grant.enabled, Bool.and_eq_true, isNone_iff_eq_none] at enabled
    exact inv.beginCharge enabled.1 enabled.2 req
  | chargeStep =>
    rcases isSome_iff_exists.mp enabled with ⟨charging, current⟩
    rcases inv.chargeStep current with ⟨next, stepEq, nextInv⟩
    exact ⟨next, by simp [Grant.step, current, stepEq], nextInv⟩
  | settle id ending =>
    simp only [Grant.enabled] at enabled
    cases found : grant.requests.lookup id with
    | none => simp [found] at enabled
    | some holding =>
      rcases holding with ⟨charged, _ | settling⟩
      · exact inv.settle found ending
      · simp [found] at enabled
  | giveChanges id =>
    rcases due_cases enabled with ⟨charged, settling, found, outstanding⟩
    exact inv.giveChanges found outstanding
  | giveDeletions id =>
    rcases due_cases enabled with ⟨charged, settling, found, outstanding⟩
    exact inv.giveDeletions found outstanding
  | releaseFile id =>
    simp only [Grant.enabled, Bool.and_eq_true, isNone_iff_eq_none] at enabled
    rcases due_cases enabled.2 with ⟨charged, settling, found, outstanding⟩
    exact inv.releaseFile enabled.1 found outstanding

/-- The invariant holds throughout every run. -/
theorem of_run {events : List GrantEvent}
    (run : (grantSystem limits).exec .init events = some grant) : grant.Inv limits := by
  refine @System.exec_invariant _ _ (grantSystem limits) (Grant.Inv limits) ?_ _ _ _
    (Inv.init limits) run
  intro state event next inv enabled stepEq
  rcases inv.step enabled with ⟨_, stepEq', nextInv⟩
  rw [show (grantSystem limits).step state event = _ from stepEq'] at stepEq
  exact some.inj stepEq ▸ nextInv

end Inv

end Grant

end Syq.Restricted
