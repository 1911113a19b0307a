import Syq.Restricted.GrantInvariant

/-!
# The limits of a signed grant

The results about the budgets of a grant over every interleaving of its requests: the
byte ceiling, the entry and deletion limits, and what a charge and a settlement do to
them.
-/

namespace Syq.Restricted

open Syq.Lib ByteReservation List Option

variable {share : FileShare}

/-! ## The byte ceiling -/

namespace Ledger

/-- Settling a hold stores the settled reservation, or drops it with its last size. -/
theorem effective_settle {maxTotalBytes pub : Nat} {ledger next : Ledger}
    (wf : ledger.Wf maxTotalBytes pub) {key : FileKey} {hold size : Nat} {retain : Bool}
    {resv : ByteReservation}
    (settled : ledger.settleObservationReservation key hold retain = some next)
    (found : ledger.reserved.lookup key = some resv)
    (held : resv.observations.lookup hold = some size) :
    next.effective key = (resv.settle hold size retain).effectiveSize := by
  rcases wf.settle key hold retain with ⟨_, nextEq, -, either⟩
  rw [settled] at nextEq
  cases nextEq
  rcases either with ⟨rfl, gone⟩ | ⟨stored, held', found', heldEq, rfl⟩
  · rw [gone resv found] at held
    cases held
  · rw [found] at found'
    cases found'
    rw [held] at heldEq
    cases heldEq
    by_cases nothing : (resv.settle hold size retain).effectiveSize = none
    · simp [effective, store, nothing]
    · simp [effective, store, nothing]

end Ledger

/-- What is kept without a hold is kept when the hold is settled. -/
theorem ByteReservation.effectiveSize_settle {resv : ByteReservation} {hold other : Nat}
    (kept : other ∈ (resv.release hold).sizes) (size : Nat) (retain : Bool) :
    ∃ effective, (resv.settle hold size retain).effectiveSize = some effective ∧
      other ≤ effective := by
  cases retain with
  | false =>
    refine ⟨(resv.release hold).size, ?_, ?_⟩
    · exact (effectiveSize_eq _).trans (if_neg (ne_nil_of_mem kept))
    · rw [size_eq]
      exact le_foldr_max kept
  | true =>
    refine ⟨_, ?_, Nat.le_trans ?_ (resv.size_release_le_settle hold size true)⟩
    · rw [effectiveSize_eq, if_neg]
      exact sizes_retain_ne_nil _ _
    · rw [size_eq]
      exact le_foldr_max kept

/-- Over every interleaving, the reserved bytes are the effective sizes of the files in
the ledger and of those published from it, within the signed total; every stored
reservation has a size; no permitted event fails; a refused reservation changes
nothing; and settling a hold lowers a file's size to no less than its other holds and
its retained size. -/
theorem reserved_bytes_within_ceiling (limits : Limits) {events : List GrantEvent} {grant : Grant}
    (run : (grantSystem limits).exec .init events = some grant) :
    grant.budget.ledger.reservedBytes =
      total (fun _ reservation => reservation.effectiveSize.getD 0) grant.budget.ledger.reserved +
        (grant.published.map fun reservation => reservation.effectiveSize.getD 0).sum ∧
    grant.budget.ledger.reservedBytes ≤ limits.maxTotalBytes ∧
    (∀ key reservation, grant.budget.ledger.reserved.lookup key = some reservation →
      reservation.retained.isSome ∨ reservation.observations ≠ []) ∧
    (∀ event, grant.enabled event = true → (grant.step limits event).isSome) ∧
    (∀ key size observationOnly message next,
      grant.budget.ledger.reserveBytes limits.maxTotalBytes key size observationOnly =
        (.error message, next) → next = grant.budget.ledger) ∧
    (∀ key hold retain next,
      grant.budget.ledger.settleObservationReservation key hold retain = some next →
      ∀ reservation size, grant.budget.ledger.reserved.lookup key = some reservation →
        reservation.observations.lookup hold = some size →
        (next.effective key).getD 0 ≤ (grant.budget.ledger.effective key).getD 0 ∧
        (∀ retained, reservation.retained = some retained →
          ∃ after, next.effective key = some after ∧ retained ≤ after) ∧
        (∀ other held, (other, held) ∈ reservation.observations → other ≠ hold →
          ∃ after, next.effective key = some after ∧ held ≤ after)) := by
  have inv := Grant.Inv.of_run run
  refine ⟨inv.ledger.balance, inv.ledger.bounded, ?_, ?_, ?_, ?_⟩
  · intro key reservation found
    have sized := inv.ledger.sized found
    cases retained : reservation.retained with
    | some size => exact .inl rfl
    | none =>
      refine .inr fun nothing => sized ?_
      simp [sizes, retained, nothing]
  · intro event enabled
    rcases inv.step enabled with ⟨next, stepEq, -⟩
    simp [stepEq]
  · intro key size observationOnly message next refused
    exact Ledger.reserveBytes_error refused
  · intro key hold retain next settled reservation size found held
    rw [Ledger.effective_settle inv.ledger settled found held]
    refine ⟨?_, ?_, ?_⟩
    · rw [Ledger.getD_effective, Ledger.Wf.sizeOf_of_lookup found]
      exact size_settle_le held retain
    · intro retained keeps
      apply effectiveSize_settle
      simp [sizes, release, keeps]
    · intro other othersSize observed different
      apply effectiveSize_settle
      simp only [sizes, release, List.mem_append, List.mem_map, List.mem_filter]
      exact .inr ⟨(other, othersSize), ⟨observed, by simpa using different⟩, rfl⟩

/-- Two observations of one file: the larger one is dropped, the other kept until the
file is published. -/
def observeTwice (key : FileKey) : List GrantEvent :=
  [.reserve key 5 true, .reserve key 3 true, .settleHold key 0 false, .settleHold key 1 true,
    .publish key]

theorem reserved_bytes_within_ceiling_published :
    ∃ grant, (grantSystem ⟨1, 0, 8⟩).exec .init (observeTwice ([102], 0)) = some grant ∧
      grant.published.length = 1 ∧ grant.budget.ledger.reservedBytes = 3 ∧
      grant.budget.ledger.reservedBytes ≤ 8 := by
  have runs : ((grantSystem ⟨1, 0, 8⟩).exec .init (observeTwice ([102], 0))).map (fun grant =>
      (grant.published.length, grant.budget.ledger.reservedBytes)) = some (1, 3) := by
    decide +kernel
  rcases map_eq_some_iff.mp runs with ⟨grant, run, shape⟩
  have result := reserved_bytes_within_ceiling ⟨1, 0, 8⟩ run
  exact ⟨grant, run, congrArg Prod.fst shape, congrArg Prod.snd shape, result.2.1⟩

/-! ## Refused charges leave no trace -/

namespace Grant

variable {grant next : Grant} {limits : Limits} {event : GrantEvent}

/-- A grant without what the charge in progress has added to its counters. -/
def settledView (grant : Grant) : Grant :=
  { grant with
    budget := { grant.budget with
      changes := grant.budget.changes - grant.chargingChanges
      deletions := grant.budget.deletions - grant.chargingDeletions }
    charging := none }

theorem settledView_of_free (free : grant.charging = none) : grant.settledView = grant := by
  rcases grant with ⟨budget, charging, reqs, pub, counted⟩
  cases free
  rfl

theorem subset_countedWith (plan : ChargePlan) (counted : Finset Nat) :
    counted ⊆ plan.countedWith counted := by
  unfold ChargePlan.countedWith
  split
  · split
    · exact Finset.subset_insert _ _
    · exact Finset.Subset.refl _
  · exact Finset.Subset.refl _

/-- A step adds or updates at most one charged request, and an instance stays counted
unless a file is released. -/
theorem frame_of_step (stepEq : grant.step limits event = some next) :
    (next.requests = grant.requests ∨ ∃ id holding, next.requests =
      grant.requests.insert id holding) ∧
    ((∀ id, event ≠ .releaseFile id) → grant.counted ⊆ next.counted) := by
  have refl := Finset.Subset.refl grant.counted
  cases event with
  | reserve key size observationOnly | publish key =>
    rw [← some.inj stepEq]
    exact ⟨.inl rfl, fun _ => refl⟩
  | settleHold key hold retain | releaseHolds holds =>
    rcases bind_eq_some_iff.mp stepEq with ⟨ledger, -, nextEq⟩
    rw [← some.inj nextEq]
    exact ⟨.inl rfl, fun _ => refl⟩
  | beginCharge id req =>
    simp only [step] at stepEq
    split at stepEq
    all_goals
      rw [← some.inj stepEq]
      exact ⟨.inl rfl, fun _ => refl⟩
  | chargeStep =>
    rcases bind_eq_some_iff.mp stepEq with ⟨charging, -, stepEq⟩
    unfold chargeStep at stepEq
    dsimp only at stepEq
    split at stepEq
    · split at stepEq
      all_goals
        rw [← some.inj stepEq]
        exact ⟨.inl rfl, fun _ => refl⟩
    · split at stepEq
      · rw [← some.inj stepEq]
        exact ⟨.inl rfl, fun _ => refl⟩
      · rcases bind_eq_some_iff.mp stepEq with ⟨ledger, -, nextEq⟩
        rw [← some.inj nextEq]
        exact ⟨.inr ⟨_, _, rfl⟩, fun _ => subset_countedWith _ _⟩
    all_goals
      rcases bind_eq_some_iff.mp stepEq with ⟨counter, -, nextEq⟩
      rw [← some.inj nextEq]
      exact ⟨.inl rfl, fun _ => refl⟩
  | settle id ending =>
    rcases bind_eq_some_iff.mp stepEq with ⟨holding, -, nextEq⟩
    rw [← some.inj nextEq]
    exact ⟨.inr ⟨_, _, rfl⟩, fun _ => refl⟩
  | giveChanges id | giveDeletions id | releaseFile id =>
    rcases bind_eq_some_iff.mp stepEq with ⟨holding, -, stepEq⟩
    rcases bind_eq_some_iff.mp stepEq with ⟨settling, -, stepEq⟩
    rcases bind_eq_some_iff.mp stepEq with ⟨counter, -, nextEq⟩
    rw [← some.inj nextEq]
    exact ⟨.inr ⟨_, _, rfl⟩, fun other => by first | exact refl | exact absurd rfl (other id)⟩

/-- A charged request stays known. -/
theorem known_of_step (stepEq : grant.step limits event = some next) {id : Nat}
    (known : id ∈ grant.requests) : id ∈ next.requests := by
  rcases (frame_of_step stepEq).1 with same | ⟨changed, holding, inserted⟩
  · rwa [same]
  · rw [inserted, Finmap.mem_insert]
    exact .inr known

/-- A charge that has not gone through does not show. -/
theorem settledView_of_charge (inv : grant.Inv limits) (own : event.ofCharge = true)
    (enabled : grant.enabled event = true) (stepEq : grant.step limits event = some next)
    (refused : ∀ {id}, id ∈ next.requests → id ∈ grant.requests) :
    next.settledView = grant.settledView := by
  have hidden : ∀ {changes deletions now}, next = { grant with
        budget := { grant.budget with changes, deletions }
        charging := now } →
      changes + grant.chargingChanges = grant.budget.changes + now.elim 0 Charging.heldChanges →
      deletions + grant.chargingDeletions =
        grant.budget.deletions + now.elim 0 Charging.heldDeletions →
      next.settledView = grant.settledView := by
    intro changes deletions now nextEq changesEq deletionsEq
    have sameChanges : changes - now.elim 0 Charging.heldChanges =
        grant.budget.changes - grant.chargingChanges := by omega
    have sameDeletions : deletions - now.elim 0 Charging.heldDeletions =
        grant.budget.deletions - grant.chargingDeletions := by omega
    rw [nextEq]
    simp only [settledView, chargingChanges, chargingDeletions] at sameChanges sameDeletions ⊢
    rw [sameChanges, sameDeletions]
  cases event with
  | beginCharge id req =>
    simp only [Grant.enabled, Bool.and_eq_true, isNone_iff_eq_none] at enabled
    simp only [step] at stepEq
    split at stepEq
    · rw [← some.inj stepEq]
    · rename_i changes chargedEq
      have sum := charge_eq_some chargedEq
      refine hidden (some.inj stepEq).symm ?_ ?_
      · simp only [chargingChanges, enabled.1, elim_none, elim_some, Charging.heldChanges]
        omega
      · simp [chargingDeletions, enabled.1, Charging.heldDeletions]
  | chargeStep =>
    rcases bind_eq_some_iff.mp stepEq with ⟨charging, current, stepEq⟩
    rcases inv.chargeStep_cases current with
      ⟨changes, deletions, now, chargedEq, changesEq, deletionsEq, -⟩ |
        ⟨stage, transferredBytes, chargedEq⟩
    · rw [chargedEq] at stepEq
      exact hidden (some.inj stepEq).symm changesEq deletionsEq
    · -- The last step of a charge that goes through adds its request.
      simp only [Grant.chargeStep, stage, chargedEq] at stepEq
      rcases bind_eq_some_iff.mp stepEq with ⟨ledger, -, nextEq⟩
      have added : charging.id ∈ next.requests := by
        rw [← some.inj nextEq]
        exact Finmap.mem_insert.mpr (.inl rfl)
      exact absurd (refused added) (Finmap.lookup_eq_none.mp (inv.charging current).1)
  | _ => cases own

/-- Settlements go on under a charge as they would without it. -/
theorem settledView_of_other (inv : grant.Inv limits) (other : event.ofCharge = false)
    (enabled : grant.enabled event = true) (stepEq : grant.step limits event = some next) :
    grant.settledView.enabled event = true ∧
      grant.settledView.step limits event = some next.settledView := by
  have free : grant.charging = none → next.charging = none →
      grant.settledView.enabled event = true ∧
        grant.settledView.step limits event = some next.settledView := by
    intro free nextFree
    rw [settledView_of_free free, settledView_of_free nextFree]
    exact ⟨enabled, stepEq⟩
  have changes := inv.changes
  have deletions := inv.deletions
  cases event with
  | reserve key size observationOnly | publish key =>
    have idle := isNone_iff_eq_none.mp enabled
    exact free idle (by rw [← some.inj stepEq]; exact idle)
  | settleHold key hold retain | releaseHolds holds =>
    have idle := isNone_iff_eq_none.mp enabled
    rcases bind_eq_some_iff.mp stepEq with ⟨ledger, -, nextEq⟩
    exact free idle (by rw [← some.inj nextEq]; exact idle)
  | beginCharge id req | chargeStep => cases other
  | settle id ending =>
    refine ⟨enabled, ?_⟩
    rcases bind_eq_some_iff.mp stepEq with ⟨holding, found, nextEq⟩
    rw [← some.inj nextEq]
    simp only [step, show grant.settledView.requests.lookup id = some holding from found]
    rfl
  | giveChanges id =>
    refine ⟨enabled, ?_⟩
    rcases Inv.due_cases enabled with ⟨charged, settling, found, outstanding⟩
    have own := le_total_of_lookup (fun _ holding => holding.ownChanges) found
    have within := (charged.refundOf_le settling.ending).1
    rw [Holding.ownChanges_of_due outstanding] at own
    rw [step_giveChanges limits found] at stepEq
    rcases map_eq_some_iff.mp stepEq with ⟨left, leftEq, rfl⟩
    have leftSum := checkedSub_eq_some_iff.mp leftEq
    have viewLeft : checkedSub grant.settledView.budget.changes
        (charged.refundOf settling.ending).changes = some (left - grant.chargingChanges) :=
      checkedSub_eq_some_iff.mpr (by simp only [settledView]; omega)
    rw [step_giveChanges limits
      (show grant.settledView.requests.lookup id = some ⟨charged, some settling⟩ from found),
      viewLeft]
    rfl
  | giveDeletions id =>
    refine ⟨enabled, ?_⟩
    rcases Inv.due_cases enabled with ⟨charged, settling, found, outstanding⟩
    have own := le_total_of_lookup (fun _ holding => holding.ownDeletions) found
    have within := (charged.refundOf_le settling.ending).2
    rw [Holding.ownDeletions_of_due outstanding] at own
    rw [step_giveDeletions limits found] at stepEq
    rcases map_eq_some_iff.mp stepEq with ⟨left, leftEq, rfl⟩
    have leftSum := checkedSub_eq_some_iff.mp leftEq
    have viewLeft : checkedSub grant.settledView.budget.deletions
        (charged.refundOf settling.ending).deletions = some (left - grant.chargingDeletions) :=
      checkedSub_eq_some_iff.mpr (by simp only [settledView]; omega)
    rw [step_giveDeletions limits
      (show grant.settledView.requests.lookup id = some ⟨charged, some settling⟩ from found),
      viewLeft]
    rfl
  | releaseFile id =>
    simp only [Grant.enabled, Bool.and_eq_true, isNone_iff_eq_none] at enabled
    refine free enabled.1 ?_
    rcases Inv.due_cases enabled.2 with ⟨charged, settling, found, -⟩
    rw [step_releaseFile limits found] at stepEq
    rcases map_eq_some_iff.mp stepEq with ⟨budget, -, rfl⟩
    exact enabled.1

/-- Charges that are all refused might as well not have been made. -/
theorem erase_refused {target : Grant} (inv : grant.Inv limits) {events : List GrantEvent}
    (run : (grantSystem limits).exec grant events = some target) (free : grant.charging = none)
    (targetFree : target.charging = none)
    (refused : ∀ {id}, id ∈ target.requests → id ∈ grant.requests) :
    (grantSystem limits).exec grant (events.filter fun event => !event.ofCharge) = some target := by
  have erased := @System.exec_erase _ _ (grantSystem limits)
    (fun state => state.Inv limits ∧ ∀ {id}, id ∈ grant.requests → id ∈ state.requests)
    (fun state => ∀ {id}, id ∈ state.requests → id ∈ grant.requests)
    settledView GrantEvent.ofCharge ?_ ?_ ?_ ?_ grant target events ⟨inv, fun known => known⟩
    refused run
  · rwa [settledView_of_free free, settledView_of_free targetFree] at erased
  · intro state event next stateInv enabled stepEq
    rcases stateInv.1.step enabled with ⟨next', stepEq', nextInv⟩
    have same : next' = next := some.inj (stepEq'.symm.trans stepEq)
    exact ⟨same ▸ nextInv, fun known => known_of_step stepEq (stateInv.2 known)⟩
  · intro state event next stepEq past id known
    exact past (known_of_step stepEq known)
  · intro state event next stateInv past own enabled stepEq
    exact settledView_of_charge stateInv.1 own enabled stepEq fun known => stateInv.2 (past known)
  · intro state event next stateInv other enabled stepEq
    exact settledView_of_other stateInv.1 other enabled stepEq

end Grant

/-! ## When a file's count is given back -/

/-- A request that released its share without having made a change. -/
def Holding.ReleasedUnmade (holding : Holding) : Prop :=
  ∃ settling, holding.settling = some settling ∧ settling.fileReleased = true ∧
    (holding.charged.refundOf settling.ending).made = false

theorem Holding.releasedUnmade_iff {holding : Holding}
    (shared : holding.charged.file = some share) :
    holding.ReleasedUnmade ↔ holding.holds share = false ∧ holding.madeChange share = false := by
  rcases holding with ⟨charged, _ | settling⟩
  · simp only [ReleasedUnmade, Holding.holds, show charged.file = some share from shared]
    simp
  · simp only [ReleasedUnmade, Holding.holds, Holding.madeChange,
      show charged.file = some share from shared]
    cases released : settling.fileReleased <;> simp [released]

/-- Nothing is left of a file's count when every request that shared it released its
share without a change. -/
theorem entryOf_eq_none_iff {reqs : Table Nat Holding} :
    entryOf reqs share = none ↔ ∀ id holding, reqs.lookup id = some holding →
      holding.charged.file = some share → holding.ReleasedUnmade := by
  constructor
  · intro nothing id holding found shared
    have zero : holders reqs share = 0 ∧ madeChanges reqs share = 0 := by
      simpa [entryOf, entryCharge] using nothing
    rw [Holding.releasedUnmade_iff shared]
    have holds := le_total_of_lookup (fun _ holding => (holding.holds share).toNat) found
    have made := le_total_of_lookup (fun _ holding => (holding.madeChange share).toNat) found
    rw [show total _ reqs = 0 from zero.1] at holds
    rw [show total _ reqs = 0 from zero.2] at made
    exact ⟨by simpa using holds, by simpa using made⟩
  · intro all
    have none_ : ∀ {id holding}, reqs.lookup id = some holding →
        holding.holds share = false ∧ holding.madeChange share = false := by
      intro id holding found
      by_cases shared : holding.charged.file = some share
      · exact (Holding.releasedUnmade_iff shared).mp (all id holding found shared)
      · exact ⟨holds_of_ne shared, madeChange_of_ne shared⟩
    have noHolders : holders reqs share = 0 :=
      total_eq_zero _ fun found => by simp [(none_ found).1]
    have noChanges : madeChanges reqs share = 0 :=
      total_eq_zero _ fun found => by simp [(none_ found).2]
    simp [entryOf, entryCharge, noHolders, noChanges]

/-- The same once one of the requests releases its share. -/
theorem entryOf_release_eq_none_iff {reqs : Table Nat Holding} {id : Nat} {charged : Charged}
    {settling : Settling} (shared : charged.file = some share) :
    entryOf (reqs.insert id ⟨charged, some { settling with fileReleased := true }⟩) share = none ↔
      (charged.refundOf settling.ending).made = false ∧
      ∀ other holding, other ≠ id → reqs.lookup other = some holding →
        holding.charged.file = some share → holding.ReleasedUnmade := by
  rw [entryOf_eq_none_iff]
  constructor
  · intro all
    constructor
    · rcases all id _ (Finmap.lookup_insert _) shared with ⟨now, nowEq, -, unmade⟩
      cases nowEq
      exact unmade
    · intro other holding diff found
      exact all other holding ((Finmap.lookup_insert_of_ne _ diff).trans found)
  · rintro ⟨unmade, others⟩ other holding found same
    rcases cases_of_insert found with ⟨-, rfl⟩ | ⟨diff, old⟩
    · exact ⟨_, rfl, rfl, unmade⟩
    · exact others other holding diff old same

namespace Grant

/-- A counted instance is given back by exactly the release of its last share, when the
instance is still stored and none of its shares made a change. -/
theorem uncounted_iff {limits : Limits} {grant next : Grant} (inv : grant.Inv limits)
    {event : GrantEvent} (enabled : grant.enabled event = true)
    (stepEq : grant.step limits event = some next) (instance_ : Nat) :
    (instance_ ∈ grant.counted ∧ instance_ ∉ next.counted) ↔
      ∃ id charged settling key, event = .releaseFile id ∧
        grant.requests.lookup id = some ⟨charged, some settling⟩ ∧
        charged.file = some (key, instance_) ∧
        (∃ resv, grant.budget.ledger.reserved.lookup key = some resv ∧ resv.instance_ = instance_) ∧
        (charged.refundOf settling.ending).made = false ∧
        ∀ other holding, other ≠ id → grant.requests.lookup other = some holding →
          holding.charged.file = some (key, instance_) → holding.ReleasedUnmade := by
  constructor
  · rintro ⟨counted, uncounted⟩
    have released : ∃ id, event = .releaseFile id := by
      by_contra other
      push Not at other
      exact uncounted ((frame_of_step stepEq).2 other counted)
    rcases released with ⟨id, rfl⟩
    simp only [Grant.enabled, Bool.and_eq_true, isNone_iff_eq_none] at enabled
    rcases Inv.due_cases enabled.2 with ⟨charged, settling, found, outstanding⟩
    by_cases shared : ∃ key resv,
        grant.budget.ledger.reserved.lookup key = some resv ∧
          charged.file = some (key, resv.instance_)
    · rcases shared with ⟨key, resv, stored, file⟩
      rcases inv.releaseShare enabled.1 found outstanding stored file rfl with
        ⟨next', stepEq', -, -, countedEq, -⟩
      obtain rfl : next' = next := some.inj (stepEq'.symm.trans stepEq)
      rw [countedEq] at uncounted
      split at uncounted
      · rename_i nothing
        rw [Finset.mem_erase, not_and'] at uncounted
        obtain rfl : instance_ = resv.instance_ := not_not.mp (uncounted counted)
        rcases (entryOf_release_eq_none_iff file).mp nothing with ⟨unmade, others⟩
        exact ⟨id, charged, settling, key, rfl, found, file, ⟨resv, stored, rfl⟩, unmade, others⟩
      · exact absurd counted uncounted
    · have nothing := inv.releaseNothing found fun stored file => shared ⟨_, _, stored, file⟩
      obtain rfl := some.inj (nothing.1.symm.trans stepEq)
      exact absurd counted uncounted
  · rintro ⟨id, charged, settling, key, rfl, found, file, ⟨resv, stored, rfl⟩, unmade, others⟩
    simp only [Grant.enabled, Bool.and_eq_true, isNone_iff_eq_none] at enabled
    rcases Inv.due_cases enabled.2 with ⟨charged', settling', found', outstanding⟩
    rw [found] at found'
    cases found'
    rcases inv.releaseShare enabled.1 found outstanding stored file rfl with
      ⟨next', stepEq', -, counted, countedEq, -⟩
    obtain rfl : next' = next := some.inj (stepEq'.symm.trans stepEq)
    rw [countedEq, if_pos ((entryOf_release_eq_none_iff file).mpr ⟨unmade, others⟩)]
    exact ⟨counted, Finset.notMem_erase _ _⟩

end Grant

/-! ## The entry and deletion limits -/

/-- Over every interleaving, the entry and deletion counters stay within the signed
limits and never wrap; charges that are refused leave no trace; a settlement gives back
at most what its own request was charged; the entry counter is the sum of what the
requests count as their own and one for each counted reservation instance; and that one
is given back exactly when its last holder settles, no holder made a change and the
instance is still stored. -/
theorem entries_and_deletions_within_limits (limits : Limits) {events : List GrantEvent}
    {grant : Grant} (run : (grantSystem limits).exec .init events = some grant) :
    grant.budget.changes ≤ limits.maxEntries ∧ grant.budget.deletions ≤ limits.maxDeletions ∧
    (∀ event, grant.enabled event = true → (grant.step limits event).isSome) ∧
    (∀ request message next, chargeRequest limits grant.budget request =
      some (.error message, next) → next = grant.budget) ∧
    (∀ later target, (grantSystem limits).exec grant later = some target →
      grant.charging = none → target.charging = none →
      (∀ id, id ∈ target.requests → id ∈ grant.requests) →
      (grantSystem limits).exec grant (later.filter fun event => !event.ofCharge) = some target) ∧
    (∀ id holding, grant.requests.lookup id = some holding →
      holding.givenChanges ≤ holding.charged.changes ∧
        holding.givenDeletions ≤ holding.charged.deleting.length) ∧
    grant.budget.changes =
      total (fun _ holding => holding.charged.changes - holding.givenChanges) grant.requests +
        grant.counted.card + grant.chargingChanges ∧
    grant.budget.deletions =
      total (fun _ holding => holding.charged.deleting.length - holding.givenDeletions)
        grant.requests + grant.chargingDeletions ∧
    (∀ event next, grant.enabled event = true → grant.step limits event = some next →
      ∀ instance_, (instance_ ∈ grant.counted ∧ instance_ ∉ next.counted) ↔
        ∃ id charged settling key, event = .releaseFile id ∧
          grant.requests.lookup id = some ⟨charged, some settling⟩ ∧
          charged.file = some (key, instance_) ∧
          (∃ reservation, grant.budget.ledger.reserved.lookup key = some reservation ∧
            reservation.instance_ = instance_) ∧
          (charged.refundOf settling.ending).made = false ∧
          ∀ other holding, other ≠ id → grant.requests.lookup other = some holding →
            holding.charged.file = some (key, instance_) → holding.ReleasedUnmade) := by
  have inv := Grant.Inv.of_run run
  refine ⟨inv.changesWithin, inv.deletionsWithin, ?_, ?_, ?_, ?_, inv.changes, inv.deletions, ?_⟩
  · intro event enabled
    rcases inv.step enabled with ⟨next, stepEq, -⟩
    simp [stepEq]
  · intro request message next refused
    exact chargeRequest_error refused
  · intro later target laterRun free targetFree refused
    exact Grant.erase_refused inv laterRun free targetFree fun {id} => refused id
  · intro id holding _
    exact ⟨holding.givenChanges_le, holding.givenDeletions_le⟩
  · intro event next enabled stepEq instance_
    exact Grant.uncounted_iff inv enabled stepEq instance_

/-- Two requests share a file's count.  The deletion of a third is refused at its limit,
between the releases of the two. -/
def shareTwice (key : FileKey) : List GrantEvent :=
  [.reserve key 5 false, .beginCharge 0 (.stageBasis key.1 key.2 5), .chargeStep, .chargeStep,
    .beginCharge 1 (.finalize key.1 key.2), .chargeStep, .chargeStep,
    .settle 0 .unexecuted, .giveChanges 0, .giveDeletions 0, .releaseFile 0,
    .beginCharge 2 (.apply [.unlink key.1]), .chargeStep, .settle 1 .unexecuted, .chargeStep,
    .giveChanges 1, .giveDeletions 1, .releaseFile 1]

theorem entries_and_deletions_within_limits_shared :
    ∃ grant, (grantSystem ⟨2, 0, 8⟩).exec .init (shareTwice ([102], 0)) = some grant ∧
      grant.budget.changes = 0 ∧ grant.counted = ∅ ∧ grant.budget.changes ≤ 2 := by
  have runs : ((grantSystem ⟨2, 0, 8⟩).exec .init (shareTwice ([102], 0))).map (fun grant =>
      (grant.budget.changes, grant.counted)) = some (0, ∅) := by
    decide +kernel
  rcases map_eq_some_iff.mp runs with ⟨grant, run, shape⟩
  have result := entries_and_deletions_within_limits ⟨2, 0, 8⟩ run
  exact ⟨grant, run, congrArg Prod.fst shape, congrArg Prod.snd shape, result.1⟩

end Syq.Restricted
