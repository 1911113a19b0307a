import Syq.Restricted.Charge
import Syq.Results.Change

/-!
# Settling authorized requests

An authorized request is settled with the executor's response: its charge is given
back as far as nothing was changed, its provisional creations are confirmed or
forgotten, its reservations kept, released or published, and its changes passed to the
results.
-/

namespace Syq.Restricted

open Syq.Lib Syq.Results

inductive FileStage where
  | prepare
  | write
  | finalize
  deriving DecidableEq

/-- One change a request makes, reported once the executor confirms it. -/
inductive PendingOutcome where
  | logical (index : Nat) (path : Path) (change : Change)
  | metadata (index : Nat) (path : Path) (kind : Option Kind)
  | logicalIfFailed (index : Nat) (path : Path) (change : Change)
  | fileStage (index : Nat) (path : Path) (copyId : CopyId) (size : Option Nat) (stage : FileStage)
      (skipIfAbsent : Bool) (observationHold : Option Nat)
  | smallCopy (index : Nat) (path : Path) (size : Nat)
  | patch (index : Nat) (path : Path) (copyId : CopyId) (size : Nat) (hold : Option Nat)

/-- One object a request creates or replaces. -/
structure PendingCreation where
  index : Nat
  path : Path
  persist : Bool
  link : Bool

/-- What an authorized request recorded provisionally. -/
structure Settlement where
  creations : List PendingCreation
  outcomes : List PendingOutcome
  charged : Charged
  tracked : Bool

/-- A file whose writing has begun under the results and which has not been
published. -/
structure FileLifecycle where
  size : Nat
  lastError : Option String
  lastClass : String
  listed : Bool
  deriving DecidableEq

/-- What the results stream is told. -/
inductive ResultsCall where
  | record (change : Change) (dst : Option Path) (error : Option Failure)
  | recordRetried (change : Change) (dst : Option Path) (error : Failure)
  | refused (message : String) (changes : List (Option Path × Change))
  deriving DecidableEq

/-- The grant's own copy of what its connections share. -/
structure AuthorityState where
  created : Finset Path
  provisional : Finset Path
  budget : Budget
  tcpListenerStarted : Bool
  fileLifecycles : Table FileKey FileLifecycle
  inFlight : Nat
  resultsClosing : Bool
  recordedAny : Bool
  /-- What the results were told, once they have started. -/
  results : Option (List ResultsCall)

def AuthorityState.init : AuthorityState where
  created := ∅
  provisional := ∅
  budget := ⟨.empty, 0, 0, 0⟩
  tcpListenerStarted := false
  fileLifecycles := ∅
  inFlight := 0
  resultsClosing := false
  recordedAny := false
  results := none

inductive ExistingDestinationPolicy where
  | replace
  | skip
  | mustExist
  deriving DecidableEq

/-- The signed grant, as far as settlements read it. -/
structure Signed where
  limits : Limits
  destination : Path
  /-- The copy's one object goes to the destination path itself. -/
  exactPath : Bool
  rootNew : Bool
  existing : ExistingDestinationPolicy
  keepFiles : Bool
  /-- What the destination holds at a path, a file if nothing is there. -/
  kindAt : Path → Kind

namespace Signed

variable (signed : Signed)

/-- A changed path relative to the signed destination; paths above it, and the
directory a copy goes into, are not listed. -/
def resultPath (path : Path) (directory : Bool) : Option Path :=
  if path = signed.destination then if directory then none else some []
  else if signed.destination.isPrefixOf path then
    match path.drop signed.destination.length with
    | 47 :: rest => some rest
    | _ => none
  else none

/-- The existing-object policy a creation is held to. -/
def creationPolicy (directory : Bool) : ExistingDestinationPolicy :=
  if signed.existing = .replace ∧ signed.keepFiles = true ∧ directory = false then .skip
  else signed.existing

/-- The failure of a change only shows an object its existing-object policy keeps. -/
def keptByPolicy (created : Finset Path) (path : Path) (directory : Bool)
    (error : Option WireError) : Bool :=
  error.any WireError.conditionNotMet &&
    signed.creationPolicy directory != .replace &&
    !(signed.rootNew && path == signed.destination) && !decide (path ∈ created)

end Signed

/-! ## Reading a response -/

def Failure.of (error : WireError) : Failure :=
  ⟨error.message, error.failureClass⟩

/-- The failure of one operation of a request. -/
def outcomeError (response : Response) (index : Nat) : Option Failure :=
  let missing := Failure.io "receiver returned no outcome for this file"
  match response with
  | .err message => some (Failure.io message)
  | .endpointError error => some (Failure.of error)
  | .widenedDirectories results | .applied results => (results[index]?.join).map Failure.of
  | .patchedBatch results =>
    match results[index]? with
    | some (.ok _) => none
    | some (.error error) => some (Failure.of error.error)
    | none => some missing
  | .publishedBatch results =>
    match results[index]? with
    | some none => none
    | some (some error) => some (Failure.of error)
    | none => some missing
  | _ => none

/-- The executor's typed error for an operation, where it gave one. -/
def outcomeWire (response : Response) (index : Nat) : Option WireError :=
  match response with
  | .endpointError error => some error
  | .applied results => results[index]?.join
  | .patchedBatch results =>
    match results[index]? with
    | some (.error error) => some error.error
    | _ => none
  | .publishedBatch results => results[index]?.join
  | _ => none

/-- A change the receiver declined to make in place. -/
def declined (response : Response) (index : Nat) : Bool :=
  match response with
  | .publishedBatch _ => false
  | _ => (outcomeWire response index).any WireError.replaceRequired

/-- The executor's answer for one patch. -/
def patchReply (response : Response) (index : Nat) : Option (Except SmallPatchError Bool) :=
  match response with
  | .patchedBatch results => results[index]?
  | _ => none

/-- A file that already matched was kept, or failed only to be kept. -/
def patchKept (response : Response) (index : Nat) : Bool :=
  match patchReply response index with
  | some (.ok kept) => kept
  | some (.error error) => error.matched
  | none => false

/-- A file that no longer met its condition. -/
def patchStale (response : Response) (index : Nat) : Bool :=
  match patchReply response index with
  | some (.error error) => error.staleCondition
  | _ => false

/-- Whether the sender tries a failed patch again. -/
def patchRetried (response : Response) (index : Nat) : Bool :=
  (match patchReply response index with
    | some (.error error) => error.retried
    | some (.ok _) => false
    | none => true) || declined response index

/-! ## What the results are told

Each kind of outcome says what the results are told of it once they have started,
`none` where a settled change is not reported. -/

namespace Signed

variable (signed : Signed)

/-- One settled change.  As an ordinary copy counts them, the directory a copy goes into
is not one of the directories it created; a failure is listed even there. -/
def changeReport (path : Path) (change : Change) (error : Option Failure) : Option ResultsCall :=
  if change = .ensureDirectory ∧ error = none ∧ path = signed.destination ∧
      signed.exactPath = false then none
  else
    let directory := error.isNone && (change == .ensureDirectory || change == .deleteDirectory)
    some (.record change (signed.resultPath path directory) error)

/-- A patch; the failure of one the sender tries again is held. -/
def patchReport (response : Response) (index : Nat) (path : Path) (size : Nat) :
    Option ResultsCall :=
  let change := if patchKept response index then .keepFile else .publishFile size
  match outcomeError response index with
  | some error =>
    if patchRetried response index then
      some (.recordRetried change (signed.resultPath path false) error)
    else signed.changeReport path change (some error)
  | none => signed.changeReport path change none

/-- A change that is reported only when it failed. -/
def failureReport (response : Response) (index : Nat) (path : Path) (change : Change) :
    Option ResultsCall :=
  if declined response index then none
  else (outcomeError response index).bind fun error =>
    signed.changeReport path change (some error)

def smallCopyReport (response : Response) (index : Nat) (path : Path) (size : Nat) :
    Option ResultsCall :=
  match response with
  | .smallFilesCopied (.published results) =>
    results[index]?.bind fun result =>
      let error := result.error.map Failure.of
      match result.disposition with
      | .copied => signed.changeReport path (.publishFile size) error
      | .quickChecked | .contentMatched =>
        if result.repaired then signed.changeReport path (.setMetadata .file) error else none
      | .excluded => none
  | _ => none

/-- Any other change, but one the existing-object policy kept. -/
def logicalReport (response : Response) (created : Finset Path) (index : Nat) (path : Path)
    (change : Change) : Option ResultsCall :=
  if declined response index then none
  else if change.isCreation &&
      signed.keptByPolicy created path false (outcomeWire response index) then none
  else signed.changeReport path change (outcomeError response index)

end Signed

namespace AuthorityState

variable (signed : Signed)

/-- Tell the results, if they have started. -/
def tell (state : AuthorityState) (call : ResultsCall) : AuthorityState :=
  { state with results := state.results.map fun calls => calls ++ [call] }

def tellReport (state : AuthorityState) : Option ResultsCall → AuthorityState
  | none => state
  | some call => state.tell call

/-! ## Settling -/

def withLedger (state : AuthorityState) (ledger : Ledger) : AuthorityState :=
  { state with budget := { state.budget with ledger } }

/-- Confirm or forget the provisional creations of an executed request. -/
def settleCreations (response : Response) (state : AuthorityState) :
    List PendingCreation → AuthorityState
  | [] => state
  | creation :: rest =>
    let created := if creation.persist && (outcomeError response creation.index).isNone
      then insert creation.path state.created else state.created
    settleCreations response
      { state with provisional := state.provisional.erase creation.path, created } rest

/-- Settle the hold of a patch: a published file leaves the ledger, a kept or stale one
gives its size back. -/
def settlePatchHold (response : Response) (state : AuthorityState) (index : Nat) (path : Path)
    (copyId : CopyId) (hold : Option Nat) : Option AuthorityState :=
  match hold with
  | none => some state
  | some hold => do
      let written := !patchKept response index && !patchStale response index
      let ledger ← state.budget.ledger.settleObservationReservation (path, copyId) hold written
      let published := written && (outcomeError response index).isNone
      return state.withLedger (if published then ledger.removePublished (path, copyId) else ledger)

def settlePatch (response : Response) (state : AuthorityState) (index : Nat) (path : Path)
    (copyId : CopyId) (size : Nat) (hold : Option Nat) : Option AuthorityState := do
  let state ← state.settlePatchHold response index path copyId hold
  return state.tellReport (signed.patchReport response index path size)

/-- Note a stage of a file that is not published yet, or report its publication; a
repeated finalization reports nothing new. -/
def trackLifecycle (state : AuthorityState) (key : FileKey) (size : Option Nat) (stage : FileStage)
    (error : Option Failure) : AuthorityState :=
  match stage, error with
  | .finalize, none =>
    match state.fileLifecycles.lookup key with
    | some lifecycle =>
      { state with fileLifecycles := state.fileLifecycles.erase key }.tellReport
        (signed.changeReport key.1 (.publishFile lifecycle.size) none)
    | none => state
  | _, error =>
    let declared := size <|> state.budget.ledger.effective key
    let lifecycle := (state.fileLifecycles.lookup key).getD
      ⟨declared.getD 0, none, "io", false⟩
    let lifecycle := { lifecycle with size := declared.getD lifecycle.size }
    let lifecycle := match error with
      | some error => { lifecycle with
          lastError := boundedDiagnostic error.message, lastClass := error.errorClass }
      | none => lifecycle
    { state with fileLifecycles := state.fileLifecycles.insert key lifecycle }

/-- The receiver holds nothing of the file a preparation looked at. -/
def stageAbsent (response : Response) (skipIfAbsent : Bool) : Bool :=
  match response with
  | .prepared hasCandidates partialSize => hasCandidates || (skipIfAbsent && partialSize.isNone)
  | _ => false

/-- Settle the hold of an observation: its size is kept unless nothing is there. -/
def settleStageHold (response : Response) (state : AuthorityState) (key : FileKey)
    (skipIfAbsent : Bool) (observationHold : Option Nat) : Option AuthorityState :=
  match observationHold with
  | none => some state
  | some hold =>
    (state.budget.ledger.settleObservationReservation key hold
      (!stageAbsent response skipIfAbsent)).map state.withLedger

/-- A preparation the receiver declined to make in place. -/
def stageRefused (response : Response) (stage : FileStage) : Bool :=
  decide (stage = .prepare) && match response with
    | .endpointError error => error.replaceRequired
    | _ => false

/-- A finalized file leaves the ledger, published or kept as the policy asks. -/
def endStage (state : AuthorityState) (key : FileKey) (ended : Bool) : AuthorityState :=
  if ended then state.withLedger (state.budget.ledger.removePublished key) else state

/-- A finalized file leaves the ledger; other stages are noted until then. -/
def recordStage (response : Response) (state : AuthorityState) (index : Nat) (key : FileKey)
    (size : Option Nat) (stage : FileStage) (skipIfAbsent : Bool) : AuthorityState :=
  let error := outcomeError response index
  let kept := signed.keptByPolicy state.created key.1 false (outcomeWire response index)
  let ended := decide (stage = .finalize) && (error.isNone || kept)
  let state := state.endStage key ended
  if ended && error.isSome then
    { state with fileLifecycles := state.fileLifecycles.erase key }
  else if stageAbsent response skipIfAbsent || stageRefused response stage ||
      state.results.isNone then state
  else state.trackLifecycle signed key size stage error

def settleFileStage (response : Response) (state : AuthorityState) (index : Nat) (path : Path)
    (copyId : CopyId) (size : Option Nat) (stage : FileStage) (skipIfAbsent : Bool)
    (observationHold : Option Nat) : Option AuthorityState := do
  let state ← state.settleStageHold response (path, copyId) skipIfAbsent observationHold
  return state.recordStage signed response index (path, copyId) size stage skipIfAbsent

def settleOutcome (response : Response) (state : AuthorityState) :
    PendingOutcome → Option AuthorityState
  | .patch index path copyId size hold =>
    state.settlePatch signed response index path copyId size hold
  | .metadata index path kind => some (state.tellReport
      (signed.failureReport response index path (.setMetadata (kind.getD (signed.kindAt path)))))
  | .logicalIfFailed index path change =>
    some (state.tellReport (signed.failureReport response index path change))
  | .smallCopy index path size =>
    some (state.tellReport (signed.smallCopyReport response index path size))
  | .logical index path change =>
    some (state.tellReport (signed.logicalReport response state.created index path change))
  | .fileStage index path copyId size stage skipIfAbsent observationHold =>
    state.settleFileStage signed response index path copyId size stage skipIfAbsent
      observationHold

def settleOutcomes (response : Response) (state : AuthorityState) :
    List PendingOutcome → Option AuthorityState
  | [] => some state
  | outcome :: rest => do
      let state ← state.settleOutcome signed response outcome
      settleOutcomes response state rest

/-- A settled request stops counting as in flight and its creations are confirmed or
forgotten, before its outcomes are reported.  `none` is a count that would saturate. -/
def beginSettle (state : AuthorityState) (settlement : Settlement) (response : Response) :
    Option AuthorityState := do
  let inFlight ← checkedSub state.inFlight settlement.tracked.toNat
  let state := { state with inFlight }.settleCreations response settlement.creations
  return { state with recordedAny := state.recordedAny || !settlement.outcomes.isEmpty }

/-- The part of `settle` under the state lock.  `none` is a failed `expect`. -/
def settleLocked (state : AuthorityState) (settlement : Settlement) (response : Response) :
    Option AuthorityState :=
  if settlement.creations.isEmpty && settlement.outcomes.isEmpty && !settlement.tracked then
    some state
  else do
    let state ← state.beginSettle settlement response
    state.settleOutcomes signed response settlement.outcomes

/-- Settle an executed request. -/
def settle (state : AuthorityState) (settlement : Settlement) (response : Response) :
    Option AuthorityState := do
  let budget ← state.budget.giveBack settlement.charged (settlement.charged.refund response)
  { state with budget }.settleLocked signed settlement response

/-- Settle a request whose execution never started. -/
def settleUnexecuted (state : AuthorityState) (settlement : Settlement) (reason : String) :
    Option AuthorityState := do
  let budget ← state.budget.giveBack settlement.charged settlement.charged.unexecuted
  { state with budget }.settleLocked signed settlement (.err reason)

/-! ## What settling leaves alone -/

/-- Two states agree on the requests in flight, on the closure, and on whether the
results have started or anything was recorded. -/
structure SameCounts (state next : AuthorityState) : Prop where
  inFlight : next.inFlight = state.inFlight
  resultsClosing : next.resultsClosing = state.resultsClosing
  recordedAny : next.recordedAny = state.recordedAny
  started : next.results.isSome = state.results.isSome

namespace SameCounts

variable {signed} {state next : AuthorityState} {resp : Response}

theorem refl (state : AuthorityState) : SameCounts state state :=
  ⟨rfl, rfl, rfl, rfl⟩

theorem trans {last : AuthorityState} (first : SameCounts state next)
    (second : SameCounts next last) : SameCounts state last :=
  ⟨second.inFlight.trans first.inFlight, second.resultsClosing.trans first.resultsClosing,
    second.recordedAny.trans first.recordedAny, second.started.trans first.started⟩

theorem tell (state : AuthorityState) (call : ResultsCall) : SameCounts state (state.tell call) :=
  ⟨rfl, rfl, rfl, Option.isSome_map⟩

theorem tellReport (state : AuthorityState) (report : Option ResultsCall) :
    SameCounts state (state.tellReport report) := by
  cases report with
  | none => exact refl state
  | some call => exact tell state call

theorem settleCreations (resp : Response) (state : AuthorityState)
    (creations : List PendingCreation) :
    SameCounts state (state.settleCreations resp creations) := by
  induction creations generalizing state with
  | nil => exact refl state
  | cons creation rest ih =>
    refine trans ?_ (ih _)
    exact ⟨rfl, rfl, rfl, rfl⟩

theorem settlePatch {index : Nat} {path : Path} {copyId : CopyId} {size : Nat} {hold : Option Nat}
    (settled : state.settlePatch signed resp index path copyId size hold = some next) :
    SameCounts state next := by
  rcases Option.bind_eq_some_iff.mp settled with ⟨held, heldEq, result⟩
  cases result
  have first : SameCounts state held := by
    unfold settlePatchHold at heldEq
    split at heldEq
    · cases heldEq
      exact refl _
    · rcases Option.bind_eq_some_iff.mp heldEq with ⟨ledger, -, result⟩
      cases result
      exact ⟨rfl, rfl, rfl, rfl⟩
  exact first.trans (tellReport _ _)

theorem trackLifecycle (state : AuthorityState) (key : FileKey) (size : Option Nat)
    (stage : FileStage) (error : Option Failure) :
    SameCounts state (state.trackLifecycle signed key size stage error) := by
  unfold AuthorityState.trackLifecycle
  split
  · split
    · refine trans ?_ (tellReport _ _)
      exact ⟨rfl, rfl, rfl, rfl⟩
    · exact refl _
  · exact ⟨rfl, rfl, rfl, rfl⟩

theorem settleFileStage {index : Nat} {path : Path} {copyId : CopyId} {size : Option Nat}
    {stage : FileStage} {skipIfAbsent : Bool} {observationHold : Option Nat}
    (settled : state.settleFileStage signed resp index path copyId size stage skipIfAbsent
      observationHold = some next) : SameCounts state next := by
  rcases Option.bind_eq_some_iff.mp settled with ⟨held, heldEq, result⟩
  cases result
  have first : SameCounts state held := by
    unfold settleStageHold at heldEq
    split at heldEq
    · cases heldEq
      exact refl _
    · rcases Option.map_eq_some_iff.mp heldEq with ⟨ledger, -, result⟩
      cases result
      exact ⟨rfl, rfl, rfl, rfl⟩
  refine first.trans ?_
  have ended : ∀ done, SameCounts held (held.endStage (path, copyId) done) := by
    intro done
    cases done <;> exact ⟨rfl, rfl, rfl, rfl⟩
  unfold recordStage
  dsimp only
  split
  · exact (ended _).trans ⟨rfl, rfl, rfl, rfl⟩
  · split
    · exact ended _
    · exact (ended _).trans (trackLifecycle _ _ _ _ _)

theorem settleOutcome {outcome : PendingOutcome}
    (settled : state.settleOutcome signed resp outcome = some next) :
    SameCounts state next := by
  cases outcome with
  | patch index path copyId size hold => exact settlePatch settled
  | fileStage index path copyId size stage skipIfAbsent observationHold =>
    exact settleFileStage settled
  | smallCopy | metadata | logicalIfFailed | logical =>
    cases settled
    exact tellReport _ _

theorem settleOutcomes {outcomes : List PendingOutcome}
    (settled : state.settleOutcomes signed resp outcomes = some next) :
    SameCounts state next := by
  induction outcomes generalizing state with
  | nil =>
    cases settled
    exact refl _
  | cons outcome rest ih =>
    rcases Option.bind_eq_some_iff.mp settled with ⟨middle, first, tail⟩
    exact (settleOutcome first).trans (ih tail)

end SameCounts

/-- What a settlement does to the counts: a tracked request leaves those in flight. -/
structure Counted (settlement : Settlement) (state next : AuthorityState) : Prop where
  inFlight : next.inFlight + settlement.tracked.toNat = state.inFlight
  resultsClosing : next.resultsClosing = state.resultsClosing
  recordedAny : next.recordedAny = (state.recordedAny || !settlement.outcomes.isEmpty)
  started : next.results.isSome = state.results.isSome

section Counted

variable {signed} {state next : AuthorityState} {settlement : Settlement} {resp : Response}

theorem counted_beginSettle (begun : state.beginSettle settlement resp = some next) :
    Counted settlement state next := by
  rcases Option.bind_eq_some_iff.mp begun with ⟨inFlight, inFlightEq, result⟩
  cases result
  have created := SameCounts.settleCreations resp { state with inFlight }
    settlement.creations
  constructor
  · exact (congrArg (· + settlement.tracked.toNat) created.inFlight).trans
      (checkedSub_eq_some_iff.mp inFlightEq).symm
  · exact created.resultsClosing
  · exact congrArg (· || !settlement.outcomes.isEmpty) created.recordedAny
  · exact created.started

theorem counted_settleLocked
    (settled : state.settleLocked signed settlement resp = some next) :
    Counted settlement state next := by
  unfold settleLocked at settled
  split at settled
  · rename_i nothing
    cases settled
    simp only [Bool.and_eq_true, Bool.not_eq_true'] at nothing
    constructor
    · simp [nothing.2]
    · rfl
    · simp [nothing.1.2]
    · rfl
  · rcases Option.bind_eq_some_iff.mp settled with ⟨begun, begunEq, outcomes⟩
    have first := counted_beginSettle begunEq
    have rest := SameCounts.settleOutcomes outcomes
    constructor
    · rw [rest.inFlight, first.inFlight]
    · rw [rest.resultsClosing, first.resultsClosing]
    · rw [rest.recordedAny, first.recordedAny]
    · rw [rest.started, first.started]

theorem counted_settle (settled : state.settle signed settlement resp = some next) :
    Counted settlement state next := by
  rcases Option.bind_eq_some_iff.mp settled with ⟨budget, -, locked⟩
  exact { counted_settleLocked locked with }

end Counted

end AuthorityState

end Syq.Restricted
