import Syq.Lib.Checked
import Syq.Restricted.Gate

/-!
# Authorizing requests

Each request is checked against the signed grant before it executes: admission,
the checks of `authorize_inner` in the order of the source, the connection's streamed
patch or small copy, and the charge.  What the checks look at (paths, filters,
metadata, the mapping, the destination's objects) is outside this model: their
verdicts are parameters, and every verdict is considered.  What they record is modelled.
-/

namespace Syq.Restricted

open Syq.Lib Syq.Results

/-- The checks that record nothing. -/
inductive Check where
  | deadline
  /-- The checks of a request that has no other arm, and the fixed part of the others. -/
  | request
  | mutationPath (path : Path) (directory : Bool)
  | metadata (index : Nat) (path : Path)
  | expectedHash (path : Path)
  | fileBytes (index : Nat) (path : Path)
  | deletion (path : Path) (directory : Bool)
  | inplace (path : Path)
  | prepare (path : Path)
  | operation (index : Nat) (path : Path)
  | smallCopyFile (index : Nat) (path : Path)
  | hardlink (path source : Path)
  | patch (index : Nat) (path : Path)
  | observation (path : Path)
  deriving DecidableEq

/-- How a creation is bound to the existing-object policy. -/
inductive CreationVerdict where
  /-- Created by this grant, or free to be replaced. -/
  | unbound
  /-- It replaces what is there, for this request only. -/
  | replaces
  /-- It creates the name, provisionally until settled. -/
  | creates
  | refused (refusal : Refusal)

/-- What a request has recorded so far. -/
structure Work where
  state : AuthorityState
  pending : List PendingCreation
  outcomes : List PendingOutcome

/-- The verdicts of the checks on one request. -/
structure Verdicts where
  check : Check → Option Refusal
  creation : Work → Nat → Path → CreationVerdict
  update : Work → Nat → Path → Option Refusal
  /-- The transfer control is open. -/
  controlOpen : Bool
  /-- The connection is the signed control connection. -/
  overSsh : Bool
  /-- The directory the copy goes into, under an approved widening of all. -/
  isOuter : Path → Bool
  /-- The name is already linked to the file. -/
  linked : Path → Bool
  /-- The kind a metadata change is known to be for. -/
  metadataKind : Path → Option Kind

/-- Checking with what has been recorded, which stays recorded when a check refuses.
The `Option` beneath is a failed `expect`. -/
abbrev Auth := Checked Refusal Work

namespace Auth

variable (verdicts : Verdicts)

def ensure (verdict : Option Refusal) : Auth Unit :=
  match verdict with
  | none => pure ()
  | some refusal => throw refusal

def check (check : Check) : Auth Unit :=
  ensure (verdicts.check check)

def checkWhen (condition : Bool) (needed : Check) : Auth Unit :=
  if condition then check verdicts needed else pure ()

def refuseWhen (condition : Bool) (message : String) : Auth Unit :=
  if condition then throw (.bail message) else pure ()

def outcome (outcome : PendingOutcome) : Auth Unit :=
  modify fun work => { work with outcomes := work.outcomes ++ [outcome] }

/-- `constrain_creation`, `constrain_publication` and `constrain_observed_creation`. -/
def constrainCreation (index : Nat) (path : Path) : Auth Unit := do
  match verdicts.creation (← get) index path with
  | .unbound => pure ()
  | .replaces => modify fun work => { work with
      pending := work.pending ++ [⟨index, path, false, false⟩] }
  | .creates => modify fun work => { work with
      state := { work.state with provisional := insert path work.state.provisional }
      pending := work.pending ++ [⟨index, path, true, false⟩] }
  | .refused refusal => throw refusal

def constrainUpdate (index : Nat) (path : Path) : Auth Unit := do
  ensure (verdicts.update (← get) index path)

/-- `reserve_bytes`, which returns the hold of an observation. -/
def reserve (limits : Limits) (key : FileKey) (size : Nat) (observationOnly : Bool) :
    Auth (Option Nat) := do
  let work ← get
  let reserved :=
    work.state.budget.ledger.reserveBytes limits.maxTotalBytes key size observationOnly
  set { work with state := work.state.withLedger reserved.2 }
  match reserved.1 with
  | .ok hold => pure hold
  | .error message => throw (.bail message)

/-- A patch holds the size its publication would occupy. -/
def holdPatch (limits : Limits) (index : Nat) (patch : SmallPatch) : Auth Unit := do
  let hold ← reserve limits (patch.path, patch.copyId) patch.len true
  outcome (.patch index patch.path patch.copyId patch.len hold)

/-- The holds of the patches among some outcomes. -/
def patchHolds (outcomes : List PendingOutcome) : List (FileKey × Nat) :=
  outcomes.filterMap fun
    | .patch _ path copyId _ (some hold) => some ((path, copyId), hold)
    | _ => none

/-! ## Operations -/

/-- A link replaces whatever the grant made at its name, which no longer makes a file
its own. -/
def markLinked (path : Path) : Auth Unit :=
  modify fun work => { work with
    pending := work.pending.map fun creation =>
      if creation.path = path then { creation with persist := false, link := true } else creation
    state := { work.state with created := work.state.created.erase path } }

def authorizeHardlink (index : Nat) (path source : Path) : Auth Unit := do
  check verdicts (.hardlink path source)
  check verdicts (.mutationPath source false)
  check verdicts (.mutationPath path false)
  check verdicts (.operation index path)
  constrainCreation verdicts index path
  markLinked path
  check verdicts (.observation path)
  outcome (if verdicts.linked path then .logicalIfFailed index path .linkFile
    else .logical index path .linkFile)

def authorizeOp (index : Nat) : Op → Auth Unit
  | .hardlink path source => authorizeHardlink verdicts index path source
  | .remove _ =>
    throw (.bail "recursive remove is not supported by the root-confined receiver")
  | .rmdir path => do
      check verdicts (.deletion path true)
      outcome (.logical index path .deleteDirectory)
  | .unlink path => do
      check verdicts (.deletion path false)
      outcome (.logical index path .deleteNonDirectory)
  | .mkdir path => do
      check verdicts (.mutationPath path true)
      check verdicts (.operation index path)
      constrainCreation verdicts index path
      outcome (.logical index path .ensureDirectory)
  | .symlink path => do
      check verdicts (.operation index path)
      check verdicts (.mutationPath path false)
      check verdicts (.expectedHash path)
      constrainCreation verdicts index path
      check verdicts (.metadata index path)
      outcome (.logical index path .createSymlink)
  | .mknod path => do
      check verdicts (.operation index path)
      check verdicts (.mutationPath path false)
      check verdicts (.expectedHash path)
      constrainCreation verdicts index path
      check verdicts (.metadata index path)
      outcome (.logical index path .createSpecial)
  | .setMeta path directory => do
      check verdicts (.mutationPath path directory)
      check verdicts (.operation index path)
      constrainUpdate verdicts index path
      check verdicts (.metadata index path)
      outcome (.metadata index path (if directory then some .dir else verdicts.metadataKind path))
  | .setFileMetaIfSame path => do
      check verdicts (.mutationPath path false)
      check verdicts (.operation index path)
      constrainUpdate verdicts index path
      check verdicts (.metadata index path)
      outcome (.logical index path (.setMetadata .file))

/-- One operation of an `Apply`.  The mode of the directory the copy goes into is the
receiver's choice. -/
def authorizeApplied (index : Nat) : Op → Auth Unit
  | .setMeta path directory =>
    if verdicts.isOuter path then pure ()
    else authorizeOp verdicts index (.setMeta path directory)
  | op => authorizeOp verdicts index op

/-- The operations of an `Apply`, from `index` on. -/
def authorizeOps (index : Nat) : List Op → Auth Unit
  | [] => pure ()
  | op :: rest => do
      authorizeApplied verdicts index op
      authorizeOps (index + 1) rest

/-- One directory to widen: an existing one, held to the rules of creating it. -/
def authorizeWidened (index : Nat) (path : Path) : Auth Unit :=
  if verdicts.isOuter path then check verdicts (.operation index path)
  else do
    check verdicts (.observation path)
    authorizeOp verdicts index (.mkdir path)

/-- The directories of a `WidenDirectories`, from `index` on. -/
def authorizeWidening (index : Nat) : List Path → Auth Unit
  | [] => pure ()
  | path :: rest => do
      authorizeWidened verdicts index path
      authorizeWidening (index + 1) rest

/-! ## Files -/

/-- The files of a `PutSmallBatch`, from `index` on. -/
def authorizePuts (index : Nat) : List SmallPut → Auth Unit
  | [] => pure ()
  | put :: rest => do
      check verdicts (.expectedHash put.path)
      check verdicts (.fileBytes index put.path)
      checkWhen verdicts put.inplace (.inplace put.path)
      constrainCreation verdicts index put.path
      outcome (.logical index put.path (.publishFile put.data))
      check verdicts (.metadata index put.path)
      authorizePuts (index + 1) rest

/-- The files of a small copy, from `index` on. -/
def authorizeSmallCopy (index : Nat) : List SmallCopyFile → Auth Unit
  | [] => pure ()
  | file :: rest => do
      check verdicts (.smallCopyFile index file.path)
      check verdicts (.expectedHash file.path)
      check verdicts (.fileBytes index file.path)
      check verdicts (.metadata index file.path)
      outcome (.smallCopy index file.path file.size)
      authorizeSmallCopy (index + 1) rest

/-- Patches, from `index` on. -/
def authorizePatches (limits : Limits) (index : Nat) : List SmallPatch → Auth Unit
  | [] => pure ()
  | patch :: rest => do
      check verdicts (.expectedHash patch.path)
      check verdicts (.patch index patch.path)
      checkWhen verdicts patch.updateInPlace (.inplace patch.path)
      check verdicts (.fileBytes index patch.path)
      constrainCreation verdicts index patch.path
      constrainUpdate verdicts index patch.path
      check verdicts (.metadata index patch.path)
      holdPatch limits index patch
      authorizePatches limits (index + 1) rest

/-- Release the sizes held by the patches of a refused request. -/
def releasePatchHolds (outcomes : List PendingOutcome) : Auth Unit := do
  let work ← get
  let ledger ← Checked.expect
    (work.state.budget.ledger.releasePatchHolds (patchHolds outcomes))
  set { work with state := work.state.withLedger ledger }

/-- Patches that release their holds themselves when one of them is refused. -/
def authorizePatchBatch (limits : Limits) (patches : List SmallPatch) : Auth Unit := do
  let first := (← get).outcomes.length
  tryCatch (authorizePatches verdicts limits 0 patches) fun refusal => do
    releasePatchHolds ((← get).outcomes.drop first)
    modify fun work => { work with outcomes := work.outcomes.take first }
    throw refusal

/-- A preparation reserves the size it declares, an observation only until it is
settled. -/
def reserveStage (limits : Limits) (path : Path) (copyId : CopyId) (size : Nat)
    (observationOnly : Bool) : Auth Unit := do
  let hold ← reserve limits (path, copyId) size observationOnly
  outcome (.fileStage 0 path copyId (some size) .prepare observationOnly hold)

/-! ## Requests -/

/-- Check and record one request, in the order of `authorize_inner`. -/
def authorizeInner (limits : Limits) (request : Request) : Auth Unit := do
  check verdicts .deadline
  match request with
  | .createSendBudget =>
    throw (.bail "signed copies retain their authorized bandwidth policy")
  | .tcpListen => do
      check verdicts .request
      refuseWhen (← get).state.tcpListenerStarted "signed grant permits only one TCP listener"
      modify fun work => { work with state := { work.state with tcpListenerStarted := true } }
  | .widenDirectories directories => do
      check verdicts .request
      authorizeWidening verdicts 0 directories
  | .apply ops => authorizeOps verdicts 0 ops
  | .stageBasis path copyId len | .seedBasis path copyId len => do
      check verdicts .request
      check verdicts (.mutationPath path false)
      check verdicts (.prepare path)
      reserveStage limits path copyId len false
  | .finishBasis path => do
      check verdicts (.expectedHash path)
      check verdicts (.mutationPath path false)
      constrainUpdate verdicts 0 path
      check verdicts (.metadata 0 path)
      outcome (.logical 0 path .keepFile)
  | .prepare path size inplace copyId createIfMissing _ => do
      check verdicts .request
      check verdicts (.mutationPath path false)
      checkWhen verdicts inplace (.inplace path)
      check verdicts (.prepare path)
      reserveStage limits path copyId size (!createIfMissing)
  | .reuseComparedRange path copyId => do
      check verdicts .request
      check verdicts (.mutationPath path false)
      outcome (.fileStage 0 path copyId none .write false none)
  | .writeRange path copyId _ => do
      check verdicts .request
      outcome (.fileStage 0 path copyId none .write false none)
      check verdicts (.fileBytes 0 path)
  | .finalize path copyId => do
      check verdicts (.expectedHash path)
      check verdicts (.mutationPath path false)
      constrainCreation verdicts 0 path
      outcome (.fileStage 0 path copyId none .finalize false none)
      check verdicts (.metadata 0 path)
  | .putSmallBatch puts => do
      check verdicts .request
      authorizePuts verdicts 0 puts
  | .patchSmallBatch patches => do
      authorizePatchBatch verdicts limits patches
  | .patchBegin patch dataLen => do
      refuseWhen (patch.data ≠ 0) "a streamed patch carries its data in pieces"
      refuseWhen patch.updateInPlace "a streamed patch is staged, not written in place"
      check verdicts .request
      let blocks := (patch.len + patch.block - 1) / patch.block
      refuseWhen (patch.reuse.length ≠ blocks)
        s!"streamed patch lists {patch.reuse.length} blocks, not {blocks}"
      let new := patch.newBytes
      refuseWhen (dataLen = 0 ∨ dataLen ≠ new)
        s!"streamed patch declares {dataLen} new bytes for blocks of {new} bytes"
      authorizePatchBatch verdicts limits [patch]
  | .copyLocal | .readRange | .readComparedRange | .readStream | .shrinkReadStream
  | .stopReadStream | .readSmallBatch | .readDifferingBatch =>
    throw (.bail "request is not valid on a restricted destination")
  | .prepareSmallFiles files => do
      check verdicts .request
      authorizeSmallCopy verdicts 0 files
  | .listDir | .listDirDetails | .listDirNoFollowFinal =>
    throw (.bail "directory completion is not valid on a restricted destination")
  | .checkOperatorDirectory | .checkOperatorDirectoryAncestry
  | .checkOperatorDirectoryAncestryWithAccess | .checkSearchableOperatorDirectory
  | .registerSourceRoots | .createOperatorDirectory | .anchorDestination =>
    throw (.bail "destination-anchor management is not valid on a root-confined receiver")
  | .nativeMap => throw (.bail "mapping generation is not valid on a restricted destination")
  | .nativeRemove => throw (.bail "native removal is not valid on a restricted destination")
  | .descriptorCopy | .bindStream =>
    throw (.bail "descriptor copies are not valid on a restricted receiver")
  | .hello => throw (.bail "unexpected second receiver handshake")
  | .destinationResults | .finishDestinationResults =>
    if verdicts.overSsh then pure ()
    else throw (.bail "destination results run only on the signed control connection")
  | .transportStats | .receiverUser | .shutdown | .writeStreamFence | .patchData _ | .patchEnd
  | .copySmallFiles _ | .restoreDestinationPath => pure ()
  | _ => check verdicts .request

end Auth

/-! ## Refusing -/

/-- The changes a request asked for, by destination path where a record could name
one. -/
def requestedChanges (signed : Signed) (request : Request) : List (Option Path × Change) :=
  let file (path : Path) (size : Nat) : Option Path × Change :=
    (signed.resultPath path false, .publishFile size)
  match request with
  | .apply ops => ops.map fun op =>
    let (path, change) : Path × Change := match op with
      | .mkdir path => (path, .ensureDirectory)
      | .symlink path => (path, .createSymlink)
      | .mknod path => (path, .createSpecial)
      | .hardlink path _ => (path, .linkFile)
      | .rmdir path => (path, .deleteDirectory)
      | .unlink path | .remove path => (path, .deleteNonDirectory)
      | .setMeta path _ => (path, .setMetadata (signed.kindAt path))
      | .setFileMetaIfSame path => (path, .setMetadata .file)
    (signed.resultPath path false, change)
  | .putSmallBatch puts => puts.map fun put => file put.path put.data
  | .prepareSmallFiles files => files.map fun small => file small.path small.size
  | .patchSmallBatch patches => patches.map fun patch => file patch.path patch.len
  | .patchBegin patch _ => [file patch.path patch.len]
  | .prepare path size _ _ _ _ => [file path size]
  | .stageBasis path _ len | .seedBasis path _ len => [file path len]
  | .writeRange path _ _ | .reuseComparedRange path _ | .finalize path _ => [file path 0]
  | .finishBasis path => [(signed.resultPath path false, .keepFile)]
  | _ => []

namespace AuthorityState

variable (signed : Signed) {state : AuthorityState} {req : Request}

def forgetProvisional (state : AuthorityState) (pending : List PendingCreation) :
    AuthorityState :=
  { state with
    provisional := pending.foldl (fun paths creation => paths.erase creation.path)
      state.provisional }

/-- A refused request for a file being written lists that file as failed. -/
def endRefusedLifecycles (state : AuthorityState) (request : Request) : AuthorityState :=
  match fileKey request with
  | none => state
  | some key =>
    match state.fileLifecycles.lookup key with
    | none => state
    | some lifecycle => { state with
        fileLifecycles := state.fileLifecycles.insert key { lifecycle with listed := true } }

/-- A refusal is told to the results, with the changes classified before the state lock
was taken.  Keeping what is there is no refusal: the file is no longer in flight. -/
def noteRefusal (state : AuthorityState) (request : Request) (refusal : Refusal)
    (changes : List (Option Path × Change)) : AuthorityState :=
  if refusal.kept then
    match fileKey request with
    | none => state
    | some key => { state with fileLifecycles := state.fileLifecycles.erase key }
  else if state.results.isSome then
    ({ state with recordedAny := true }.tell
      (.refused ("refused: " ++ refusal.message) changes)).endRefusedLifecycles request
  else { state with recordedAny := true }

/-- What the state lock covers at the end of a refusal. -/
def recordRefusal (state : AuthorityState) (request : Request) (refusal : Refusal)
    (changes : List (Option Path × Change)) : Option AuthorityState := do
  let state := state.noteRefusal request refusal changes
  let inFlight ← checkedSub state.inFlight request.tracked.toNat
  return { state with inFlight }

/-- What a refusal does to the counts: a tracked request leaves those in flight. -/
theorem recordRefusal_counts {after : AuthorityState} {refusal : Refusal}
    {changes : List (Option Path × Change)}
    (recorded : state.recordRefusal req refusal changes = some after) :
    after.inFlight + req.tracked.toNat = state.inFlight ∧
      after.resultsClosing = state.resultsClosing ∧
      after.recordedAny = (state.recordedAny || !refusal.kept) ∧
      after.results.isSome = state.results.isSome := by
  rcases Option.bind_eq_some_iff.mp recorded with ⟨inFlight, inFlightEq, result⟩
  cases result
  have noted : (state.noteRefusal req refusal changes).inFlight = state.inFlight ∧
      (state.noteRefusal req refusal changes).resultsClosing = state.resultsClosing ∧
      (state.noteRefusal req refusal changes).recordedAny =
        (state.recordedAny || !refusal.kept) ∧
      (state.noteRefusal req refusal changes).results.isSome = state.results.isSome := by
    unfold noteRefusal endRefusedLifecycles
    split
    · rename_i kept
      split <;> simp [kept]
    · rename_i kept
      split
      · split
        · simp [tell, kept]
        · split <;> simp [tell, kept]
      · simp [kept]
  exact ⟨(checkedSub_eq_some_iff.mp inFlightEq).symm.trans noted.1, noted.2⟩

/-- The changes a refusal lists, if the results have started when it looks. -/
def refusedChanges (state : AuthorityState) (request : Request) (refusal : Refusal) :
    List (Option Path × Change) :=
  if state.results.isSome && !refusal.kept then requestedChanges signed request else []

/-- Nothing of a refused request executes, nor the small copy whose payloads it
carries. -/
def endRefusedCopy (state : AuthorityState) (refusal : Refusal) :
    StreamStep → Option AuthorityState
  | .copySmallCopy prepared => state.settleUnexecuted signed prepared refusal.message
  | _ => some state

/-- Take back what a refused request recorded, and count the refusal. -/
def refuse (work : Work) (step : StreamStep) (request : Request) (refusal : Refusal) :
    Option AuthorityState := do
  let state ← work.state.endRefusedCopy signed refusal step
  let state := state.forgetProvisional work.pending
  let ledger ← state.budget.ledger.releasePatchHolds (Auth.patchHolds work.outcomes)
  let state := state.withLedger ledger
  state.recordRefusal request refusal (state.refusedChanges signed request refusal)

/-! ## Authorizing -/

/-- A prepared small copy ends with its payloads or with the connection's next request
but a telemetry sample. -/
def endSmallCopy (state : AuthorityState) (gate : PatchStreamGate) (request : Request) :
    Option (AuthorityState × PatchStreamGate) :=
  match request, gate.smallCopy with
  | .copySmallFiles _, _ | .transportStats, _ => some (state, gate)
  | _, none => some (state, gate)
  | _, some prepared => do
      let state ← state.settleUnexecuted signed prepared.settlement
        "the small copy ended without its payloads"
      return (state, { gate with smallCopy := none })

/-- Decided under one lock: a request counts as in flight, or is refused because the
control is closed or the results have ended. -/
def admission (controlOpen : Bool) (state : AuthorityState) (request : Request) :
    Except Refusal AuthorityState :=
  if !controlOpen then .error (.bail "transfer control is closed or expired")
  else if request.tracked && state.resultsClosing then
    .error (.bail "the signed grant is closed: its results have ended")
  else .ok { state with inFlight := state.inFlight + request.tracked.toNat }

/-- Admission changes the count of requests in flight only. -/
theorem admission_ok {controlOpen : Bool} {admitted : AuthorityState}
    (admittedEq : state.admission controlOpen req = .ok admitted) :
    controlOpen = true ∧ (req.tracked = true → state.resultsClosing = false) ∧
      admitted = { state with inFlight := state.inFlight + req.tracked.toNat } := by
  unfold admission at admittedEq
  split at admittedEq
  · cases admittedEq
  · rename_i opened
    split at admittedEq
    · cases admittedEq
    · rename_i running
      cases admittedEq
      refine ⟨by simpa using opened, fun tracked => ?_, rfl⟩
      simpa [tracked] using running

/-- Check a request against the signed grant, with the streamed patch open on its
connection and the small copy prepared there. -/
def authorizeStreaming (verdicts : Verdicts) (state : AuthorityState) (gate : PatchStreamGate)
    (request : Request) :
    Option (Except Refusal (Settlement × StreamStep) × AuthorityState × PatchStreamGate) := do
  let (state, gate) ← state.endSmallCopy signed gate request
  match admission verdicts.controlOpen state request with
  | .error refusal => return (.error refusal, state, gate)
  | .ok state =>
    let (authorized, work) ← (Auth.authorizeInner verdicts signed.limits request).runFrom
      ⟨state, [], []⟩
    match authorized with
    | .error refusal => return (.error refusal, ← refuse signed work .none request refusal, gate)
    | .ok () =>
      let (streamed, gate, step) := gate.authorizeStream
        (fun path => verdicts.check (.fileBytes 0 path)) request
      match streamed with
      | .error refusal => return (.error refusal, ← refuse signed work step request refusal, gate)
      | .ok () =>
        let (charged, budget) ← chargeRequest signed.limits work.state.budget request
        let work := { work with state := { work.state with budget } }
        match charged with
        | .error message =>
          let refusal := Refusal.bail message
          return (.error refusal, ← refuse signed work step request refusal, gate)
        | .ok charged =>
          return (.ok (⟨work.pending, work.outcomes, charged, request.tracked⟩, step),
            work.state, gate)

end AuthorityState

end Syq.Restricted
