import Syq.Delegation.Context
import Syq.Lib.Transition

/-!
# The store of used directives

A receiver verifies a directive and records it as used before it acts on it.  The record is
a file that is written under a temporary name and then linked to its final name, which a link
never replaces.  Calls of any number of processes interleave at each access to the store, and
a process may stop between any two of them.  When the whole machine stops, changes of the
directory that were not synced may be lost.
-/

namespace Syq.Delegation

open Syq.Lib

/-! ## Records -/

def redemptionMagic : Bytes :=
  ascii "SYQCLM" ++ [0, 0]

def redemptionRecordLen : Nat := 8 + 8 + 32 + 32

/-- The bytes of a signed 64-bit number. -/
def i64ToBytes (value : Int) : Bytes :=
  toBigEndian 8 (value % 2 ^ 64).toNat

def i64FromBytes (bytes : Bytes) : Int :=
  let value := fromBigEndian bytes
  if value < 2 ^ 63 then value else (value : Int) - 2 ^ 64

def redeemRecord (request : RequestId) (digest : Bytes) (redeemedAt : Int) :
    Except String Bytes :=
  if ¬ ReceiverContext.InRange redeemedAt then
    .error "replay redeem timestamp is outside the supported range"
  else .ok (redemptionMagic ++ i64ToBytes redeemedAt ++ request.bytes.1 ++ digest)

def validateRedeemRecord (record : Bytes) (request : RequestId) (digest : Bytes) :
    Except String Unit :=
  if record.length ≠ redemptionRecordLen ∨ record.take 8 ≠ redemptionMagic then
    .error "replay state is malformed; refusing signed request"
  else if ¬ ReceiverContext.InRange (i64FromBytes ((record.drop 8).take 8)) then
    .error "replay state has an invalid timestamp; refusing signed request"
  else if (record.drop 16).take 32 ≠ request.bytes.1 then
    .error "replay state request ID does not match its filename"
  else if (record.drop 48).take 32 ≠ digest then
    .error "request ID was already redeemed by a different directive"
  else .ok ()

/-- What a call is told that finds a record under its request ID. -/
def foundRecord (record : Bytes) (request : RequestId) (digest : Bytes) : String :=
  if redemptionRecordLen < record.length then
    "replay redeem exceeds its fixed format; refusing request"
  else
    match validateRedeemRecord record request digest with
    | .error message => message
    | .ok () => "signed request has already been redeemed"

/-! ## The directory -/

/-- The names in the store: the record of a request, and what it is written as first. -/
inductive Name where
  | redeemed (request : RequestId)
  | temporary (request : RequestId) (random : Block 16)
  deriving DecidableEq

abbrev CallId := Nat

/-- The store as calls see it, what of it was last synced, the holder of its lock, and which
call changed which name. -/
structure Store where
  files : Name → Option Bytes
  durable : Name → Option Bytes
  lock : Option CallId
  changes : List (CallId × Name)

namespace Store

/-- Change one name. -/
def put (store : Store) (call : CallId) (name : Name) (contents : Option Bytes) : Store :=
  { store with
    files := Function.update store.files name contents
    changes := (call, name) :: store.changes }

def sync (store : Store) : Store :=
  { store with durable := store.files }

/-- The lock goes when its file is closed. -/
def unlock (store : Store) (call : CallId) : Store :=
  if store.lock = some call then { store with lock := none } else store

end Store

/-! ## Calls -/

/-- What a call is made with.  `signer` and `derive` are the trusted key's verification and
the derivation of the rules. -/
structure Attempt where
  encoded : Bytes
  context : ReceiverContext
  signer : Bytes → Bytes → Int → Except String Unit
  derive : Directive → Except String Unit

/-- Why a call failed: refused by a check of the directive, by the store, by a check of the
time after the record was published, or stopped. -/
inductive Failure where
  | refused (message : String)
  | store (message : String)
  | late (message : String)
  | stopped
  deriving DecidableEq

/-- How far a call has come.  Each stage is named after what the call does next. -/
inductive Stage where
  | check
  | look (signed : Signed) (observedAt : Instant)
  | verify (signed : Signed) (observedAt : Instant)
  | openLock (signed : Signed)
  | lock (signed : Signed)
  | revalidate (signed : Signed)
  | lookAgain (signed : Signed) (redeemedAt : Int)
  | create (signed : Signed) (redeemedAt : Int)
  | inspect (signed : Signed) (random : Block 16) (redeemedAt : Int)
  | write (signed : Signed) (random : Block 16) (record : Bytes)
  | link (signed : Signed) (random : Block 16)
  | sync (signed : Signed) (random : Block 16)
  | unlink (signed : Signed) (random : Block 16)
  | syncAgain (signed : Signed) (random : Block 16)
  | clean (signed : Signed) (random : Block 16) (error : String) (exist : Bool)
  | finish (signed : Signed)
  | failed (failure : Failure)
  | succeeded (signed : Signed)

/-- What the world gives to one step: the time, the failure of a system call, random bytes,
how much a failing write wrote, and whether a cleanup leaves the temporary file. -/
structure Input where
  now : Instant := 0
  io : Option String := none
  random : Block 16 := ⟨List.replicate 16 0, rfl⟩
  written : Nat := 0
  kept : Bool := false

structure Call where
  attempt : Attempt
  stage : Stage

namespace Signed

variable (signed : Signed)

def request : RequestId :=
  signed.directive.requestId

/-- The name of the record. -/
def finalName : Name :=
  .redeemed signed.request

def temporaryName (random : Block 16) : Name :=
  .temporary signed.request random

end Signed

section Advance

variable (postcard : Postcard) (sha256 : Bytes → Bytes)

/-- Look for the record of a request. -/
def lookFor (store : Store) (signed : Signed) (io : Option String) : Except String Unit :=
  match io with
  | some error => .error error
  | none =>
    match store.files signed.finalName with
    | none => .ok ()
    | some record => .error (foundRecord record signed.request (sha256 signed.payload))

/-- The signature and the rules, after the store was first looked at. -/
def verifySigned (attempt : Attempt) (signed : Signed) (observedAt : Instant) :
    Except String Unit := do
  let (_, latestNow) ← attempt.context.wallTimeBoundsAt observedAt
  attempt.signer signed.payload signed.signature
    (max (latestNow - attempt.context.clockSkewSeconds) (-2 ^ 63))
  attempt.derive signed.directive

/-- The time checks after the record was published. -/
def finishChecks (attempt : Attempt) (signed : Signed) (now : Instant) :
    Except String Instant := do
  let verifiedWallTime ← attempt.context.validateAt signed.directive now
  executionDeadline signed.directive.finishBy attempt.context.clockSkewSeconds verifiedWallTime
    now

/-- Leave the store with a failure, giving up the lock. -/
def leave (store : Store) (call : CallId) (failure : Failure) : Option (Store × Stage) :=
  some (store.unlock call, .failed failure)

/-- Remove the temporary file, where that succeeds. -/
def Store.removeTemporary (store : Store) (call : CallId) (name : Name) (kept : Bool) : Store :=
  if kept then store else store.put call name none

/-- The next step of a call; `none` where it waits or has ended. -/
def advance (store : Store) (call : CallId) (attempt : Attempt) (input : Input) :
    Stage → Option (Store × Stage)
  | .check =>
    match Signed.decode postcard attempt.encoded with
    | .error message => some (store, .failed (.refused message))
    | .ok signed =>
      match attempt.context.validateAt signed.directive input.now with
      | .error message => some (store, .failed (.refused message))
      | .ok _ => some (store, .look signed input.now)
  | .look signed observedAt =>
    match signed.request.validate with
    | .error message => some (store, .failed (.refused message))
    | .ok () =>
      match lookFor sha256 store signed input.io with
      | .error message => some (store, .failed (.store message))
      | .ok () => some (store, .verify signed observedAt)
  | .verify signed observedAt =>
    match verifySigned attempt signed observedAt with
    | .error message => some (store, .failed (.refused message))
    | .ok () => some (store, .openLock signed)
  | .openLock signed =>
    match signed.request.validate with
    | .error message => some (store, .failed (.refused message))
    | .ok () =>
      match input.io with
      | some error => some (store, .failed (.store error))
      | none => some (store, .lock signed)
  | .lock signed =>
    match input.io with
    | some error => some (store, .failed (.store error))
    | none =>
      if store.lock = none then some ({ store with lock := some call }, .revalidate signed)
      else none
  | .revalidate signed =>
    match attempt.context.validateAt signed.directive input.now with
    | .error message => leave store call (.refused message)
    | .ok redeemedAt => some (store, .lookAgain signed redeemedAt)
  | .lookAgain signed redeemedAt =>
    match lookFor sha256 store signed input.io with
    | .error message => leave store call (.store message)
    | .ok () => some (store, .create signed redeemedAt)
  | .create signed redeemedAt =>
    match input.io with
    | some error => leave store call (.store error)
    | none =>
      match store.files (signed.temporaryName input.random) with
      | some _ => leave store call (.store "File exists")
      | none =>
        some (store.put call (signed.temporaryName input.random) (some []),
          .inspect signed input.random redeemedAt)
  | .inspect signed random redeemedAt =>
    match input.io with
    | some error =>
      leave (store.removeTemporary call (signed.temporaryName random) input.kept) call
        (.store error)
    | none =>
      match redeemRecord signed.request (sha256 signed.payload) redeemedAt with
      | .error message => leave store call (.store message)
      | .ok record => some (store, .write signed random record)
  | .write signed random record =>
    match input.io with
    | some error =>
      some (store.put call (signed.temporaryName random) (some (record.take input.written)),
        .clean signed random error false)
    | none =>
      some (store.put call (signed.temporaryName random) (some record), .link signed random)
  | .link signed random =>
    match input.io with
    | some error => some (store, .clean signed random error false)
    | none =>
      match store.files signed.finalName with
      | some _ => some (store, .clean signed random "File exists" true)
      | none =>
        some (store.put call signed.finalName
          (some ((store.files (signed.temporaryName random)).getD [])), .sync signed random)
  | .sync signed random =>
    match input.io with
    | some error => some (store, .clean signed random error false)
    | none => some (store.sync, .unlink signed random)
  | .unlink signed random =>
    match input.io with
    | some error => some (store, .clean signed random error false)
    | none =>
      some (store.put call (signed.temporaryName random) none, .syncAgain signed random)
  | .syncAgain signed random =>
    match input.io with
    | some error => some (store, .clean signed random error false)
    | none => some (store.sync.unlock call, .finish signed)
  | .clean signed random error exist =>
    let store := store.removeTemporary call (signed.temporaryName random) input.kept
    if exist then
      match lookFor sha256 store signed input.io with
      | .error message => leave store call (.store message)
      | .ok () => leave store call (.store error)
    else leave store call (.store error)
  | .finish signed =>
    match finishChecks attempt signed input.now with
    | .error message => some (store, .failed (.late message))
    | .ok _ => some (store, .succeeded signed)
  | .failed _ => none
  | .succeeded _ => none

end Advance

/-! ## Processes and crashes -/

structure State where
  store : Store
  calls : CallId → Option Call

/-- A store that some files are in, before any call. -/
def State.start (files : Name → Option Bytes) : State :=
  ⟨⟨files, files, none, []⟩, fun _ => none⟩

/-- A call begins, does its next step, or stops with its process, or the machine stops and
some changes that were not synced are lost. -/
inductive Event where
  | begin (call : CallId) (attempt : Attempt)
  | run (call : CallId) (input : Input)
  | stop (call : CallId)
  | powerLoss (lost : Name → Bool)

def Event.isPowerLoss : Event → Bool
  | .powerLoss _ => true
  | _ => false

/-- A call whose process is gone. -/
def Call.stop (call : Call) : Call :=
  match call.stage with
  | .failed _ => call
  | .succeeded _ => call
  | _ => { call with stage := .failed .stopped }

section System

variable (postcard : Postcard) (sha256 : Bytes → Bytes)

def step (state : State) : Event → Option State
  | .begin call attempt =>
    match state.calls call with
    | some _ => none
    | none =>
      some { state with calls := Function.update state.calls call (some ⟨attempt, .check⟩) }
  | .run call input => do
      let running ← state.calls call
      let (store, stage) ←
        advance postcard sha256 state.store call running.attempt input running.stage
      some ⟨store, Function.update state.calls call (some { running with stage })⟩
  | .stop call => do
      let running ← state.calls call
      some ⟨state.store.unlock call, Function.update state.calls call (some running.stop)⟩
  | .powerLoss lost =>
    let files name := if lost name then state.store.durable name else state.store.files name
    some ⟨{ state.store with files, durable := files, lock := none },
      fun call => (state.calls call).map Call.stop⟩

def system : System State Event where
  enabled _ _ := True
  decidableEnabled _ _ := inferInstance
  step := step postcard sha256

end System

end Syq.Delegation
