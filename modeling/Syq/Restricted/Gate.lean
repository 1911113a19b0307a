import Syq.Restricted.Settlement

/-!
# The streamed patch and the small copy of a connection

Two requests outlive their own reply: the begin of a streamed patch, settled with its
end, and the preparation of a small copy, settled with its payloads.  The gate of a
connection holds their settlements until then.
-/

namespace Syq.Restricted

open Syq.Results

/-- Why a request is refused; `kept` marks the existing-object policy keeping what the
destination holds. -/
structure Refusal where
  message : String
  kept : Bool
  deriving DecidableEq

def Refusal.bail (message : String) : Refusal :=
  ⟨message, false⟩

/-- A small copy prepared on a connection, waiting for its payloads. -/
structure PreparedSmallCopy where
  sizes : List Nat
  needed : List Bool
  settlement : Settlement

/-- A streamed patch open on a connection. -/
structure OpenPatchStream where
  path : Path
  declared : Nat
  received : Nat
  settlement : Settlement

structure PatchStreamGate where
  opened : Option OpenPatchStream
  smallCopy : Option PreparedSmallCopy

/-- What a request does to its connection's streamed patch or small copy. -/
inductive StreamStep where
  | none
  | begin (path : Path) (declared : Nat)
  | finish
  | prepareSmallCopy (sizes : List Nat)
  | copySmallCopy (prepared : Settlement)

namespace PatchStreamGate

def new : PatchStreamGate :=
  ⟨none, none⟩

/-! ## Authorization -/

/-- A payload that was not asked for, came before, or has another size. -/
def mismatched (prepared : PreparedSmallCopy) : List Nat → List SmallCopyPayload → Bool
  | _, [] => false
  | sent, payload :: rest =>
    prepared.needed[payload.index]? != some true || decide (payload.index ∈ sent) ||
      prepared.sizes[payload.index]? != some payload.data ||
        mismatched prepared (payload.index :: sent) rest

/-- Hold a request to the streamed patch or small copy of its connection.
`checkFileBytes` is the verdict on the bytes of a streamed piece. -/
def authorizeStream (checkFileBytes : Path → Option Refusal) (gate : PatchStreamGate) :
    Request → Except Refusal Unit × PatchStreamGate × StreamStep
  | .prepareSmallFiles files =>
    (.ok (), gate, .prepareSmallCopy (files.map SmallCopyFile.size))
  | .copySmallFiles payloads =>
    match gate.smallCopy with
    | none => (.error (.bail "no small copy is prepared on this connection"), gate, .none)
    | some prepared =>
      (if mismatched prepared [] payloads
        then .error (.bail "small copy payloads differ from what its preparation asked for")
        else .ok (),
        { gate with smallCopy := none }, .copySmallCopy prepared.settlement)
  | .patchBegin patch dataLen =>
    if gate.opened.isSome then
      (.error (.bail "a streamed patch is already open on this connection"), gate, .none)
    else (.ok (), gate, .begin patch.path dataLen)
  | .patchData data =>
    match gate.opened with
    | none => (.error (.bail "no streamed patch is open on this connection"), gate, .none)
    | some stream =>
      if stream.declared < stream.received + data then
        (.error (.bail "streamed patch data runs past the length its begin declared"), gate, .none)
      else
        match checkFileBytes stream.path with
        | some refusal => (.error refusal, gate, .none)
        | none => (.ok (), { gate with
            opened := some { stream with received := stream.received + data } }, .none)
  | .patchEnd =>
    if gate.opened.isSome then (.ok (), gate, .finish)
    else (.error (.bail "no streamed patch is open on this connection"), gate, .none)
  | _ => (.ok (), gate, .none)

/-- What holding a request to the streams of its connection leaves: the settlements in
the gate, of which only payloads take the small copy's. -/
structure Streams (request : Request) (gate next : PatchStreamGate) (step : StreamStep) : Prop where
  opened : next.opened.map OpenPatchStream.settlement =
    gate.opened.map OpenPatchStream.settlement
  copy : (next.smallCopy = gate.smallCopy ∧ ∀ prepared, step ≠ .copySmallCopy prepared) ∨
    ∃ payloads prepared, request = .copySmallFiles payloads ∧ gate.smallCopy = some prepared ∧
      next.smallCopy = none ∧ step = .copySmallCopy prepared.settlement
  begins : ∀ path declared, step = .begin path declared → next.opened = none
  prepares : ∀ sizes, step = .prepareSmallCopy sizes →
    ∃ files, request = .prepareSmallFiles files

/-- A request that leaves the gate alone and has no step. -/
theorem Streams.refl (req : Request) (gate : PatchStreamGate) :
    Streams req gate gate .none :=
  ⟨rfl, .inl ⟨rfl, nofun⟩, nofun, nofun⟩

theorem authorizeStream_streams {checkFileBytes : Path → Option Refusal}
    {gate next : PatchStreamGate} {req : Request} {streamed : Except Refusal Unit}
    {step : StreamStep}
    (streamEq : gate.authorizeStream checkFileBytes req = (streamed, next, step)) :
    Streams req gate next step := by
  unfold authorizeStream at streamEq
  split at streamEq
  · cases streamEq
    exact ⟨rfl, .inl ⟨rfl, nofun⟩, nofun, fun _ _ => ⟨_, rfl⟩⟩
  · split at streamEq
    · cases streamEq
      exact .refl _ _
    · rename_i prepared held
      cases streamEq
      exact ⟨rfl, .inr ⟨_, prepared, rfl, held, rfl, rfl⟩, nofun, nofun⟩
  · split at streamEq
    · cases streamEq
      exact .refl _ _
    · rename_i free
      cases streamEq
      exact ⟨rfl, .inl ⟨rfl, nofun⟩, fun _ _ _ => by simpa using free, nofun⟩
  · split at streamEq
    · cases streamEq
      exact .refl _ _
    · rename_i stream held
      split at streamEq
      · cases streamEq
        exact .refl _ _
      · split at streamEq
        · cases streamEq
          exact .refl _ _
        · cases streamEq
          exact ⟨by simp [held], .inl ⟨rfl, nofun⟩, nofun, nofun⟩
  · split at streamEq
    · cases streamEq
      exact ⟨rfl, .inl ⟨rfl, nofun⟩, nofun, nofun⟩
    · cases streamEq
      exact .refl _ _
  · cases streamEq
    exact .refl _ _

/-! ## Settlement -/

/-- Settle an executed request: what the gate holds after it, and the settlements that
are settled with the response, in order. -/
def settle (gate : PatchStreamGate) (settlement : Settlement) (step : StreamStep)
    (response : Response) (opened : Bool) : PatchStreamGate × List Settlement :=
  match step with
  | .begin path declared =>
    if opened then ({ gate with opened := some ⟨path, declared, 0, settlement⟩ }, [])
    else (gate, [settlement])
  | .finish =>
    ({ gate with opened := none },
      settlement :: (gate.opened.map OpenPatchStream.settlement).toList)
  | .prepareSmallCopy sizes =>
    match response with
    | .smallFilesPrepared needed =>
      if needed.length = sizes.length then
        ({ gate with smallCopy := some ⟨sizes, needed, settlement⟩ }, [])
      else (gate, [settlement])
    | _ => (gate, [settlement])
  | .copySmallCopy prepared => (gate, [settlement, prepared])
  | .none => (gate, [settlement])

/-- A prepared small copy is held, or settled at once. -/
theorem settle_prepareSmallCopy (gate : PatchStreamGate) (settlement : Settlement)
    (sizes : List Nat) (resp : Response) (opened : Bool) :
    (∃ needed, gate.settle settlement (.prepareSmallCopy sizes) resp opened =
      ({ gate with smallCopy := some ⟨sizes, needed, settlement⟩ }, [])) ∨
    gate.settle settlement (.prepareSmallCopy sizes) resp opened = (gate, [settlement]) := by
  unfold settle
  dsimp only
  split
  · split
    · exact .inl ⟨_, rfl⟩
    · exact .inr rfl
  · exact .inr rfl

/-- What settles an open streamed patch as failed. -/
def abandonResponse (error : String) : Response :=
  .patchedBatch [.error ⟨⟨error, false, false, false, "io"⟩, false, false, false⟩]

end PatchStreamGate

end Syq.Restricted
