import Syq.Restricted.Connections
import Syq.Restricted.Refusal

/-!
# Requests in flight

Every tracked request that was admitted is held in exactly one place of its connection
until it is settled or refused: it is being checked or executed, waits in the gate for
the rest of its streamed patch or small copy, or is due to be settled.  The count of
requests in flight is the number of those.
-/

namespace Syq.Restricted

open Syq.Lib Syq.Results PatchStreamGate List Option

/-! ## What a connection holds -/

/-- The number of a request, if it counts. -/
def idOf (id : Option Nat) : Multiset Nat :=
  ↑id.toList

/-- The request of the small copy that a step took from the gate. -/
@[simp]
def StreamStep.unsettled (copyId : Option Nat) : StreamStep → Multiset Nat
  | .copySmallCopy _ => idOf copyId
  | _ => 0

def dueIds (todo : List Due) : Multiset Nat :=
  (todo.map fun due => idOf due.id).sum

/-- The requests authorized in a phase and not settled. -/
@[simp]
def Phase.unsettled (copyId : Option Nat) : Phase → Multiset Nat
  | .idle | .taken _ | .closed | .checking _ _ => 0
  | .refusing _ _ _ step _ => step.unsettled copyId
  | .running id _ step => idOf id + step.unsettled copyId
  | .settling todo after => dueIds todo + after.unsettled copyId

/-- The request whose authorization is being decided. -/
@[simp]
def Phase.deciding : Phase → Multiset Nat
  | .checking id _ | .refusing id _ _ _ _ => idOf id
  | .settling _ after => after.deciding
  | _ => 0

/-- The requests the gate holds: an open streamed patch, a prepared small copy. -/
def Connection.waiting (connection : Connection) : Multiset Nat :=
  (if connection.gate.opened.isSome then idOf connection.openedId else 0) +
    if connection.gate.smallCopy.isSome then idOf connection.copyId else 0

/-- The tracked requests of a connection that are authorized and not settled. -/
def Connection.unsettled (connection : Connection) : Multiset Nat :=
  connection.waiting + connection.phase.unsettled connection.copyId

/-- The tracked requests of a connection that count as in flight. -/
def Connection.outstanding (connection : Connection) : Multiset Nat :=
  connection.unsettled + connection.phase.deciding

/-! ## What a connection keeps -/

/-- What a step that was authorized relies on. -/
def StreamStep.Ready (gate : PatchStreamGate) (copyId : Option Nat) : StreamStep → Prop
  | .begin _ _ => gate.opened = Option.none
  | .prepareSmallCopy _ => gate.smallCopy = Option.none
  | .copySmallCopy prepared => gate.smallCopy = Option.none ∧ prepared.tracked = copyId.isSome
  | _ => True

/-- A new small copy is prepared only where no other one waits. -/
def PatchStreamGate.Clear (gate : PatchStreamGate) (request : Request) : Prop :=
  ∀ files, request = .prepareSmallFiles files → gate.smallCopy = none

/-- Settlements are tracked just when their request has a number. -/
def Phase.Wf (gate : PatchStreamGate) (copyId : Option Nat) : Phase → Prop
  | .idle => True
  | .closed => gate.opened = none ∧ gate.smallCopy = none
  | .taken request => gate.Clear request
  | .checking id request => id.isSome = request.tracked ∧ gate.Clear request
  | .refusing id request _ step changes => id.isSome = request.tracked ∧
      step.Ready gate copyId ∧ (changes.isSome → ∀ prepared, step ≠ .copySmallCopy prepared)
  | .running id settlement step => settlement.tracked = id.isSome ∧ step.Ready gate copyId
  | .settling todo after =>
    (∀ due ∈ todo, due.settlement.tracked = due.id.isSome) ∧ after.Wf gate copyId

structure Connection.Wf (connection : Connection) : Prop where
  opened : ∀ stream, connection.gate.opened = some stream →
    stream.settlement.tracked = connection.openedId.isSome
  copy : ∀ prepared, connection.gate.smallCopy = some prepared →
    prepared.settlement.tracked = connection.copyId.isSome
  phase : connection.phase.Wf connection.gate connection.copyId

theorem Connection.wf_new : Connection.new.Wf :=
  ⟨nofun, nofun, trivial⟩

theorem Connection.Wf.phase_eq {connection : Connection} {phase : Phase} (wf : connection.Wf)
    (eq : connection.phase = phase) : phase.Wf connection.gate connection.copyId :=
  eq ▸ wf.phase

@[simp]
theorem idOf_none : idOf none = 0 :=
  rfl

@[simp]
theorem card_idOf (id : Option Nat) : (idOf id).card = id.isSome.toNat := by
  cases id <;> rfl

@[simp]
theorem dueIds_nil : dueIds [] = 0 :=
  rfl

@[simp]
theorem dueIds_cons (due : Due) (rest : List Due) :
    dueIds (due :: rest) = idOf due.id + dueIds rest := by
  simp [dueIds]

/-- What one event of a connection does to the requests in flight: those that began and
ended counting are the difference in what the connection holds, and in the count. -/
structure Conserves (state : AuthorityState) (counted : Nat) (connection : Connection)
    (moved : Moved) : Prop where
  wf : moved.connection.Wf
  ids : moved.connection.outstanding + idOf moved.ended =
    connection.outstanding + idOf moved.began
  inFlight : moved.state.inFlight + (idOf moved.ended).card =
    state.inFlight + (idOf moved.began).card
  closing : moved.state.resultsClosing = state.resultsClosing
  began : ∀ id ∈ moved.began, id = counted ∧ state.resultsClosing = false

/-- A local step of a connection keeps what it holds. -/
theorem Conserves.local {state : AuthorityState} {counted : Nat} {conn next : Connection}
    (wf : next.Wf) (same : next.outstanding = conn.outstanding) :
    Conserves state counted conn ⟨state, next, none, none⟩ where
  wf := wf
  ids := congrArg (· + 0) same
  inFlight := rfl
  closing := rfl
  began := nofun

/-! ## Taking and refusing -/

namespace Connection

variable {signed : Signed} {state : AuthorityState} {counted : Nat} {connection : Connection}
variable {request : Request} {id : Option Nat} {refusal : Refusal}

/-- What a connection holds, by its gate and its phase. -/
theorem outstanding_eq (connection : Connection) :
    connection.outstanding = connection.waiting +
      connection.phase.unsettled connection.copyId + connection.phase.deciding :=
  rfl

theorem conserves_take (wf : connection.Wf) (idle : connection.phase = .idle)
    (request : Request) :
    Conserves state counted connection ⟨state, connection.take request, none, none⟩ := by
  unfold take
  split
  · exact .local ⟨wf.opened, wf.copy, nofun⟩ (by simp [outstanding_eq, waiting, idle])
  · exact .local ⟨wf.opened, wf.copy, nofun⟩ (by simp [outstanding_eq, waiting, idle])
  · rename_i empty
    exact .local ⟨wf.opened, wf.copy, fun _ _ => empty⟩
      (by simp [outstanding_eq, waiting, idle])
  · rename_i prepared _ _ held
    refine .local ⟨wf.opened, nofun, ?_, fun _ _ => rfl⟩ ?_
    · exact forall_mem_singleton.mpr (wf.copy prepared held)
    · simp [outstanding_eq, waiting, idle, held]

/-- An abandoned patch moves from the gate to the settlements that are due. -/
theorem waiting_abandon (connection : Connection) (error : String) (after : Phase) :
    (connection.abandon error after).waiting +
        (connection.abandon error after).phase.unsettled connection.copyId =
      connection.waiting + after.unsettled connection.copyId := by
  cases held : connection.gate.opened with
  | none => simp [abandon, waiting, held]
  | some stream =>
    simp only [abandon, waiting, held]
    simp
    abel

theorem wf_abandon (wf : connection.Wf) (error : String) {after : Phase}
    (afterWf : after.Wf { connection.gate with opened := none } connection.copyId) :
    (connection.abandon error after).Wf := by
  refine ⟨nofun, wf.copy, ?_, afterWf⟩
  intro due mem
  simp only [mem_toList, map_eq_some_iff] at mem
  rcases mem with ⟨stream, held, rfl⟩
  exact wf.opened stream held

/-- Nothing but what the gate held is left after a refusal. -/
theorem outstanding_afterRefusal (connection : Connection) (request : Request)
    (refusal : Refusal) :
    (connection.afterRefusal request refusal).outstanding = connection.waiting := by
  unfold afterRefusal
  split
  · have moved := connection.waiting_abandon refusal.message .idle
    rw [outstanding_eq]
    simpa [abandon] using moved
  · simp [outstanding_eq, waiting]

theorem wf_afterRefusal (wf : connection.Wf) (request : Request) (refusal : Refusal) :
    (connection.afterRefusal request refusal).Wf := by
  unfold afterRefusal
  split
  · exact wf_abandon wf _ trivial
  · exact ⟨wf.opened, wf.copy, trivial⟩

theorem conserves_drop (wf : connection.Wf) (idle : connection.phase = .idle) :
    Conserves state counted connection ⟨state, connection.drop, none, none⟩ := by
  have emptied : Wf { connection with gate := { connection.gate with smallCopy := none } } :=
    ⟨wf.opened, nofun, by rw [idle]; trivial⟩
  apply Conserves.local
  · refine wf_abandon emptied _ ⟨?_, rfl, rfl⟩
    intro due mem
    simp only [mem_toList, map_eq_some_iff] at mem
    rcases mem with ⟨prepared, held, rfl⟩
    exact wf.copy prepared held
  · have moved := waiting_abandon
      { connection with gate := { connection.gate with smallCopy := none } }
      "the connection closed before its streamed patch ended"
      (.settling (connection.gate.smallCopy.map fun prepared =>
        (⟨connection.copyId, prepared.settlement,
          .unexecuted "the connection closed before the small copy's payloads"⟩ : Due)).toList
        .closed)
    rw [outstanding_eq, outstanding_eq, idle]
    refine (congrArg (· + 0) moved).trans ?_
    cases held : connection.gate.smallCopy with
    | none => simp [waiting, held]
    | some prepared => simp [waiting, held]

/-! ## Admission and checks -/

theorem conserves_admit (wf : connection.Wf) (taken : connection.phase = .taken request)
    {controlOpen : Bool} {admitted : AuthorityState}
    (admittedEq : state.admission controlOpen request = .ok admitted) :
    let id := if request.tracked then some counted else none
    Conserves state counted connection
      ⟨admitted, { connection with phase := .checking id request }, id, none⟩ := by
  rcases AuthorityState.admission_ok admittedEq with ⟨-, running, rfl⟩
  constructor
  · refine ⟨wf.opened, wf.copy, ?_, wf.phase_eq taken⟩
    cases request.tracked <;> rfl
  · simp only [outstanding_eq, taken]
    simp [waiting]
  · cases request.tracked <;> rfl
  · rfl
  · intro id began
    cases tracked : request.tracked with
    | false => simp [tracked] at began
    | true =>
      simp only [tracked, if_true, mem_def, some.injEq] at began
      exact ⟨began.symm, running tracked⟩

/-- A request that is held to the streams of its connection moves a small copy from the
gate to its own step. -/
theorem waiting_streams {next : PatchStreamGate} {step : StreamStep}
    (streams : connection.gate.Streams request next step) (phase : Phase) :
    waiting { connection with gate := next, phase } + step.unsettled connection.copyId =
      connection.waiting := by
  have opened : next.opened.isSome = connection.gate.opened.isSome := by
    simpa using congrArg isSome streams.opened
  rcases streams.copy with ⟨copy, noCopy⟩ | ⟨payloads, prepared, -, held, taken, rfl⟩
  · have nothing : step.unsettled connection.copyId = 0 := by
      cases step with
      | copySmallCopy prepared => exact absurd rfl (noCopy prepared)
      | _ => rfl
    simp [waiting, opened, copy]
  · simp [waiting, opened, held, taken]

section

variable (wf : connection.Wf)

include wf

theorem wf_streams {next : PatchStreamGate} {step : StreamStep}
    (streams : connection.gate.Streams request next step) (clear : connection.gate.Clear request)
    {phase : Phase}
    (phaseWf : step.Ready next connection.copyId → phase.Wf next connection.copyId) :
    Wf { connection with gate := next, phase } := by
  constructor
  · intro stream held
    have same := streams.opened
    rw [held] at same
    rcases map_eq_some_iff.mp same.symm with ⟨before, beforeHeld, settlement⟩
    rw [← settlement]
    exact wf.opened before beforeHeld
  · intro prepared held
    rcases streams.copy with ⟨copy, -⟩ | ⟨payloads, other, -, -, taken, -⟩
    · exact wf.copy prepared (copy ▸ held)
    · rw [taken] at held
      cases held
  · apply phaseWf
    cases step with
    | begin path declared => exact streams.begins path declared rfl
    | prepareSmallCopy sizes =>
      rcases streams.prepares sizes rfl with ⟨files, same⟩
      rcases streams.copy with ⟨copy, -⟩ | ⟨payloads, other, other', -⟩
      · exact copy.trans (clear files same)
      · rw [same] at other'
        cases other'
    | copySmallCopy settlement =>
      rcases streams.copy with ⟨-, noCopy⟩ | ⟨payloads, other, -, held, taken, same⟩
      · exact absurd rfl (noCopy settlement)
      · cases same
        exact ⟨taken, wf.copy other held⟩
    | none | finish => trivial

theorem conserves_check (checking : connection.phase = .checking id request)
    (inner : Option Refusal) (fileBytes : Path → Option Refusal) (overLimit : Option String)
    (creations : List PendingCreation) (outcomes : List PendingOutcome) (charged : Charged) :
    Conserves state counted connection ⟨state,
      connection.check id request inner fileBytes overLimit creations outcomes charged,
      none, none⟩ := by
  rcases wf.phase_eq checking with ⟨tracked, clear⟩
  have before : connection.outstanding = connection.waiting + idOf id := by
    simp [outstanding_eq, checking]
  cases inner with
  | some refusal =>
    apply Conserves.local
    · exact ⟨wf.opened, wf.copy, tracked, trivial, nofun⟩
    · rw [before]
      simp [check, outstanding_eq, waiting]
  | none =>
    cases streamEq : connection.gate.authorizeStream fileBytes request with
    | mk streamed rest =>
      rcases rest with ⟨next, step⟩
      have streams := authorizeStream_streams streamEq
      have refused : ∀ refusal, Conserves state counted connection ⟨state,
          { connection with gate := next, phase := .refusing id request refusal step none },
          none, none⟩ := by
        intro refusal
        apply Conserves.local
        · exact wf_streams wf streams clear fun ready => ⟨tracked, ready, nofun⟩
        · rw [before, ← waiting_streams streams (.refusing id request refusal step none)]
          simp [outstanding_eq]
      simp only [check, streamEq]
      cases streamed with
      | error refusal => exact refused refusal
      | ok done =>
        cases overLimit with
        | some msg => exact refused (.bail msg)
        | none =>
          apply Conserves.local
          · exact wf_streams wf streams clear fun ready => ⟨tracked.symm, ready⟩
          · rw [before, ← waiting_streams streams
              (.running id ⟨creations, outcomes, charged, request.tracked⟩ step)]
            simp only [outstanding_eq, Phase.unsettled]
            abel

/-! ## Refusals -/

theorem conserves_endRefusedCopy {prepared : Settlement}
    (refusing : connection.phase = .refusing id request refusal (.copySmallCopy prepared) none) :
    Conserves state counted connection ⟨state, { connection with
        phase := .settling [⟨connection.copyId, prepared, .unexecuted refusal.message⟩]
          (.refusing id request refusal .none none) }, none, none⟩ := by
  rcases wf.phase_eq refusing with ⟨tracked, ⟨-, copyTracked⟩, -⟩
  apply Conserves.local
  · exact ⟨wf.opened, wf.copy, forall_mem_singleton.mpr copyTracked, tracked, trivial, nofun⟩
  · simp [outstanding_eq, waiting, refusing]

theorem conserves_classify {step : StreamStep}
    {changes classified : Option (List (Option Path × Change))}
    (refusing : connection.phase = .refusing id request refusal step changes)
    (noCopy : ∀ prepared, step ≠ .copySmallCopy prepared) :
    Conserves state counted connection ⟨state,
      { connection with phase := .refusing id request refusal step classified }, none, none⟩ := by
  rcases wf.phase_eq refusing with ⟨tracked, ready, -⟩
  apply Conserves.local
  · exact ⟨wf.opened, wf.copy, tracked, ready, fun _ => noCopy⟩
  · simp [outstanding_eq, waiting, refusing]

theorem conserves_refuse {step : StreamStep} {changes : List (Option Path × Change)}
    (refusing : connection.phase = .refusing id request refusal step (some changes))
    {after : AuthorityState} (recorded : state.recordRefusal request refusal changes = some after) :
    Conserves state counted connection
      ⟨after, connection.afterRefusal request refusal, none, id⟩ := by
  rcases wf.phase_eq refusing with ⟨tracked, -, noCopy⟩
  rcases AuthorityState.recordRefusal_counts recorded with ⟨inFlight, closing, -⟩
  constructor
  · exact wf_afterRefusal wf request refusal
  · have nothing : step.unsettled connection.copyId = 0 := by
      cases step with
      | copySmallCopy prepared => exact absurd rfl (noCopy rfl prepared)
      | _ => rfl
    rw [outstanding_afterRefusal]
    simp only [outstanding_eq, refusing, Phase.unsettled, Phase.deciding, nothing, idOf_none,
      add_zero]
  · simpa [tracked] using inFlight
  · exact closing
  · exact nofun

/-! ## Settlements -/

theorem conserves_settleNext {due : Due} {rest : List Due} {after : Phase}
    (settling : connection.phase = .settling (due :: rest) after) {next : AuthorityState}
    (settled : due.settle signed state = some next) :
    Conserves state counted connection
      ⟨next, { connection with phase := .settling rest after }, none, due.id⟩ := by
  rcases wf.phase_eq settling with ⟨dueWf, afterWf⟩
  have count := Due.counted_settle settled
  constructor
  · exact ⟨wf.opened, wf.copy, fun other mem => dueWf other (mem_cons_of_mem _ mem), afterWf⟩
  · simp only [outstanding_eq, settling, Phase.unsettled, Phase.deciding, dueIds_cons, idOf_none]
    change connection.waiting + _ + _ + _ = _
    abel
  · simpa [dueWf due mem_cons_self] using count.inFlight
  · exact count.resultsClosing
  · exact nofun

theorem conserves_respond {settlement : Settlement} {step : StreamStep}
    (running : connection.phase = .running id settlement step) (resp : Response) (opened : Bool) :
    Conserves state counted connection
      ⟨state, connection.respond id settlement step resp opened, none, none⟩ := by
  rcases wf.phase_eq running with ⟨tracked, ready⟩
  have alone : ∀ due ∈ [(⟨id, settlement, .executed resp⟩ : Due)],
      due.settlement.tracked = due.id.isSome := forall_mem_singleton.mpr tracked
  cases step with
  | none =>
    refine .local ⟨wf.opened, wf.copy, alone, trivial⟩ ?_
    simp [respond, settle, outstanding_eq, waiting, running]
  | begin path declared =>
    have free : connection.gate.opened = none := ready
    cases opened with
    | true =>
      refine .local ⟨?_, wf.copy, nofun, trivial⟩ ?_
      · rintro stream ⟨⟩
        exact tracked
      · simp [respond, settle, outstanding_eq, waiting, running, free]
        abel
    | false =>
      refine .local ⟨?_, wf.copy, alone, trivial⟩ ?_
      · intro stream held
        exact absurd (free.symm.trans held) (by simp)
      · simp [respond, settle, outstanding_eq, waiting, running, free]
  | finish =>
    cases held : connection.gate.opened with
    | none =>
      refine .local ⟨nofun, wf.copy, ?_, trivial⟩ ?_
      · simpa [respond, settle, held] using alone
      · simp [respond, settle, outstanding_eq, waiting, running, held]
    | some stream =>
      refine .local ⟨nofun, wf.copy, ?_, trivial⟩ ?_
      · simpa [respond, settle, held] using ⟨tracked, wf.opened stream held⟩
      · simp [respond, settle, outstanding_eq, waiting, running, held]
        abel
  | prepareSmallCopy sizes =>
    have free : connection.gate.smallCopy = none := ready
    rcases connection.gate.settle_prepareSmallCopy settlement sizes resp opened with
      ⟨needed, held⟩ | settled
    · refine .local ?_ ?_
      · simp only [respond, held]
        refine ⟨wf.opened, ?_, nofun, trivial⟩
        rintro prepared ⟨⟩
        exact tracked
      · simp [respond, held, outstanding_eq, waiting, running, free]
    · refine .local ?_ ?_
      · simp only [respond, settled]
        refine ⟨wf.opened, ?_, alone, trivial⟩
        intro prepared held
        exact absurd (free.symm.trans held) (by simp)
      · simp [respond, settled, outstanding_eq, waiting, running, free]
  | copySmallCopy prepared =>
    rcases ready with ⟨free, copyTracked⟩
    refine .local ⟨wf.opened, wf.copy, ?_, trivial⟩ ?_
    · simpa [respond, settle] using ⟨tracked, copyTracked⟩
    · simp [respond, settle, outstanding_eq, waiting, running]

/-- Every event of a connection conserves its requests. -/
theorem conserves_step {event : ConnectionEvent} {moved : Moved}
    (stepEq : connection.step signed state counted event = some moved) :
    Conserves state counted connection moved := by
  have stays : ∀ {next}, (some ⟨state, next, none, none⟩ : Option Moved) = some moved →
      Conserves state counted connection ⟨state, next, none, none⟩ →
      Conserves state counted connection moved := by
    rintro next ⟨⟩ conserves
    exact conserves
  unfold step at stepEq
  split at stepEq
  · rename_i idle
    split at stepEq
    · exact stays stepEq (conserves_take wf idle _)
    · cases stepEq
  · rename_i taken
    split at stepEq
    · refine stays stepEq (.local (wf_afterRefusal wf _ _) ?_)
      rw [outstanding_afterRefusal, outstanding_eq, taken]
      simp
    · rename_i admittedEq
      cases stepEq
      exact conserves_admit wf taken admittedEq
  · rename_i checking
    exact stays stepEq (conserves_check wf checking _ _ _ _ _ _)
  · rename_i refusing
    exact stays stepEq (conserves_endRefusedCopy wf refusing)
  · rename_i refusing
    split at stepEq
    · cases stepEq
    · rename_i noCopy
      exact stays stepEq (conserves_classify wf refusing noCopy)
  · rename_i refusing
    rcases bind_eq_some_iff.mp stepEq with ⟨after, recorded, result⟩
    cases result
    exact conserves_refuse wf refusing recorded
  · rename_i running
    exact stays stepEq (conserves_respond wf running _ _)
  · rename_i running
    refine stays stepEq (.local ⟨wf.opened, wf.copy, trivial⟩ ?_)
    simp [outstanding_eq, waiting, running]
  · rename_i settling
    rcases bind_eq_some_iff.mp stepEq with ⟨next, settled, result⟩
    cases result
    exact conserves_settleNext wf settling settled
  · rename_i settling
    refine stays stepEq (.local ⟨wf.opened, wf.copy, (wf.phase_eq settling).2⟩ ?_)
    simp [outstanding_eq, waiting, settling]
  · rename_i idle
    exact stays stepEq (conserves_drop wf idle)
  · cases stepEq

end

end Connection

/-! ## The whole grant -/

/-- The grant with its connections as a system: every event is permitted when its
connection is ready for it. -/
def sessionSystem (signed : Signed) : System Session SessionEvent where
  enabled _ _ := True
  decidableEnabled _ _ := inferInstance
  step := Session.step signed

namespace Session

/-- The tracked requests of all connections that count as in flight. -/
def outstanding (session : Session) : Multiset Nat :=
  (session.connections.map Connection.outstanding).sum

/-- Those that are authorized and not settled, an open streamed patch and a prepared
small copy included. -/
def unsettled (session : Session) : Multiset Nat :=
  (session.connections.map Connection.unsettled).sum

/-- What holds in every reachable state of a grant. -/
structure Inv (session : Session) : Prop where
  connections : ∀ connection ∈ session.connections, connection.Wf
  /-- Every request that was counted is outstanding or finished, once. -/
  ids : session.outstanding + ↑session.finished = Multiset.range session.counted
  inFlight : session.state.inFlight = session.outstanding.card
  /-- Nothing is outstanding once the end frame is sealed. -/
  ended : session.sealed = true → session.state.resultsClosing = true ∧ session.outstanding = 0

theorem inv_init : init.Inv where
  connections := nofun
  ids := rfl
  inFlight := rfl
  ended := nofun

namespace Inv

variable {signed : Signed} {session next : Session}

variable (inv : session.Inv)

include inv

theorem connect :
    Inv { session with connections := session.connections ++ [.new] } := by
  have same : outstanding { session with connections := session.connections ++ [.new] } =
      session.outstanding := by
    simp [outstanding, Connection.outstanding_eq, Connection.waiting, Connection.new, new]
  constructor
  · exact forall_mem_append.mpr ⟨inv.connections, forall_mem_singleton.mpr Connection.wf_new⟩
  · rw [same]
    exact inv.ids
  · rw [same]
    exact inv.inFlight
  · rw [same]
    exact inv.ended

/-- Only the count, the closure and the connections matter. -/
theorem withState {state : AuthorityState} (inFlight : state.inFlight = session.state.inFlight)
    (closing : session.state.resultsClosing = true → state.resultsClosing = true) :
    Inv { session with state } where
  connections := inv.connections
  ids := inv.ids
  inFlight := inFlight.trans inv.inFlight
  ended done := ⟨closing (inv.ended done).1, (inv.ended done).2⟩

theorem on {index : Nat} {event : ConnectionEvent}
    (stepEq : session.step signed (.on index event) = some next) : next.Inv := by
  rcases bind_eq_some_iff.mp stepEq with ⟨conn, found, rest⟩
  rcases bind_eq_some_iff.mp rest with ⟨moved, movedEq, result⟩
  cases result
  have mem := mem_of_getElem? found
  have conserves := Connection.conserves_step (inv.connections conn mem) movedEq
  -- The other connections keep what they hold.
  have ids : outstanding { session with
        connections := session.connections.set index moved.connection } + idOf moved.ended =
      session.outstanding + idOf moved.began := by
    have sums := sum_map_set Connection.outstanding found moved.connection
    apply add_right_cancel (b := conn.outstanding)
    calc
      _ = ((session.connections.set index moved.connection).map Connection.outstanding).sum +
            conn.outstanding + idOf moved.ended := add_right_comm _ _ _
      _ = session.outstanding + (moved.connection.outstanding + idOf moved.ended) := by
            rw [sums, add_assoc]
            rfl
      _ = session.outstanding + idOf moved.began + conn.outstanding := by
            rw [conserves.ids]
            abel
  constructor
  · intro other otherMem
    rcases mem_or_eq_of_mem_set otherMem with old | rfl
    · exact inv.connections other old
    · exact conserves.wf
  · have finished : (↑(session.finished ++ moved.ended.toList) : Multiset Nat) =
        idOf moved.ended + ↑session.finished := by
      rw [add_comm]
      rfl
    have numbered : Multiset.range session.counted + idOf moved.began =
        Multiset.range (session.counted + moved.began.toList.length) := by
      cases beganEq : moved.began with
      | none => simp
      | some id =>
        obtain ⟨rfl, -⟩ := conserves.began id beganEq
        rw [add_comm]
        exact (Multiset.range_succ _).symm
    rw [finished, ← add_assoc, ← numbered, ← inv.ids]
    refine (congrArg (· + (↑session.finished : Multiset Nat)) ids).trans ?_
    exact add_right_comm _ _ _
  · have cards := congrArg Multiset.card ids
    simp only [Multiset.card_add] at cards
    have counts := conserves.inFlight
    rw [inv.inFlight] at counts
    exact add_right_cancel (counts.trans cards.symm)
  · intro done
    rcases inv.ended done with ⟨closed, nothing⟩
    have noneBegan : moved.began = none := by
      rw [eq_none_iff_forall_not_mem]
      intro id began
      rw [(conserves.began id began).2] at closed
      cases closed
    refine ⟨conserves.closing.trans closed, ?_⟩
    rw [nothing, noneBegan] at ids
    exact (add_eq_zero.mp ids).1

theorem step {event : SessionEvent}
    (stepEq : session.step signed event = some next) : next.Inv := by
  cases event with
  | connect =>
    cases stepEq
    exact inv.connect
  | on index event => exact inv.on stepEq
  | touch created provisional budget tcpListenerStarted =>
    cases stepEq
    exact inv.withState rfl id
  | startResults =>
    unfold Session.step at stepEq
    dsimp only at stepEq
    split at stepEq
    · rename_i state started
      cases stepEq
      have kept := AuthorityState.startResults_ok started
      exact inv.withState (by rw [kept]) (by rw [kept]; exact id)
    · cases stepEq
      exact inv
  | finishResults =>
    unfold Session.step at stepEq
    dsimp only at stepEq
    split at stepEq
    · rename_i state closing
      cases stepEq
      have kept := AuthorityState.beginFinish_ok closing
      exact inv.withState (by rw [kept]) (by rw [kept]; exact fun _ => rfl)
    · cases stepEq
      exact inv
  | sealEnd unfinished =>
    unfold Session.step at stepEq
    dsimp only at stepEq
    split at stepEq
    · rename_i ready
      cases stepEq
      simp only [Bool.and_eq_true, beq_iff_eq] at ready
      have same := AuthorityState.endResults_counts signed session.state unfinished
      have ended := inv.withState same.inFlight fun closed => same.resultsClosing.trans closed
      refine { ended with ended := fun _ => ⟨same.resultsClosing.trans ready.1.1.1, ?_⟩ }
      apply Multiset.card_eq_zero.mp
      exact inv.inFlight.symm.trans ready.1.2
    · cases stepEq

omit inv

/-- Every reachable state of a grant keeps the invariant. -/
theorem of_run {events : List SessionEvent}
    (run : (sessionSystem signed).exec init events = some session) : session.Inv :=
  (sessionSystem signed).exec_invariant (fun inv _ stepEq => inv.step stepEq) inv_init run

end Inv

/-- The tracked requests whose authorization is being decided. -/
def deciding (session : Session) : Multiset Nat :=
  (session.connections.map fun connection => connection.phase.deciding).sum

theorem outstanding_eq (session : Session) :
    session.outstanding = session.unsettled + session.deciding := by
  rw [unsettled, deciding, ← sum_map_add]
  rfl

/-- What one connection holds is among what all of them hold. -/
theorem outstanding_le {session : Session} {conn : Connection}
    (mem : conn ∈ session.connections) :
    conn.outstanding ≤ session.outstanding :=
  List.single_le_sum (fun _ _ => Multiset.zero_le _) _ (List.mem_map_of_mem mem)

namespace Inv

variable {session : Session} {connection : Connection}

/-- A tracked request counts as in flight until it is settled. -/
theorem settling_le (inv : session.Inv) (mem : connection ∈ session.connections) {due : Due}
    {rest : List Due} {after : Phase}
    (settling : connection.phase = .settling (due :: rest) after) :
    due.settlement.tracked.toNat ≤ session.state.inFlight := by
  have phaseWf := (inv.connections connection mem).phase_eq settling
  rw [inv.inFlight, phaseWf.1 due mem_cons_self, ← card_idOf]
  refine Multiset.card_le_card (le_trans ?_ (outstanding_le mem))
  simp only [Connection.outstanding_eq, settling, Phase.unsettled]
  exact le_add_of_le_left (le_add_of_le_right (le_add_of_le_left (le_add_of_le_left le_rfl)))

/-- A tracked request counts as in flight until its refusal is recorded. -/
theorem refusing_le (inv : session.Inv) (mem : connection ∈ session.connections)
    {id : Option Nat} {req : Request} {refusal : Refusal} {step : StreamStep}
    {changes : Option (List (Option Path × Change))}
    (refusing : connection.phase = .refusing id req refusal step changes) :
    req.tracked.toNat ≤ session.state.inFlight := by
  have phaseWf := (inv.connections connection mem).phase_eq refusing
  rw [inv.inFlight, ← phaseWf.1, ← card_idOf]
  refine Multiset.card_le_card (le_trans ?_ (outstanding_le mem))
  simp only [Connection.outstanding_eq, refusing]
  exact le_add_of_le_right le_rfl

/-- The end frame waits for what is in flight. -/
theorem not_sealed (inv : session.Inv) (some : 1 ≤ session.state.inFlight) :
    session.sealed = false := by
  cases done : session.sealed with
  | false => rfl
  | true =>
    rw [inv.inFlight, (inv.ended done).2] at some
    exact absurd some (by simp)

end Inv

end Session

/-- Over every interleaving of any number of connections: the requests in flight are the
tracked ones authorized and not settled, with those whose authorization is being
decided; every request counted is still in flight or was counted off, once; the count
is never lowered below zero; all are counted off when their connections have closed; and
once the end frame is sealed no tracked request is unsettled and none is admitted. -/
theorem results_end_after_every_settlement (signed : Signed) {events : List SessionEvent}
    {session : Session} (run : (sessionSystem signed).exec .init events = some session) :
    session.state.inFlight = session.unsettled.card + session.deciding.card ∧
    session.unsettled + session.deciding + ↑session.finished =
      Multiset.range session.counted ∧
    (∀ connection ∈ session.connections,
      (∀ due rest after, connection.phase = .settling (due :: rest) after →
        due.settlement.tracked.toNat ≤ session.state.inFlight) ∧
      ∀ id request refusal step changes,
        connection.phase = .refusing id request refusal step changes →
        request.tracked.toNat ≤ session.state.inFlight) ∧
    ((∀ connection ∈ session.connections, connection.phase = .closed) →
      (↑session.finished : Multiset Nat) = Multiset.range session.counted) ∧
    (session.sealed = true → session.unsettled = 0 ∧ session.deciding = 0 ∧
      ∀ controlOpen request, request.tracked = true →
        ∃ refusal, session.state.admission controlOpen request = .error refusal) := by
  have inv := Session.Inv.of_run run
  have parts := session.outstanding_eq
  refine ⟨?_, ?_, ?_, ?_, ?_⟩
  · rw [inv.inFlight, parts, Multiset.card_add]
  · rw [← parts]
    exact inv.ids
  · intro connection mem
    constructor
    · intro due rest after settling
      exact inv.settling_le mem settling
    · intro id request refusal step changes refusing
      exact inv.refusing_le mem refusing
  · intro closed
    have nothing : session.outstanding = 0 := by
      apply sum_eq_zero
      intro held mem
      rcases mem_map.mp mem with ⟨connection, connectionMem, rfl⟩
      have isClosed := closed connection connectionMem
      have phaseWf := (inv.connections connection connectionMem).phase_eq isClosed
      simp [Connection.outstanding_eq, Connection.waiting, isClosed, phaseWf.1, phaseWf.2]
    have ids := inv.ids
    rwa [nothing, zero_add] at ids
  · intro done
    rcases inv.ended done with ⟨closing, nothing⟩
    rw [parts] at nothing
    refine ⟨(add_eq_zero.mp nothing).1, (add_eq_zero.mp nothing).2, ?_⟩
    intro controlOpen request tracked
    cases controlOpen with
    | false => exact ⟨_, rfl⟩
    | true =>
      refine ⟨.bail "the signed grant is closed: its results have ended", ?_⟩
      simp [AuthorityState.admission, tracked, closing]

/-- One connection makes a directory, another prepares a small copy and closes before its
payloads; then the results end. -/
def endedSession : List SessionEvent :=
  let allowed (outcomes : List PendingOutcome) : ConnectionEvent :=
    .check none (fun _ => none) none [] outcomes ⟨0, [], none⟩
  [.startResults, .connect, .connect, .on 0 (.take (.apply [.mkdir [97]])), .on 0 (.enter true),
    .on 1 (.take (.prepareSmallFiles [⟨[98], 3⟩])), .on 1 (.enter true),
    .on 1 (allowed [.smallCopy 0 [98] 3]), .on 1 (.respond (.smallFilesPrepared [true]) false),
    .finishResults,
    .on 0 (allowed [.logical 0 [97] .ensureDirectory]), .on 0 (.respond (.applied [none]) false),
    .on 0 .settleNext, .on 1 .proceed, .on 1 .drop, .on 1 .proceed, .on 1 .settleNext,
    .sealEnd []]

theorem results_end_after_small_copy_dropped :
    ∃ session, (sessionSystem (.tenBytes 1)).exec .init endedSession = some session ∧
      session.sealed = true ∧ session.finished = [0, 1] ∧ session.unsettled = 0 := by
  have ran : ((sessionSystem (.tenBytes 1)).exec .init endedSession).map (fun session =>
      (session.sealed, session.finished)) = some (true, [0, 1]) := by decide +kernel
  rcases map_eq_some_iff.mp ran with ⟨session, run, shown⟩
  rcases Prod.mk.inj shown with ⟨done, finished⟩
  have ends := results_end_after_every_settlement (.tenBytes 1) run
  exact ⟨session, run, done, finished, (ends.2.2.2.2 done).1⟩

end Syq.Restricted
