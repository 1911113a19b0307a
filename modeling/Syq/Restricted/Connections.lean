import Syq.Restricted.Authorize
import Syq.Lib.Transition

/-!
# Connections of a grant

Any number of connections share a grant.  Each handles its requests one after another,
in the order of the serve loop: a request is taken, admitted, checked, executed and
settled, or refused.  Every event is one section under the state lock or one local step
of a connection, so a run is any interleaving of the connections' calls.  Requests that
count as in flight are numbered, to follow each of them until it stops counting.
-/

namespace Syq.Restricted

open Syq.Lib Syq.Results

/-! ## A connection -/

/-- How a held settlement ends. -/
inductive Closing where
  | executed (response : Response)
  | unexecuted (reason : String)

/-- A settlement that is due, and the number of its request if it counts as in
flight. -/
structure Due where
  id : Option Nat
  settlement : Settlement
  closing : Closing

/-- Where a connection is in handling its requests. -/
inductive Phase where
  /-- Waiting for a request. -/
  | idle
  /-- A request is taken from the connection. -/
  | taken (request : Request)
  /-- The request is counted and being checked. -/
  | checking (id : Option Nat) (request : Request)
  /-- The request is refused.  The changes it asked for are classified before the state
  lock is taken. -/
  | refusing (id : Option Nat) (request : Request) (refusal : Refusal) (step : StreamStep)
      (changes : Option (List (Option Path × Change)))
  /-- The request is authorized and being executed. -/
  | running (id : Option Nat) (settlement : Settlement) (step : StreamStep)
  /-- Settlements are due before the connection goes on. -/
  | settling (todo : List Due) (after : Phase)
  | closed

structure Connection where
  gate : PatchStreamGate
  /-- The request whose streamed patch the gate holds open. -/
  openedId : Option Nat
  /-- The request whose prepared small copy the gate holds, or gave to the payloads. -/
  copyId : Option Nat
  phase : Phase

namespace Connection

def new : Connection :=
  ⟨.new, none, none, .idle⟩

/-- Take a request.  A prepared small copy ends with the connection's next request but
its payloads and a telemetry sample. -/
def take (connection : Connection) (request : Request) : Connection :=
  match request, connection.gate.smallCopy with
  | .copySmallFiles _, _ | .transportStats, _ | _, none =>
    { connection with phase := .taken request }
  | _, some prepared => { connection with
      gate := { connection.gate with smallCopy := none }
      phase := .settling
        [⟨connection.copyId, prepared.settlement,
          .unexecuted "the small copy ended without its payloads"⟩] (.taken request) }

/-- Settle the open streamed patch as failed. -/
def abandon (connection : Connection) (error : String) (after : Phase) : Connection :=
  { connection with
    gate := { connection.gate with opened := none }
    phase := .settling (connection.gate.opened.map fun stream =>
      (⟨connection.openedId, stream.settlement,
        .executed (PatchStreamGate.abandonResponse error)⟩ : Due)).toList after }

/-- What follows a refusal: a refused end abandons its patch. -/
def afterRefusal (connection : Connection) (request : Request) (refusal : Refusal) :
    Connection :=
  if request = .patchEnd then connection.abandon refusal.message .idle
  else { connection with phase := .idle }

/-- The checks, the connection's stream and the charge decide about a request.  What the
checks and the charge find is `inner`, `fileBytes` and `overLimit`. -/
def check (connection : Connection) (id : Option Nat) (request : Request)
    (inner : Option Refusal) (fileBytes : Path → Option Refusal) (overLimit : Option String)
    (creations : List PendingCreation) (outcomes : List PendingOutcome) (charged : Charged) :
    Connection :=
  match inner with
  | some refusal => { connection with phase := .refusing id request refusal .none none }
  | none =>
  let (streamed, gate, step) := connection.gate.authorizeStream fileBytes request
  match streamed, overLimit with
  | .error refusal, _ => { connection with gate, phase := .refusing id request refusal step none }
  | .ok (), some message =>
    { connection with gate, phase := .refusing id request (.bail message) step none }
  | .ok (), none => { connection with
      gate, phase := .running id ⟨creations, outcomes, charged, request.tracked⟩ step }

/-- The executor's response settles the request now or is held with it. -/
def respond (connection : Connection) (id : Option Nat) (settlement : Settlement)
    (step : StreamStep) (response : Response) (opened : Bool) : Connection :=
  let (gate, todo) := connection.gate.settle settlement step response opened
  let other := match step with
    | .finish => connection.openedId
    | _ => connection.copyId
  let due (settlement : Settlement) (id : Option Nat) : Due := ⟨id, settlement, .executed response⟩
  match step with
  | .begin _ _ => { connection with
      gate, openedId := id, phase := .settling (List.zipWith due todo [id]) .idle }
  | .prepareSmallCopy _ => { connection with
      gate, copyId := id, phase := .settling (List.zipWith due todo [id]) .idle }
  | _ => { connection with gate, phase := .settling (List.zipWith due todo [id, other]) .idle }

/-- The gate is dropped with its connection. -/
def drop (connection : Connection) : Connection :=
  let copy := connection.gate.smallCopy.map fun prepared =>
    (⟨connection.copyId, prepared.settlement,
      .unexecuted "the connection closed before the small copy's payloads"⟩ : Due)
  { connection with gate := { connection.gate with smallCopy := none } }.abandon
    "the connection closed before its streamed patch ended" (.settling copy.toList .closed)

end Connection

/-! ## The shared state -/

/-- The events of one connection. -/
inductive ConnectionEvent where
  | take (request : Request)
  | enter (controlOpen : Bool)
  | check (inner : Option Refusal) (fileBytes : Path → Option Refusal) (overLimit : Option String)
      (creations : List PendingCreation) (outcomes : List PendingOutcome) (charged : Charged)
  | endRefusedCopy
  | classify
  | refuse
  | respond (response : Response) (opened : Bool)
  /-- An untracked request is answered without settling. -/
  | answer
  | settleNext
  | proceed
  | drop

/-- What one event of a connection leaves: the shared state and the connection, the
request that started counting and the one that stopped. -/
structure Moved where
  state : AuthorityState
  connection : Connection
  began : Option Nat
  ended : Option Nat

namespace Due

def settle (signed : Signed) (state : AuthorityState) (due : Due) : Option AuthorityState :=
  match due.closing with
  | .executed response => state.settle signed due.settlement response
  | .unexecuted reason => state.settleUnexecuted signed due.settlement reason

theorem counted_settle {signed : Signed} {state next : AuthorityState} {due : Due}
    (settled : due.settle signed state = some next) :
    AuthorityState.Counted due.settlement state next := by
  rcases due with ⟨id, settlement, resp | reason⟩
  · exact AuthorityState.counted_settle settled
  · rcases Option.bind_eq_some_iff.mp settled with ⟨budget, -, locked⟩
    exact { AuthorityState.counted_settleLocked locked with }

end Due

/-- With a streamed patch open, a connection takes nothing else until the patch ends.  A
fence is answered without being authorized. -/
def PatchStreamGate.takes (gate : PatchStreamGate) : Request → Bool
  | .patchData _ | .patchEnd | .shutdown => true
  | .writeStreamFence => false
  | _ => gate.opened.isNone

/-- One event of a connection; `counted` numbers the next tracked request.  An event
that the connection is not ready for, and a failed `expect`, give nothing. -/
def Connection.step (signed : Signed) (state : AuthorityState) (counted : Nat)
    (connection : Connection) (event : ConnectionEvent) : Option Moved :=
  let stay (connection : Connection) : Option Moved := some ⟨state, connection, none, none⟩
  match event, connection.phase with
  | .take request, .idle =>
    if connection.gate.takes request then stay (connection.take request) else none
  | .enter controlOpen, .taken request =>
    match state.admission controlOpen request with
    | .error refusal => stay (connection.afterRefusal request refusal)
    | .ok admitted =>
      let id := if request.tracked then some counted else none
      some ⟨admitted, { connection with phase := .checking id request }, id, none⟩
  | .check inner fileBytes overLimit creations outcomes charged, .checking id request =>
    stay (connection.check id request inner fileBytes overLimit creations outcomes charged)
  | .endRefusedCopy, .refusing id request refusal (.copySmallCopy prepared) none =>
    stay { connection with
      phase := .settling [⟨connection.copyId, prepared, .unexecuted refusal.message⟩]
        (.refusing id request refusal .none none) }
  | .classify, .refusing id request refusal step none =>
    match step with
    | .copySmallCopy _ => none
    | step => stay { connection with
        phase := .refusing id request refusal step
          (some (state.refusedChanges signed request refusal)) }
  | .refuse, .refusing id request refusal _ (some changes) => do
      let state ← state.recordRefusal request refusal changes
      return ⟨state, connection.afterRefusal request refusal, none, id⟩
  | .respond response opened, .running id settlement step =>
    stay (connection.respond id settlement step response opened)
  | .answer, .running none _ .none => stay { connection with phase := .idle }
  | .settleNext, .settling (due :: rest) after => do
      let state ← due.settle signed state
      return ⟨state, { connection with phase := .settling rest after }, none, due.id⟩
  | .proceed, .settling [] after => stay { connection with phase := after }
  | .drop, .idle => stay connection.drop
  | _, _ => none

/-- A grant with its connections. -/
structure Session where
  state : AuthorityState
  /-- The end frame is sealed. -/
  sealed : Bool
  connections : List Connection
  /-- How many tracked requests were counted in flight so far. -/
  counted : Nat
  /-- Those that stopped counting, in order. -/
  finished : List Nat

inductive SessionEvent where
  | connect
  | on (connection : Nat) (event : ConnectionEvent)
  /-- What the checks and charges of requests change besides. -/
  | touch (created provisional : Finset Path) (budget : Budget) (tcpListenerStarted : Bool)
  | startResults
  /-- `finish_results` closes the grant and waits. -/
  | finishResults
  /-- Nothing is in flight any more: `finish_results` goes on to the end frame, with the
  unfinished files in the order of their table. -/
  | sealEnd (unfinished : List (FileKey × FileLifecycle))

namespace AuthorityState

/-- `start_results`: nothing may have changed yet. -/
def startResults (state : AuthorityState) : Except String AuthorityState :=
  if state.recordedAny || state.resultsClosing then
    .error "destination results must start before any change"
  else if state.results.isSome then .error "destination results have already started"
  else .ok { state with results := some [] }

/-- The first part of `finish_results`, up to its wait. -/
def beginFinish (state : AuthorityState) : Except String AuthorityState :=
  if state.results.isNone then .error "destination results were not started"
  else if state.resultsClosing then .error "destination results have already ended"
  else .ok { state with resultsClosing := true }

/-- The files left unfinished are listed as failed before the end frame. -/
def endResults (signed : Signed) (state : AuthorityState)
    (unfinished : List (FileKey × FileLifecycle)) : AuthorityState :=
  (unfinished.filter fun file => !file.2.listed).foldl (fun state file =>
    state.tell (.record (.publishFile file.2.size) (signed.resultPath file.1.1 false)
      (some ⟨file.2.lastError.getD "the file was not finished", file.2.lastClass⟩)))
    { state with fileLifecycles := ∅ }

/-- Results that start find nothing recorded, and change nothing else. -/
theorem startResults_ok {state next : AuthorityState} (started : state.startResults = .ok next) :
    next = { state with results := some [] } := by
  unfold startResults at started
  split at started
  · cases started
  · split at started
    · cases started
    · exact (Except.ok.inj started).symm

theorem beginFinish_ok {state next : AuthorityState} (closing : state.beginFinish = .ok next) :
    next = { state with resultsClosing := true } := by
  unfold beginFinish at closing
  split at closing
  · cases closing
  · split at closing
    · cases closing
    · exact (Except.ok.inj closing).symm

theorem endResults_counts (signed : Signed) (state : AuthorityState)
    (unfinished : List (FileKey × FileLifecycle)) :
    SameCounts state (state.endResults signed unfinished) := by
  unfold endResults
  have emptied : SameCounts state { state with fileLifecycles := ∅ } := ⟨rfl, rfl, rfl, rfl⟩
  exact List.foldlRecOn _ _ emptied fun told before _ _ => before.trans (.tell told _)

end AuthorityState

namespace Session

def init : Session where
  state := .init
  sealed := false
  connections := []
  counted := 0
  finished := []

def step (signed : Signed) (session : Session) : SessionEvent → Option Session
  | .connect => some { session with connections := session.connections ++ [.new] }
  | .on index event => do
      let connection ← session.connections[index]?
      let moved ← connection.step signed session.state session.counted event
      return { session with
        state := moved.state
        connections := session.connections.set index moved.connection
        counted := session.counted + moved.began.toList.length
        finished := session.finished ++ moved.ended.toList }
  | .touch created provisional budget tcpListenerStarted =>
    some { session with
      state := { session.state with created, provisional, budget, tcpListenerStarted } }
  | .startResults =>
    match session.state.startResults with
    | .ok state => some { session with state }
    | .error _ => some session
  | .finishResults =>
    match session.state.beginFinish with
    | .ok state => some { session with state }
    | .error _ => some session
  | .sealEnd unfinished =>
    if session.state.resultsClosing && !session.sealed && session.state.inFlight == 0 &&
        decide (session.state.fileLifecycles.entries =
          ↑(unfinished.map fun file => (⟨file.1, file.2⟩ : Σ _ : FileKey, FileLifecycle))) then
      some { session with state := session.state.endResults signed unfinished, sealed := true }
    else none

end Session

end Syq.Restricted
