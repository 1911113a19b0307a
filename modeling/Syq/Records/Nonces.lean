import Syq.Lib.Collections
import Syq.Lib.Transition
import Syq.Records.Writing

/-!
# No nonce protects two messages

A listener and one client process share a key.  Anyone may open connections under any id, replay
what they recorded, and cut connections.  The server seals its preamble before it knows its peer;
it claims the connection's id once a hello shows the token, and seals anything else only then.
The client takes its ids from a counter.
-/

namespace Syq.Records

open Syq.Lib Endpoint List Option Function

/-! ## The listener and its connections -/

/-- The bytes of `SYQWIRE` and a zero. -/
def wirePreambleMagic : Bytes := [83, 89, 81, 87, 73, 82, 69, 0]

def maxBuildIdentityBytes : Nat := 512

/-- The token that a hello must show, and the identity of the server's build. -/
structure Listener where
  token : Bytes
  identity : Bytes

def Listener.preamble (listener : Listener) : Bytes :=
  wirePreambleMagic ++ toBigEndian 2 listener.identity.length ++ listener.identity

/-- Write the preamble and flush it. -/
def RecordWriter.writePreamble (aead : Aead) (writer : RecordWriter) (listener : Listener)
    (sink : Sink) : Written Unit :=
  if maxBuildIdentityBytes < listener.identity.length then
    ⟨.returned (.error (.invalidData
      "wire preamble protocol error: local build identity exceeds the supported limit")),
      [], [], writer, sink⟩
  else
    let buffered := writer.write aead listener.preamble sink
    let flushed := buffered.writer.flush aead buffered.sink
    { flushed with
      wire := buffered.wire ++ flushed.wire
      sealedRecords := buffered.sealedRecords ++ flushed.sealedRecords }

/-- How far a connection has come.  It ends either before or after it claimed its id. -/
inductive Stage where
  | identified
  | checked
  | greeted
  | claimed
  | refused
  | ended
  deriving DecidableEq

/-- The connection has claimed its id. -/
def Stage.holdsClaim : Stage → Bool
  | .claimed | .ended => true
  | .identified | .checked | .greeted | .refused => false

def Stage.cut (stage : Stage) : Stage :=
  if stage.holdsClaim then .ended else .refused

/-- A connection at the server. -/
structure Connection where
  connId : Nat
  inNonceSpace : connId ≤ connectionIdMax
  stage : Stage
  writer : RecordWriter

/-- A connection at the client. -/
structure Client where
  connId : Nat
  inNonceSpace : connId ≤ connectionIdMax
  writer : RecordWriter

/-- The server's direction of a connection. -/
def Connection.endpoint (connection : Connection) : Endpoint :=
  ⟨connection.connId, 2, connection.inNonceSpace⟩

/-- The client's direction of a connection. -/
def Client.endpoint (client : Client) : Endpoint :=
  ⟨client.connId, 1, client.inNonceSpace⟩

def nextTcpConnectionId (next : Nat) : Except String ({id : Nat // id ≤ connectionIdMax} × Nat) :=
  if fits : next ≤ connectionIdMax then .ok (⟨next, fits⟩, next + 1)
  else .error "TCP connection IDs exhausted; restart the copy"

namespace Listener

structure State (κ ν : Type) where
  seen : Finset Nat
  connections : κ → Option Connection
  nextId : Nat
  clients : ν → Option Client
  log : List Sealed

/-- What happens, in any order.  The id that a connection names and the token of its hello come
from whoever is at its other end, who may have recorded them. -/
inductive Event (κ ν : Type) where
  | accept (name : κ) (id : Nat)
  | ensureUnclaimed (name : κ)
  | writePreamble (name : κ) (sink : Sink)
  | hello (name : κ) (token : Bytes)
  | write (name : κ) (data : Bytes) (sink : Sink)
  | flush (name : κ) (sink : Sink)
  | cut (name : κ)
  | connect (name : ν)
  | clientWrite (name : ν) (data : Bytes) (sink : Sink)
  | clientFlush (name : ν) (sink : Sink)

section Steps

variable {κ ν : Type} [DecidableEq κ] [DecidableEq ν]

namespace State

/-- A connection of the server has changed. -/
def put (state : State κ ν) (name : κ) (connection : Connection) (records : List Sealed) :
    State κ ν :=
  { state with
    connections := update state.connections name (some connection)
    log := state.log ++ records }

/-- A connection of the client has changed. -/
def putClient (state : State κ ν) (name : ν) (client : Client) (records : List Sealed) :
    State κ ν :=
  { state with
    clients := update state.clients name (some client)
    log := state.log ++ records }

end State

def step (listener : Listener) (aead : Aead) (state : State κ ν) : Event κ ν → Option (State κ ν)
  | .accept name id =>
    match state.connections name with
    | some _ => none
    | none =>
      if fits : id ≤ connectionIdMax then
        some (state.put name ⟨id, fits, .identified, RecordWriter.new (Cipher.new id 2 fits)⟩ [])
      else some state
  | .ensureUnclaimed name =>
    (state.connections name).bind fun connection =>
      if connection.stage ≠ .identified then none
      else if connection.connId ∈ state.seen then
        some (state.put name { connection with stage := .refused } [])
      else some (state.put name { connection with stage := .checked } [])
  | .writePreamble name sink =>
    (state.connections name).bind fun connection =>
      if connection.stage ≠ .checked then none
      else
        let written := connection.writer.writePreamble aead listener sink
        match written.outcome with
        | .returned (.ok ()) =>
          some (state.put name { connection with stage := .greeted, writer := written.writer }
            written.sealedRecords)
        | _ =>
          some (state.put name { connection with stage := .refused, writer := written.writer }
            written.sealedRecords)
  | .hello name token =>
    (state.connections name).bind fun connection =>
      if connection.stage ≠ .greeted then none
      else if token ≠ listener.token ∨ connection.connId ∈ state.seen then
        some (state.put name { connection with stage := .refused } [])
      else
        some { state.put name { connection with stage := .claimed } [] with
          seen := insert connection.connId state.seen }
  | .write name data sink =>
    (state.connections name).bind fun connection =>
      if connection.stage ≠ .claimed then none
      else
        let written := connection.writer.write aead data sink
        some (state.put name { connection with writer := written.writer } written.sealedRecords)
  | .flush name sink =>
    (state.connections name).bind fun connection =>
      if connection.stage ≠ .claimed then none
      else
        let written := connection.writer.flush aead sink
        some (state.put name { connection with writer := written.writer } written.sealedRecords)
  | .cut name =>
    (state.connections name).bind fun connection =>
      some (state.put name { connection with stage := connection.stage.cut } [])
  | .connect name =>
    match state.clients name with
    | some _ => none
    | none =>
      match nextTcpConnectionId state.nextId with
      | .error _ => some state
      | .ok (id, next) =>
        some { state.putClient name
          ⟨id, id.2, RecordWriter.new (Cipher.new id 1 id.2)⟩ [] with nextId := next }
  | .clientWrite name data sink =>
    (state.clients name).bind fun client =>
      let written := client.writer.write aead data sink
      some (state.putClient name { client with writer := written.writer } written.sealedRecords)
  | .clientFlush name sink =>
    (state.clients name).bind fun client =>
      let written := client.writer.flush aead sink
      some (state.putClient name { client with writer := written.writer } written.sealedRecords)

def system (listener : Listener) (aead : Aead) : System (State κ ν) (Event κ ν) where
  enabled _ _ := True
  decidableEnabled _ _ := instDecidableTrue
  step := step listener aead

/-- No connection yet; the client's first id is one. -/
def start : State κ ν where
  seen := ∅
  connections _ := none
  nextId := 1
  clients _ := none
  log := []

end Steps

end Listener

/-- The preamble is one record, the first of its direction; or it is refused and nothing is
sealed. -/
theorem writePreamble_spec (aead : Aead) {writer : RecordWriter} {cipher : Cipher}
    (uses : writer.cipher = cipher) (unused : writer.buf = []) (listener : Listener)
    (sink : Sink) :
    ((writer.writePreamble aead listener sink).outcome ≠ .returned (.ok ()) ∧
      (writer.writePreamble aead listener sink).sealedRecords = [] ∧
      (writer.writePreamble aead listener sink).writer = writer) ∨
    ∃ record, (writer.writePreamble aead listener sink).sealedRecords = [record] ∧
      record.nonce = cipher.nonce ∧ record.plain = listener.preamble ∧
      (writer.writePreamble aead listener sink).writer.cipher = cipher.next := by
  unfold RecordWriter.writePreamble
  split_ifs with long
  · exact .inl ⟨by simp, rfl, rfl⟩
  · right
    have length : listener.preamble.length = 10 + listener.identity.length := by
      simp [Listener.preamble, wirePreambleMagic]
      omega
    have fits : listener.preamble.length < recordMax := by
      unfold maxBuildIdentityBytes at long
      unfold recordMax
      omega
    have whole : writer.taken listener.preamble = listener.preamble := by
      rw [RecordWriter.taken, unused, length_nil]
      exact take_of_length_le (by omega)
    have buffered : (writer.buf ++ writer.taken listener.preamble).length < recordMax := by
      rwa [unused, whole, nil_append]
    rw [write_of_room aead sink buffered]
    dsimp only
    have emitted := @flush_emits ⟨writer.cipher, _, buffered⟩ aead cipher uses sink
    have empty := flush_buf aead ⟨writer.cipher, _, buffered⟩ sink
    generalize RecordWriter.flush aead ⟨writer.cipher, _, buffered⟩ sink = flushed at emitted empty
    dsimp only at emitted
    rw [append_nil, unused, whole, nil_append] at emitted
    rcases flushed with ⟨outcome, wire, records, after, left⟩
    cases emitted with
    | kept _ buf_eq =>
      rw [empty] at buf_eq
      rw [← buf_eq, length_nil] at length
      omega
    | sealed nonce_eq plain_eq cipher_eq _ => exact ⟨_, rfl, nonce_eq, plain_eq, cipher_eq⟩

/-! ## The ledger of a key -/

/-- Some directions are spoken for, each at one counter; the other records are the server's
preambles, which are all the same. -/
structure Ledger (preamble : Bytes) (speaks : Endpoint → Nat → Prop) (log : List Sealed) :
    Prop where
  functional : ∀ {endpoint first second}, speaks endpoint first → speaks endpoint second →
    first = second
  positive : ∀ {endpoint counter}, speaks endpoint counter → endpoint.direction = 2 → 1 ≤ counter
  accounted : ∀ record ∈ log,
    (∃ endpoint : Endpoint, endpoint.direction = 2 ∧
      record.nonce = (endpoint.cipher 0).nonce ∧ record.plain = preamble) ∨
    ∃ endpoint counter index, speaks endpoint counter ∧ index < counter ∧
      (endpoint.direction = 2 → 1 ≤ index) ∧ record.nonce = (endpoint.cipher index).nonce
  unique : ∀ first ∈ log, ∀ second ∈ log, first.nonce = second.nonce →
    first.plain = second.plain

/-- Every direction that was spoken for still is, and no counter went back. -/
def Grows (before after : Endpoint → Nat → Prop) : Prop :=
  ∀ endpoint counter, before endpoint counter → ∃ next ≥ counter, after endpoint next

/-- Nobody speaks at two counters, and the server only after its preamble. -/
structure Orderly (speaks : Endpoint → Nat → Prop) : Prop where
  functional : ∀ {endpoint first second}, speaks endpoint first → speaks endpoint second →
    first = second
  positive : ∀ {endpoint counter}, speaks endpoint counter → endpoint.direction = 2 → 1 ≤ counter

theorem Endpoint.nonce_inj {first second : Endpoint} {firstCounter secondCounter : Nat}
    (same : (first.cipher firstCounter).nonce = (second.cipher secondCounter).nonce) :
    first = second ∧ firstCounter = secondCounter := by
  rcases second with ⟨secondId, secondDirection, secondFits⟩
  rw [nonce_cipher, nonce_cipher] at same
  injection same with direction_eq connId_eq counter_eq
  subst direction_eq connId_eq
  exact ⟨rfl, counter_eq⟩

namespace Ledger

variable {preamble : Bytes} {speaks after : Endpoint → Nat → Prop} {log : List Sealed}
variable {record : Sealed}

section

variable (ledger : Ledger preamble speaks log)

include ledger

theorem accounted_of_grows (grows : Grows speaks after) (logged : record ∈ log) :
    (∃ endpoint : Endpoint, endpoint.direction = 2 ∧
      record.nonce = (endpoint.cipher 0).nonce ∧ record.plain = preamble) ∨
    ∃ endpoint counter index, after endpoint counter ∧ index < counter ∧
      (endpoint.direction = 2 → 1 ≤ index) ∧ record.nonce = (endpoint.cipher index).nonce := by
  rcases ledger.accounted record logged with greeting |
    ⟨endpoint, counter, index, spoken, below, served, nonce_eq⟩
  · exact .inl greeting
  · rcases grows endpoint counter spoken with ⟨next, atLeast, spokenAfter⟩
    exact .inr ⟨endpoint, next, index, spokenAfter, below.trans_le atLeast, served, nonce_eq⟩

theorem grow (grows : Grows speaks after) (orderly : Orderly after) : Ledger preamble after log :=
  ⟨orderly.functional, orderly.positive, fun _ logged => ledger.accounted_of_grows grows logged,
    ledger.unique⟩

/-- One more record whose nonce was used for the same plaintext at most. -/
theorem unique_concat (agrees : ∀ old ∈ log, old.nonce = record.nonce → old.plain = record.plain) :
    ∀ first ∈ log ++ [record], ∀ second ∈ log ++ [record], first.nonce = second.nonce →
      first.plain = second.plain := by
  intro first firstMem second secondMem same
  rcases mem_append.mp firstMem with firstOld | firstNew
  · rcases mem_append.mp secondMem with secondOld | secondNew
    · exact ledger.unique first firstOld second secondOld same
    · obtain rfl := mem_singleton.mp secondNew
      exact agrees first firstOld same
  · obtain rfl := mem_singleton.mp firstNew
    rcases mem_append.mp secondMem with secondOld | secondNew
    · exact (agrees second secondOld same.symm).symm
    · rw [mem_singleton.mp secondNew]

variable {endpoint : Endpoint}

/-- Whoever speaks for a direction seals the next record of it. -/
theorem speak {counter : Nat} (spoken : speaks endpoint counter)
    (nonce_eq : record.nonce = (endpoint.cipher counter).nonce) (grows : Grows speaks after)
    (advanced : ∃ next > counter, after endpoint next) (orderly : Orderly after) :
    Ledger preamble after (log ++ [record]) := by
  refine ⟨orderly.functional, orderly.positive, ?_, ledger.unique_concat ?_⟩
  · rcases advanced with ⟨next, above, spokenAfter⟩
    exact forall_mem_append.mpr ⟨fun _ => ledger.accounted_of_grows grows,
      forall_mem_singleton.mpr (.inr
        ⟨endpoint, next, counter, spokenAfter, above, ledger.positive spoken, nonce_eq⟩)⟩
  · -- No earlier record has this nonce: it would lie below the counter.
    intro old logged same
    rw [nonce_eq] at same
    rcases ledger.accounted old logged with ⟨other, server, otherNonce, -⟩ |
      ⟨other, otherCounter, index, otherSpoken, below, -, otherNonce⟩
    · rcases nonce_inj (otherNonce.symm.trans same) with ⟨rfl, counter_eq⟩
      have positive := ledger.positive spoken server
      omega
    · rcases nonce_inj (otherNonce.symm.trans same) with ⟨rfl, counter_eq⟩
      have counters := ledger.functional otherSpoken spoken
      omega

/-- Whoever speaks for a direction writes, and the ledger follows to the writer's counter. -/
theorem emit {counter : Nat} {buf : Bytes} {records : List Sealed}
    {writer : RecordWriter} (spoken : speaks endpoint counter)
    (emitted : Emits (endpoint.cipher counter) buf records writer) :
    ∃ next ≥ counter, writer.cipher = endpoint.cipher next ∧
      ∀ {after : Endpoint → Nat → Prop}, after endpoint next → Grows speaks after →
        Orderly after → Ledger preamble after (log ++ records) := by
  cases emitted with
  | kept nextEq _ =>
    refine ⟨counter, Nat.le_refl _, nextEq, ?_⟩
    intro after _ grows orderly
    rw [append_nil]
    exact ledger.grow grows orderly
  | sealed nonce_eq _ nextEq _ =>
    refine ⟨counter + 1, Nat.le_succ _, nextEq, ?_⟩
    intro after advanced grows orderly
    exact ledger.speak spoken nonce_eq grows ⟨counter + 1, Nat.lt_succ_self _, advanced⟩ orderly

/-- A preamble may be sealed again and again. -/
theorem greet (server : endpoint.direction = 2)
    (nonce_eq : record.nonce = (endpoint.cipher 0).nonce) (plain_eq : record.plain = preamble) :
    Ledger preamble speaks (log ++ [record]) := by
  refine ⟨ledger.functional, ledger.positive, ?_, ledger.unique_concat ?_⟩
  · exact forall_mem_append.mpr ⟨ledger.accounted,
      forall_mem_singleton.mpr (.inl ⟨endpoint, server, nonce_eq, plain_eq⟩)⟩
  · intro old logged same
    rw [nonce_eq] at same
    rcases ledger.accounted old logged with ⟨other, -, -, otherPlain⟩ |
      ⟨other, otherCounter, index, -, -, served, otherNonce⟩
    · rw [otherPlain, plain_eq]
    · rcases nonce_inj (otherNonce.symm.trans same) with ⟨rfl, counter_eq⟩
      have positive := served server
      omega

end

end Ledger

/-! ## Who speaks -/

namespace Listener

variable {κ ν : Type}

/-- A connection that claimed its id speaks for the server's direction, and the client for its
own. -/
inductive Speaks (connections : κ → Option Connection) (clients : ν → Option Client) :
    Endpoint → Nat → Prop where
  | server {name : κ} {connection : Connection} {counter : Nat}
      (found : connections name = some connection)
      (claim : connection.stage.holdsClaim = true)
      (cipher_eq : connection.writer.cipher = connection.endpoint.cipher counter) :
      Speaks connections clients connection.endpoint counter
  | client {name : ν} {client : Client} {counter : Nat} (found : clients name = some client)
      (cipher_eq : client.writer.cipher = client.endpoint.cipher counter) :
      Speaks connections clients client.endpoint counter

/-- The counters that a stage allows: nothing is sealed before the preamble. -/
def Counts : Stage → Nat → Prop
  | .identified, counter | .checked, counter => counter = 0
  | .greeted, counter | .claimed, counter | .ended, counter => 1 ≤ counter
  | .refused, _ => True

variable {stage : Stage}

theorem Counts.positive {counter : Nat} (counts : Counts stage counter)
    (claim : stage.holdsClaim = true) : 1 ≤ counter := by
  cases stage <;> first | exact counts | cases claim

structure Fits (connection : Connection) (seen : Finset Nat) : Prop where
  cipher_eq : ∃ counter, connection.writer.cipher = connection.endpoint.cipher counter ∧
    Counts connection.stage counter
  unused : connection.stage = .identified ∨ connection.stage = .checked →
    connection.writer.buf = []
  claims : connection.stage.holdsClaim = true → connection.connId ∈ seen

structure Invariant (listener : Listener) (state : State κ ν) : Prop where
  fits : ∀ name connection, state.connections name = some connection → Fits connection state.seen
  claimants : ∀ first second one other, state.connections first = some one →
    state.connections second = some other → one.stage.holdsClaim = true →
    other.stage.holdsClaim = true → one.connId = other.connId → first = second
  clients : ∀ name client, state.clients name = some client → client.connId < state.nextId ∧
    ∃ counter, client.writer.cipher = client.endpoint.cipher counter
  clientIds : ∀ first second one other, state.clients first = some one →
    state.clients second = some other → one.connId = other.connId → first = second
  ledger : Ledger listener.preamble (Speaks state.connections state.clients) state.log

theorem cipher_counter {endpoint : Endpoint} {cipher : Option Cipher} {first second : Nat}
    (firstEq : cipher = endpoint.cipher first) (secondEq : cipher = endpoint.cipher second) :
    first = second := by
  have same : endpoint.cipher first = endpoint.cipher second :=
    some.inj (firstEq.symm.trans secondEq)
  exact congrArg Cipher.counter same

namespace Speaks

variable {conns : κ → Option Connection} {clients : ν → Option Client}
variable {endpoint : Endpoint} {first second counter : Nat}

/-- Claims and the client's ids are unique, so nobody speaks at two counters. -/
theorem functional
    (claimants : ∀ first second one other, conns first = some one →
      conns second = some other → one.stage.holdsClaim = true →
      other.stage.holdsClaim = true → one.connId = other.connId → first = second)
    (clientIds : ∀ first second one other, clients first = some one →
      clients second = some other → one.connId = other.connId → first = second)
    (one : Speaks conns clients endpoint first)
    (other : Speaks conns clients endpoint second) : first = second := by
  cases one with
  | @server name conn _ found claim cipher_eq =>
    generalize endpoint_eq : conn.endpoint = endpoint at other
    cases other with
    | @server otherName otherConn _ otherFound otherClaim otherCipher =>
      have sameId := congrArg connId endpoint_eq
      obtain rfl := claimants name otherName _ _ found otherFound claim otherClaim sameId
      obtain rfl := some.inj (found.symm.trans otherFound)
      exact cipher_counter cipher_eq otherCipher
    | client =>
      have direction_eq := congrArg direction endpoint_eq
      exact absurd direction_eq (by decide : (2 : UInt8) ≠ 1)
  | @client name client _ found cipher_eq =>
    generalize endpoint_eq : client.endpoint = endpoint at other
    cases other with
    | server =>
      have direction_eq := congrArg direction endpoint_eq
      exact absurd direction_eq (by decide : (1 : UInt8) ≠ 2)
    | @client otherName otherClient _ otherFound otherCipher =>
      have sameId := congrArg connId endpoint_eq
      obtain rfl := clientIds name otherName _ _ found otherFound sameId
      obtain rfl := some.inj (found.symm.trans otherFound)
      exact cipher_counter cipher_eq otherCipher

theorem positive {seen : Finset Nat}
    (fits : ∀ name conn, conns name = some conn → Fits conn seen)
    (spoken : Speaks conns clients endpoint counter) (server : endpoint.direction = 2) :
    1 ≤ counter := by
  cases spoken with
  | @server name conn _ found claim cipher_eq =>
    rcases (fits name conn found).cipher_eq with ⟨other, otherEq, counts⟩
    obtain rfl := cipher_counter cipher_eq otherEq
    exact counts.positive claim
  | client => cases server

/-- Changing one connection keeps the others. -/
theorem grows_update [DecidableEq κ] {name : κ} {after : Connection}
    (keeps : ∀ before counter, conns name = some before →
      before.stage.holdsClaim = true → before.writer.cipher = before.endpoint.cipher counter →
      ∃ next ≥ counter, Speaks (update conns name (some after)) clients
        before.endpoint next) :
    Grows (Speaks conns clients)
      (Speaks (update conns name (some after)) clients) := by
  intro endpoint counter spoken
  cases spoken with
  | @server other connection _ found claim cipher_eq =>
    by_cases same : other = name
    · subst same
      exact keeps connection counter found claim cipher_eq
    · have kept : update conns name (some after) other = some connection := by
        rwa [update_of_ne same]
      exact ⟨counter, Nat.le_refl _, .server kept claim cipher_eq⟩
  | client found cipher_eq => exact ⟨counter, Nat.le_refl _, .client found cipher_eq⟩

theorem grows_updateClient [DecidableEq ν] {name : ν} {after : Client}
    (keeps : ∀ before counter, clients name = some before →
      before.writer.cipher = before.endpoint.cipher counter →
      ∃ next ≥ counter, Speaks conns (update clients name (some after))
        before.endpoint next) :
    Grows (Speaks conns clients)
      (Speaks conns (update clients name (some after))) := by
  intro endpoint counter spoken
  cases spoken with
  | server found claim cipher_eq =>
    exact ⟨counter, Nat.le_refl _, .server found claim cipher_eq⟩
  | @client other client _ found cipher_eq =>
    by_cases same : other = name
    · subst same
      exact keeps client counter found cipher_eq
    · have kept : update clients name (some after) other = some client := by
        rwa [update_of_ne same]
      exact ⟨counter, Nat.le_refl _, .client kept cipher_eq⟩

end Speaks

namespace Invariant

variable {listener : Listener} {state : State κ ν}
variable {name : κ} {records : List Sealed} {before : Connection} {writer : RecordWriter}

theorem initial : Invariant listener (start : State κ ν) where
  fits := by simp [Listener.start]
  claimants := by simp [Listener.start]
  clients := by simp [Listener.start]
  clientIds := by simp [Listener.start]
  ledger := by
    have silent : ∀ {endpoint counter},
        ¬Speaks (start : State κ ν).connections (start : State κ ν).clients endpoint counter := by
      intro endpoint counter spoken
      cases spoken with
      | server found => cases found
      | client found => cases found
    exact ⟨fun spoken => absurd spoken silent, fun spoken => absurd spoken silent,
      by simp [Listener.start], by simp [Listener.start]⟩

variable (inv : Invariant listener state)

include inv

/-- One connection of the server changes, and the ledger follows. -/
theorem put [DecidableEq κ] {after : Connection}
    {seen : Finset Nat} (fits : Fits after seen) (seenGrows : state.seen ⊆ seen)
    (claimant : after.stage.holdsClaim = true → ∀ other conn,
      state.connections other = some conn → conn.stage.holdsClaim = true →
      conn.connId = after.connId → other = name)
    (ledger : Orderly (Speaks (update state.connections name (some after)) state.clients) →
      Ledger listener.preamble
        (Speaks (update state.connections name (some after)) state.clients)
        (state.log ++ records)) :
    Invariant listener { state.put name after records with seen := seen } := by
  have fitsAfter : ∀ other conn,
      update state.connections name (some after) other = some conn →
        Fits conn seen := by
    intro other conn found
    rcases cases_of_update found with ⟨-, rfl⟩ | found
    · exact fits
    · rcases inv.fits other conn found with ⟨cipher_eq, unused, claims⟩
      exact ⟨cipher_eq, unused, fun claim => seenGrows (claims claim)⟩
  have claimantsAfter := unique_update inv.claimants claimant
  exact ⟨fitsAfter, claimantsAfter, inv.clients, inv.clientIds,
    ledger ⟨Speaks.functional claimantsAfter inv.clientIds, Speaks.positive fitsAfter⟩⟩

variable (found : state.connections name = some before)

include found

/-- A connection comes to another stage. -/
theorem restage [DecidableEq κ] {seen : Finset Nat}
    (seenGrows : state.seen ⊆ seen) (fits : Fits { before with stage := stage } seen)
    (keepsClaim : before.stage.holdsClaim = true → stage.holdsClaim = true)
    (claimant : stage.holdsClaim = true → ∀ other conn,
      state.connections other = some conn → conn.stage.holdsClaim = true →
      conn.connId = before.connId → other = name) :
    Invariant listener { state.put name { before with stage := stage } [] with seen := seen } := by
  refine inv.put fits seenGrows claimant ?_
  intro orderly
  rw [append_nil]
  refine inv.ledger.grow (Speaks.grows_update ?_) orderly
  intro other counter otherFound claim cipher_eq
  obtain rfl := some.inj (found.symm.trans otherFound)
  exact ⟨counter, Nat.le_refl _, @Speaks.server _ _ _ _ name { before with stage := stage } _
    (update_self ..) (keepsClaim claim) cipher_eq⟩

/-- A stage without a claim is always open to a connection. -/
theorem refuse [DecidableEq κ] (unclaimed : before.stage.holdsClaim = false) :
    Invariant listener (state.put name { before with stage := .refused } []) := by
  rcases (inv.fits name before found).cipher_eq with ⟨counter, cipher_eq, -⟩
  refine inv.restage found (Finset.Subset.refl _)
    ⟨⟨counter, cipher_eq, trivial⟩, by simp, by simp [Stage.holdsClaim]⟩ ?_ ?_
  · intro claim
    rw [unclaimed] at claim
    cases claim
  · intro claim
    cases claim

/-- A connection that claimed its id writes. -/
theorem speak [DecidableEq κ] {buf : Bytes} (claimed : before.stage = .claimed)
    (emits : ∀ {counter}, before.writer.cipher = before.endpoint.cipher counter →
      Emits (before.endpoint.cipher counter) buf records writer) :
    Invariant listener (state.put name { before with writer := writer } records) := by
  have claim : before.stage.holdsClaim = true := by rw [claimed]; rfl
  have fits := inv.fits name before found
  rcases fits.cipher_eq with ⟨counter, cipher_eq, -⟩
  have spoken : Speaks state.connections state.clients before.endpoint counter :=
    .server found claim cipher_eq
  rcases inv.ledger.emit spoken (emits cipher_eq) with ⟨next, atLeast, nextEq, follows⟩
  have advanced :
      Speaks (update state.connections name (some { before with writer := writer }))
        state.clients before.endpoint next :=
    @Speaks.server _ _ _ _ name { before with writer := writer } _ (update_self ..)
      claim nextEq
  have counts : Counts before.stage next := by
    rw [claimed]
    exact (Speaks.positive inv.fits spoken rfl).trans atLeast
  refine inv.put ⟨⟨next, nextEq, counts⟩, by simp [claimed], fits.claims⟩
    (Finset.Subset.refl _) ?_ (follows advanced (Speaks.grows_update ?_))
  · intro _ other conn otherFound otherClaim sameId
    exact inv.claimants other name conn before otherFound found otherClaim claim sameId
  · intro other otherCounter otherFound _ otherEq
    obtain rfl := some.inj (found.symm.trans otherFound)
    obtain rfl := cipher_counter cipher_eq otherEq
    exact ⟨next, atLeast, advanced⟩

/-- A connection seals its preamble, and is greeted or ends. -/
theorem greet [DecidableEq κ] {record : Sealed}
    (checked : before.stage = .checked) (outcome : stage = .greeted ∨ stage = .refused)
    (nonce_eq : record.nonce = (before.endpoint.cipher 0).nonce)
    (plain_eq : record.plain = listener.preamble)
    (cipher_eq : writer.cipher = (before.endpoint.cipher 0).next) :
    Invariant listener
      (state.put name { before with stage := stage, writer := writer } [record]) := by
  have unclaimed : stage.holdsClaim = false := by
    rcases outcome with rfl | rfl <;> rfl
  have counts : Counts stage 1 := by
    rcases outcome with rfl | rfl
    · exact Nat.le_refl _
    · trivial
  have fits : Fits { before with stage := stage, writer := writer } state.seen := by
    refine ⟨⟨1, cipher_eq, counts⟩, ?_, ?_⟩
    · rcases outcome with rfl | rfl <;> simp
    · simp [unclaimed]
  refine inv.put fits (Finset.Subset.refl _) (by simp [unclaimed]) ?_
  intro orderly
  refine Ledger.greet ?_ (rfl : before.endpoint.direction = 2) nonce_eq plain_eq
  refine inv.ledger.grow (Speaks.grows_update ?_) orderly
  intro other _ otherFound claim _
  obtain rfl := some.inj (found.symm.trans otherFound)
  rw [checked] at claim
  cases claim

omit found

/-- One connection of the client changes, and the ledger follows. -/
theorem putClient [DecidableEq ν] {name : ν} {after : Client}
    {nextId : Nat} (below : after.connId < nextId)
    (uses : ∃ counter, after.writer.cipher = after.endpoint.cipher counter)
    (nextGrows : state.nextId ≤ nextId)
    (owner : ∀ other client, state.clients other = some client →
      client.connId = after.connId → other = name)
    (ledger : Orderly (Speaks state.connections (update state.clients name (some after))) →
      Ledger listener.preamble
        (Speaks state.connections (update state.clients name (some after)))
        (state.log ++ records)) :
    Invariant listener { state.putClient name after records with nextId := nextId } := by
  have clientsAfter : ∀ other client,
      update state.clients name (some after) other = some client →
        client.connId < nextId ∧
          ∃ counter, client.writer.cipher = client.endpoint.cipher counter := by
    intro other client found
    rcases cases_of_update found with ⟨-, rfl⟩ | found
    · exact ⟨below, uses⟩
    · rcases inv.clients other client found with ⟨small, cipher_eq⟩
      exact ⟨small.trans_le nextGrows, cipher_eq⟩
  have ids := @unique_update ν _ Client Nat state.clients name after (fun _ => True) Client.connId
    (fun first second one other firstFound secondFound _ _ =>
      inv.clientIds first second one other firstFound secondFound)
    fun _ other client found _ => owner other client found
  have idsAfter := fun first second one other firstFound secondFound =>
    ids first second one other firstFound secondFound trivial trivial
  exact ⟨inv.fits, inv.claimants, clientsAfter, idsAfter,
    ledger ⟨Speaks.functional inv.claimants idsAfter, Speaks.positive inv.fits⟩⟩

/-- The client takes an id. -/
theorem connect [DecidableEq ν] {name : ν}
    (absent : state.clients name = none) (fits : state.nextId ≤ connectionIdMax) :
    Invariant listener { state.putClient name
      ⟨state.nextId, fits, RecordWriter.new (Cipher.new state.nextId 1 fits)⟩ [] with
        nextId := state.nextId + 1 } := by
  refine inv.putClient (Nat.lt_succ_self _) ⟨0, rfl⟩ (Nat.le_succ _) ?_ ?_
  · intro other client found sameId
    have below := (inv.clients other client found).1
    dsimp only at sameId
    omega
  · intro orderly
    rw [append_nil]
    refine inv.ledger.grow (Speaks.grows_updateClient ?_) orderly
    intro before counter found
    rw [absent] at found
    cases found

/-- The client writes. -/
theorem speakClient [DecidableEq ν] {name : ν}
    {before : Client} {buf : Bytes} (found : state.clients name = some before)
    (emits : ∀ {counter}, before.writer.cipher = before.endpoint.cipher counter →
      Emits (before.endpoint.cipher counter) buf records writer) :
    Invariant listener (state.putClient name { before with writer := writer } records) := by
  rcases inv.clients name before found with ⟨below, counter, cipher_eq⟩
  have spoken : Speaks state.connections state.clients before.endpoint counter :=
    .client found cipher_eq
  rcases inv.ledger.emit spoken (emits cipher_eq) with ⟨next, atLeast, nextEq, follows⟩
  have advanced : Speaks state.connections
      (update state.clients name (some { before with writer := writer }))
      before.endpoint next :=
    @Speaks.client _ _ _ _ name { before with writer := writer } _ (update_self ..) nextEq
  refine inv.putClient below ⟨next, nextEq⟩ (Nat.le_refl _) ?_
    (follows advanced (Speaks.grows_updateClient ?_))
  · intro other client otherFound sameId
    exact inv.clientIds other name client before otherFound found sameId
  · intro other otherCounter otherFound otherEq
    obtain rfl := some.inj (found.symm.trans otherFound)
    obtain rfl := cipher_counter cipher_eq otherEq
    exact ⟨next, atLeast, advanced⟩

/-- A connection arrives. -/
theorem accept [DecidableEq κ]
    (absent : state.connections name = none) {id : Nat} (fits : id ≤ connectionIdMax) :
    Invariant listener (state.put name
      ⟨id, fits, .identified, RecordWriter.new (Cipher.new id 2 fits)⟩ []) := by
  refine inv.put ⟨⟨0, rfl, rfl⟩, fun _ => rfl, by simp [Stage.holdsClaim]⟩
    (Finset.Subset.refl _) (by simp [Stage.holdsClaim]) ?_
  intro orderly
  rw [append_nil]
  refine inv.ledger.grow (Speaks.grows_update ?_) orderly
  intro before counter found
  rw [absent] at found
  cases found

theorem step [DecidableEq κ] [DecidableEq ν] {aead : Aead} {event : Event κ ν}
    {next : State κ ν}
    (stepped : step listener aead state event = some next) : Invariant listener next := by
  cases event with
  | accept name id =>
    unfold Listener.step at stepped
    dsimp only at stepped
    rcases found : state.connections name with _ | connection
    · rw [found] at stepped
      split_ifs at stepped with fits
      · cases stepped
        exact inv.accept found fits
      · cases stepped
        exact inv
    · rw [found] at stepped
      cases stepped
  | ensureUnclaimed name =>
    rcases bind_eq_some_iff.mp stepped with ⟨connection, found, stepped⟩
    split_ifs at stepped with stage seen
    · rw [not_not] at stage
      cases stepped
      exact inv.refuse found (by rw [stage]; rfl)
    · rw [not_not] at stage
      cases stepped
      have fits := inv.fits name connection found
      rcases fits.cipher_eq with ⟨counter, cipher_eq, counts⟩
      rw [stage] at counts
      refine inv.restage found (Finset.Subset.refl _)
        ⟨⟨counter, cipher_eq, counts⟩, fun _ => fits.unused (.inl stage),
          by simp [Stage.holdsClaim]⟩ ?_ (by simp [Stage.holdsClaim])
      simp [stage, Stage.holdsClaim]
  | writePreamble name sink =>
    rcases bind_eq_some_iff.mp stepped with ⟨connection, found, stepped⟩
    split_ifs at stepped with stage
    rw [not_not] at stage
    have fits := inv.fits name connection found
    rcases fits.cipher_eq with ⟨counter, cipher_eq, counts⟩
    rw [stage] at counts
    obtain rfl : counter = 0 := counts
    have spec := writePreamble_spec aead cipher_eq (fits.unused (.inr stage)) listener sink
    dsimp only at stepped
    rcases spec with ⟨failed, none_eq, same⟩ | ⟨record, one, nonce_eq, plain_eq, cipherAfter⟩
    · split at stepped
      case h_1 outcome => exact absurd outcome failed
      case h_2 =>
        cases stepped
        rw [none_eq, same]
        exact inv.refuse found (by rw [stage]; rfl)
    · rw [one] at stepped
      split at stepped
      · cases stepped
        exact inv.greet found stage (.inl rfl) nonce_eq plain_eq cipherAfter
      · cases stepped
        exact inv.greet found stage (.inr rfl) nonce_eq plain_eq cipherAfter
  | hello name token =>
    rcases bind_eq_some_iff.mp stepped with ⟨connection, found, stepped⟩
    split_ifs at stepped with stage unwelcome
    · rw [not_not] at stage
      cases stepped
      exact inv.refuse found (by rw [stage]; rfl)
    · rw [not_not] at stage
      rw [not_or] at unwelcome
      cases stepped
      have fits := inv.fits name connection found
      rcases fits.cipher_eq with ⟨counter, cipher_eq, counts⟩
      rw [stage] at counts
      refine inv.restage found (Finset.subset_insert _ _)
        ⟨⟨counter, cipher_eq, counts⟩, by simp, fun _ => Finset.mem_insert_self _ _⟩
        (fun _ => rfl) ?_
      -- Whoever claimed the id before would have left it in the set.
      intro _ other otherConnection otherFound otherClaim sameId
      have claimed := (inv.fits other otherConnection otherFound).claims otherClaim
      rw [sameId] at claimed
      exact absurd claimed unwelcome.2
  | write name data sink =>
    rcases bind_eq_some_iff.mp stepped with ⟨connection, found, stepped⟩
    split_ifs at stepped with stage
    rw [not_not] at stage
    cases stepped
    exact inv.speak found stage fun cipher_eq => write_emits aead cipher_eq data sink
  | flush name sink =>
    rcases bind_eq_some_iff.mp stepped with ⟨connection, found, stepped⟩
    split_ifs at stepped with stage
    rw [not_not] at stage
    cases stepped
    exact inv.speak found stage fun cipher_eq => flush_emits aead cipher_eq sink
  | cut name =>
    rcases bind_eq_some_iff.mp stepped with ⟨connection, found, stepped⟩
    cases stepped
    by_cases claim : connection.stage.holdsClaim = true
    · have ended : connection.stage.cut = .ended := by rw [Stage.cut, if_pos claim]
      have fits := inv.fits name connection found
      rcases fits.cipher_eq with ⟨counter, cipher_eq, counts⟩
      rw [ended]
      refine inv.restage found (Finset.Subset.refl _)
        ⟨⟨counter, cipher_eq, counts.positive claim⟩, by simp, fun _ => fits.claims claim⟩
        (fun _ => rfl) ?_
      intro _ other otherConnection otherFound otherClaim sameId
      exact inv.claimants other name _ _ otherFound found otherClaim claim sameId
    · have unclaimed : connection.stage.holdsClaim = false := by simpa using claim
      have refused : connection.stage.cut = .refused := by rw [Stage.cut, if_neg claim]
      rw [refused]
      exact inv.refuse found unclaimed
  | connect name =>
    unfold Listener.step nextTcpConnectionId at stepped
    dsimp only at stepped
    rcases found : state.clients name with _ | client
    · rw [found] at stepped
      split_ifs at stepped with fits
      · cases stepped
        exact inv.connect found fits
      · cases stepped
        exact inv
    · rw [found] at stepped
      cases stepped
  | clientWrite name data sink =>
    rcases bind_eq_some_iff.mp stepped with ⟨client, found, stepped⟩
    cases stepped
    exact inv.speakClient found fun cipher_eq => write_emits aead cipher_eq data sink
  | clientFlush name sink =>
    rcases bind_eq_some_iff.mp stepped with ⟨client, found, stepped⟩
    cases stepped
    exact inv.speakClient found fun cipher_eq => flush_emits aead cipher_eq sink

end Invariant

/-- For every order of events, no two plaintexts are sealed under one nonce, and at most one
connection claims an id. -/
theorem no_nonce_protects_two_messages [DecidableEq κ] [DecidableEq ν] (listener : Listener)
    (aead : Aead) (events : List (Event κ ν)) (state : State κ ν)
    (ran : (system listener aead).exec start events = some state) :
    (∀ first ∈ state.log, ∀ second ∈ state.log, first.nonce = second.nonce →
      first.plain = second.plain) ∧
    ∀ first second one other, state.connections first = some one →
      state.connections second = some other → one.stage.holdsClaim = true →
      other.stage.holdsClaim = true → one.connId = other.connId → first = second := by
  have invariant : Invariant listener state := by
    refine (system listener aead).exec_invariant ?_ Invariant.initial ran
    intro before event after invariant _ stepped
    exact invariant.step stepped
  exact ⟨invariant.ledger.unique, invariant.claimants⟩

/-- Two connections name the client's id and both are greeted; the second hello is a replay. -/
def replayed : List (Event Nat Nat) :=
  [.connect 0, .accept 0 1, .ensureUnclaimed 0, .accept 1 1, .ensureUnclaimed 1,
    .clientWrite 0 [5] ⟨[], []⟩, .clientFlush 0 ⟨[.ok 30], []⟩,
    .writePreamble 0 ⟨[.ok 30, .ok 30], []⟩, .writePreamble 1 ⟨[.ok 60], []⟩,
    .hello 0 [1], .hello 1 [1], .write 0 [7] ⟨[], []⟩, .flush 0 ⟨[.ok 30], []⟩]

theorem no_nonce_protects_two_messages_replayed :
    ∃ state, (system ⟨[1], [2]⟩ tagged).exec start replayed = some state ∧
      (∀ first ∈ state.log, ∀ second ∈ state.log, first.nonce = second.nonce →
        first.plain = second.plain) ∧
      ∀ first second one other, state.connections first = some one →
        state.connections second = some other → one.stage.holdsClaim = true →
        other.stage.holdsClaim = true → one.connId = other.connId → first = second := by
  have runs : ((system ⟨[1], [2]⟩ tagged).exec start replayed).isSome = true := by decide +kernel
  rcases isSome_iff_exists.mp runs with ⟨state, ran⟩
  exact ⟨state, ran, no_nonce_protects_two_messages _ _ _ _ ran⟩

end Listener

end Syq.Records
