import Syq.Lib.Transition
import Syq.Records.Reading
import Syq.Records.Writing

/-!
# What a reader returns is authentic

Any number of writers use one key, each for its own connection and direction.  An attacker feeds
the reader of one of these directions whatever bytes they like.  The cipher is ideal: it opens
what was sealed under the same nonce and nothing else.  Then the reader returns the first bytes
that the writer of its own connection and direction was given.
-/

namespace Syq.Records

open Syq.Lib List Function

variable {record : Sealed}

/-! ## The ideal cipher -/

/-- How records are sealed, and what the backend leaves in a buffer beside a plaintext. -/
structure Backend where
  sealInPlaceAppendTag : Nonce → Bytes → Bytes
  scratch : Nonce → Bytes → Bytes
  length_seal : ∀ nonce plain,
    (sealInPlaceAppendTag nonce plain).length = plain.length + tagLen
  length_scratch : ∀ nonce buffer, (scratch nonce buffer).length = buffer.length

/-- The record among those sealed that has this nonce and this body. -/
def sealedAs (log : List Sealed) (nonce : Nonce) (body : Bytes) : Option Sealed :=
  log.find? fun record => record.nonce = nonce ∧ record.body = body

theorem mem_of_sealedAs {log : List Sealed} {nonce : Nonce} {body : Bytes}
    (found : sealedAs log nonce body = some record) :
    record ∈ log ∧ record.nonce = nonce ∧ record.body = body := by
  refine ⟨mem_of_find?_eq_some found, ?_⟩
  simpa using find?_some found

/-- Opening answers from the records that were sealed so far. -/
def Backend.ideal (backend : Backend) (log : List Sealed) : Aead where
  sealInPlaceAppendTag := backend.sealInPlaceAppendTag
  openInPlace nonce buffer :=
    match sealedAs log nonce buffer with
    | some record =>
      .opened record.plain ((backend.scratch nonce buffer).drop record.plain.length)
    | none => .failed (backend.scratch nonce buffer)
  length_seal := backend.length_seal
  length_failed := by
    intro nonce buffer left failed
    split at failed
    · cases failed
    · cases failed
      exact backend.length_scratch nonce buffer
  length_opened := by
    intro nonce buffer plain tail opened
    split at opened
    case h_1 record found =>
      cases opened
      rcases mem_of_sealedAs found with ⟨-, -, rfl⟩
      have length := record.length_body
      rw [List.length_drop, backend.length_scratch]
      omega
    case h_2 => cases opened

/-! ## Writers, the attacker and the reader -/

structure State where
  writers : Endpoint → RecordWriter
  /-- What each writer was given. -/
  given : Endpoint → Bytes
  log : List Sealed
  reader : RecordReader
  answers : List (Answer UInt8)
  /-- What the reader returned before its first error. -/
  returned : Bytes
  failed : Bool

inductive Event where
  | write (endpoint : Endpoint) (data : Bytes) (sink : Sink)
  | flush (endpoint : Endpoint) (sink : Sink)
  | feed (answers : List (Answer UInt8))
  | read (out : Bytes)

/-- A writer has been called. -/
def State.wrote {β : Type} (state : State) (endpoint : Endpoint) (data : Bytes)
    (written : Written β) : State :=
  { state with
    writers := Function.update state.writers endpoint written.writer
    given := Function.update state.given endpoint (state.given endpoint ++ data)
    log := state.log ++ written.sealedRecords }

/-- The reader has been called. -/
def State.readBack (state : State) (read : ReadResult) : State :=
  let after := { state with reader := read.reader, answers := read.answers }
  match read.result with
  | .error _ => { after with failed := true }
  | .ok count =>
    if state.failed then after
    else { after with returned := state.returned ++ read.out.take count }

def step (backend : Backend) (state : State) : Event → State
  | .write endpoint data sink =>
    let writer := state.writers endpoint
    state.wrote endpoint (writer.taken data)
      (writer.write (backend.ideal state.log) data sink)
  | .flush endpoint sink =>
    state.wrote endpoint [] ((state.writers endpoint).flush (backend.ideal state.log) sink)
  | .feed answers => { state with answers := state.answers ++ answers }
  | .read out =>
    state.readBack (state.reader.read (backend.ideal state.log) out state.answers)

def system (backend : Backend) : System State Event where
  enabled _ _ := True
  decidableEnabled _ _ := instDecidableTrue
  step state event := some (step backend state event)

/-- Fresh writers for all directions, and the reader of one. -/
def start (peer : Endpoint) : State where
  writers endpoint := RecordWriter.new (endpoint.cipher 0)
  given _ := []
  log := []
  reader := RecordReader.new (peer.cipher 0)
  answers := []
  returned := []
  failed := false

/-! ## The log of one direction -/

/-- The records of one direction, in order. -/
def own (endpoint : Endpoint) (log : List Sealed) : List Sealed :=
  log.filter fun record =>
    record.nonce.direction = endpoint.direction ∧ record.nonce.connId = endpoint.connId

theorem own_append (endpoint : Endpoint) (first second : List Sealed) :
    own endpoint (first ++ second) = own endpoint first ++ own endpoint second :=
  List.filter_append ..

variable {endpoint : Endpoint} {counter : Nat}

theorem own_singleton_other {other : Endpoint}
    (nonce_eq : record.nonce = (endpoint.cipher counter).nonce) (differs : other ≠ endpoint) :
    own other [record] = [] := by
  rcases endpoint with ⟨connId, direction, inNonceSpace⟩
  rcases other with ⟨otherId, otherDirection, otherInNonceSpace⟩
  have apart : ¬(direction = otherDirection ∧ connId = otherId) := by
    rintro ⟨rfl, rfl⟩
    exact differs rfl
  rw [Endpoint.nonce_cipher] at nonce_eq
  simpa [own, nonce_eq] using apart

/-- A writer's counter is the number of its records, which hold what it was given up to its
buffer. -/
structure Kept (endpoint : Endpoint) (log : List Sealed) (writer : RecordWriter)
    (given : Bytes) : Prop where
  cipher_eq : writer.cipher = endpoint.cipher (own endpoint log).length
  nonce_eq : ∀ index record, (own endpoint log)[index]? = some record →
    record.nonce = (endpoint.cipher index).nonce
  given_eq : given = ((own endpoint log).map Sealed.plain).flatten ++ writer.buf

namespace Kept

variable {endpoint other : Endpoint} {log more : List Sealed} {writer after : RecordWriter}
variable {given data : Bytes}

theorem emits (kept : Kept endpoint log writer given)
    (emitted : Emits (endpoint.cipher (own endpoint log).length) (writer.buf ++ data) more after) :
    Kept endpoint (log ++ more) after (given ++ data) := by
  rcases kept with ⟨-, nonces, rfl⟩
  cases emitted with
  | kept cipher_eq buf_eq =>
    rw [append_nil]
    exact ⟨cipher_eq, nonces, by rw [buf_eq, append_assoc]⟩
  | @sealed record _ nonce_eq plain_eq cipher_eq buf_eq =>
    have grown : own endpoint (log ++ [record]) = own endpoint log ++ [record] := by
      simp [own, nonce_eq, Endpoint.nonce_cipher]
    refine ⟨?_, ?_, ?_⟩
    · rw [cipher_eq, grown, length_append]
      rfl
    · intro index found atIndex
      rw [grown, getElem?_append] at atIndex
      split_ifs at atIndex with before
      · exact nonces index found atIndex
      · have small := (List.getElem?_eq_some_iff.mp atIndex).1
        rw [List.length_singleton] at small
        obtain rfl : index = (own endpoint log).length := by omega
        rw [Nat.sub_self] at atIndex
        cases atIndex
        exact nonce_eq
    · rw [grown, buf_eq, map_append]
      simp [plain_eq]

theorem emits_other (kept : Kept other log writer given) (differs : other ≠ endpoint)
    {buf : Bytes} (emitted : Emits (endpoint.cipher counter) buf more after) :
    Kept other (log ++ more) writer given := by
  have same : own other (log ++ more) = own other log := by
    cases emitted with
    | kept => rw [append_nil]
    | sealed nonce_eq => rw [own_append, own_singleton_other nonce_eq differs, append_nil]
  rcases kept with ⟨cipher_eq, nonces, given_eq⟩
  refine ⟨?_, ?_, ?_⟩ <;> rwa [same]

theorem prefix_given (kept : Kept endpoint log writer given) (count : Nat) :
    (((own endpoint log).take count).map Sealed.plain).flatten <+: given := by
  rw [kept.given_eq]
  conv_rhs => rw [← take_append_drop count (own endpoint log), map_append,
    flatten_append, append_assoc]
  exact prefix_append _ _

/-- The only record that opens under a counter is the record of that number. -/
theorem opens (kept : Kept endpoint log writer given) {count : Nat} (logged : record ∈ log)
    (nonce_eq : record.nonce = (endpoint.cipher count).nonce) :
    (own endpoint log)[count]? = some record := by
  have mine : record ∈ own endpoint log := by
    rw [Endpoint.nonce_cipher] at nonce_eq
    simp [own, logged, nonce_eq]
  rcases mem_iff_getElem?.mp mine with ⟨index, found⟩
  have counted := kept.nonce_eq index record found
  rw [nonce_eq, Endpoint.nonce_cipher] at counted
  obtain rfl : count = index := congrArg Nonce.counter counted
  exact found

end Kept

/-! ## What the reader opens -/

variable {backend : Backend}

/-- A record that is opened was sealed under the reader's nonce. -/
theorem nextRecord_ok {log : List Sealed} {cipher : Cipher} {plain : Bytes}
    {answers rest : List (Answer UInt8)} {after : Option Cipher}
    (next : nextRecord (backend.ideal log) cipher answers = (.ok plain, after, rest)) :
    after = cipher.next ∧ ∃ record ∈ log, record.nonce = cipher.nonce ∧ record.plain = plain := by
  unfold nextRecord at next
  rcases lengthRead : readLength answers with ⟨result, left⟩
  rw [lengthRead] at next
  cases result with
  | error error => cases next
  | ok length =>
    dsimp only at next
    unfold openRecord at next
    rcases bodyRead : readExact left length with ⟨result, body, left⟩
    rw [bodyRead] at next
    cases result with
    | error error => cases next
    | ok done =>
      dsimp only [Backend.ideal] at next
      rcases found : sealedAs log cipher.nonce body with _ | record
      · rw [found] at next
        cases next
      · rw [found] at next
        cases next
        rcases mem_of_sealedAs found with ⟨logged, nonce_eq, -⟩
        exact ⟨rfl, record, logged, nonce_eq, rfl⟩

/-- A failure may use up a nonce. -/
theorem nextRecord_error {aead : Aead} {cipher : Cipher} {error : IoError}
    {answers rest : List (Answer UInt8)} {after : Option Cipher}
    (next : nextRecord aead cipher answers = (.error error, after, rest)) :
    after = cipher ∨ after = cipher.next := by
  unfold nextRecord openRecord at next
  split at next
  · cases next
    exact .inl rfl
  · split at next
    · cases next
      exact .inl rfl
    · dsimp only at next
      split at next
      · cases next
      · cases next
        exact .inr rfl

/-! ## Invariants of the run -/

/-- What the reader has returned and can still return. -/
structure Delivered (peer : Endpoint) (state : State) (count : Nat) : Prop where
  cipher_eq : state.reader.cipher = peer.cipher count
  returned_eq : state.failed = false → count ≤ (own peer state.log).length ∧
    state.returned ++ state.reader.readable =
      (((own peer state.log).take count).map Sealed.plain).flatten
  returned_begins : state.returned <+: state.given peer
  readable_own : state.reader.readable = [] ∨
    ∃ record ∈ own peer state.log, state.reader.readable <:+ record.plain

variable {out : Bytes} {read : ReadResult}

theorem Hands.take_out {bytes : Bytes} (hands : Hands out bytes read) :
    read.out.take (min out.length bytes.length) = bytes.take (min out.length bytes.length) := by
  have length : (bytes.take (min out.length bytes.length)).length =
      min out.length bytes.length := by
    rw [length_take]
    omega
  rw [hands.out_eq, take_left' length]

/-- The caller's buffer behind what is handed out. -/
theorem Hands.frame {bytes : Bytes} (hands : Hands out bytes read) :
    (∀ error, read.result = .error error → read.reader.readable = [] ∧
      ∃ count ≤ out.length, read.out = List.replicate count 0 ++ out.drop count) ∧
    ∀ count, read.result = .ok count → count ≤ out.length ∧ read.out.length = out.length ∧
      read.out.drop count = out.drop count := by
  rw [hands.result_eq, hands.out_eq]
  refine ⟨by simp, ?_⟩
  intro count returned
  cases returned
  have length : (bytes.take (min out.length bytes.length)).length =
      min out.length bytes.length := by
    rw [length_take]
    omega
  refine ⟨by omega, ?_, ?_⟩
  · rw [length_append, length_drop]
    omega
  · rw [drop_left' length]

namespace Delivered

variable {peer : Endpoint} {state : State} {read : ReadResult} {count : Nat} {out bytes : Bytes}

/-- The reader hands out bytes of the records that it has opened. -/
theorem hands (hands : Hands out bytes read) (cipher_eq : read.reader.cipher = peer.cipher count)
    (kept : Kept peer state.log (state.writers peer) (state.given peer))
    (opened : state.failed = false → count ≤ (own peer state.log).length ∧
      state.returned ++ bytes = (((own peer state.log).take count).map Sealed.plain).flatten)
    (before : state.returned <+: state.given peer)
    (authentic : bytes = [] ∨ ∃ record ∈ own peer state.log, bytes <:+ record.plain) :
    Delivered peer (state.readBack read) count := by
  have rest : read.reader.readable = [] ∨
      ∃ record ∈ own peer state.log, read.reader.readable <:+ record.plain := by
    rw [hands.readable_eq]
    rcases authentic with rfl | ⟨record, mine, suffix⟩
    · exact .inl drop_nil
    · exact .inr ⟨record, mine, (drop_suffix _ _).trans suffix⟩
  unfold State.readBack
  rw [hands.result_eq]
  split_ifs with failed
  · refine ⟨cipher_eq, ?_, before, rest⟩
    intro intact
    exact absurd failed (by rw [intact]; decide)
  · have intact : state.failed = false := by simpa using failed
    rcases opened intact with ⟨small, all⟩
    have whole : state.returned ++ read.out.take (min out.length bytes.length) ++
        read.reader.readable = (((own peer state.log).take count).map Sealed.plain).flatten := by
      rw [hands.take_out, hands.readable_eq, append_assoc, take_append_drop, all]
    refine ⟨cipher_eq, fun _ => ⟨small, whole⟩, ?_, rest⟩
    have authenticPrefix := kept.prefix_given count
    rw [← whole] at authenticPrefix
    exact (prefix_append _ _).trans authenticPrefix

/-- An error ends what counts as returned. -/
theorem refuses {error : IoError} (delivered : Delivered peer state count)
    (refuses : Refuses out error read)
    (advanced : read.reader.cipher = peer.cipher count ∨
      read.reader.cipher = peer.cipher (count + 1)) :
    ∃ count, Delivered peer (state.readBack read) count := by
  unfold State.readBack
  rw [refuses.result_eq]
  rcases advanced with same | next
  · exact ⟨count, same, by simp, delivered.returned_begins, .inl refuses.readable_eq⟩
  · exact ⟨count + 1, next, by simp, delivered.returned_begins, .inl refuses.readable_eq⟩

end Delivered

structure Invariant (peer : Endpoint) (state : State) : Prop where
  kept : ∀ endpoint, Kept endpoint state.log (state.writers endpoint) (state.given endpoint)
  delivered : ∃ count, Delivered peer state count

theorem Invariant.start (peer : Endpoint) : Invariant peer (start peer) where
  kept _ := ⟨rfl, by simp [own, Records.start], rfl⟩
  delivered := ⟨0, rfl, fun _ => ⟨Nat.le_refl _, rfl⟩, List.prefix_rfl, .inl rfl⟩

namespace Invariant

variable {peer : Endpoint} {state : State}

theorem wrote {β : Type} (inv : Invariant peer state) {data : Bytes} {written : Written β}
    (emitted : Emits (endpoint.cipher (own endpoint state.log).length)
      ((state.writers endpoint).buf ++ data) written.sealedRecords written.writer) :
    Invariant peer (state.wrote endpoint data written) := by
  rcases inv with ⟨kept, count, delivered⟩
  have keptAfter : ∀ other, Kept other (state.log ++ written.sealedRecords)
      (update state.writers endpoint written.writer other)
      (update state.given endpoint (state.given endpoint ++ data) other) := by
    intro other
    by_cases same : other = endpoint
    · subst same
      rw [update_self, update_self]
      exact (kept other).emits emitted
    · rw [update_of_ne same, update_of_ne same]
      exact (kept other).emits_other same emitted
  have grows : own peer state.log <+: own peer (state.log ++ written.sealedRecords) := by
    rw [own_append]
    exact prefix_append _ _
  have givenGrows : state.given peer <+:
      update state.given endpoint (state.given endpoint ++ data) peer := by
    by_cases same : peer = endpoint
    · subst same
      rw [update_self]
      exact prefix_append _ _
    · rw [update_of_ne same]
  refine ⟨keptAfter, count, delivered.cipher_eq, ?_, delivered.returned_begins.trans givenGrows, ?_⟩
  · intro intact
    rcases delivered.returned_eq intact with ⟨small, all⟩
    refine ⟨small.trans grows.length_le, ?_⟩
    rw [State.wrote, all]
    rcases grows with ⟨more, moreEq⟩
    rw [← moreEq, take_append_of_le_length small]
  · rcases delivered.readable_own with none | ⟨record, mine, suffix⟩
    · exact .inl none
    · exact .inr ⟨record, grows.subset mine, suffix⟩

theorem readBack (inv : Invariant peer state)
    (reads : Reads (backend.ideal state.log) state.reader out state.answers read) :
    Invariant peer (state.readBack read) := by
  rcases inv with ⟨kept, count, delivered⟩
  have keptAfter : ∀ endpoint, Kept endpoint (state.readBack read).log
      ((state.readBack read).writers endpoint) ((state.readBack read).given endpoint) := by
    unfold State.readBack
    split
    · exact kept
    · split_ifs <;> exact kept
  refine ⟨keptAfter, ?_⟩
  cases reads with
  | nothing empty =>
    refine ⟨count, ?_⟩
    unfold State.readBack
    dsimp only
    split_ifs with failed
    · exact delivered
    · rw [take_zero, append_nil]
      exact delivered
  | rest ne remains hands cipher_eq answers_eq =>
    exact ⟨count, .hands hands (cipher_eq.trans delivered.cipher_eq) (kept peer)
      delivered.returned_eq delivered.returned_begins delivered.readable_own⟩
  | record ne used next hands =>
    rw [delivered.cipher_eq] at next
    rcases nextRecord_ok next with ⟨cipher_eq, record, logged, nonce_eq, rfl⟩
    have found := (kept peer).opens logged nonce_eq
    have small := (List.getElem?_eq_some_iff.mp found).1
    refine ⟨count + 1, .hands hands cipher_eq (kept peer) ?_ delivered.returned_begins
      (.inr ⟨record, mem_of_getElem? found, suffix_rfl⟩)⟩
    intro intact
    have before := (delivered.returned_eq intact).2
    rw [used, append_nil] at before
    refine ⟨small, ?_⟩
    rw [before, take_add_one, found, map_append]
    simp
  | refused ne used next refuses =>
    rw [delivered.cipher_eq] at next
    exact delivered.refuses refuses (nextRecord_error next)

theorem step (inv : Invariant peer state) (event : Event) :
    Invariant peer (step backend state event) := by
  cases event with
  | write endpoint data sink =>
    exact inv.wrote (write_emits _ (inv.kept endpoint).cipher_eq data sink)
  | flush endpoint sink =>
    exact inv.wrote (flush_emits _ (inv.kept endpoint).cipher_eq sink)
  | feed answers =>
    rcases inv with ⟨kept, count, delivered⟩
    exact ⟨kept, count, delivered.cipher_eq, delivered.returned_eq, delivered.returned_begins,
      delivered.readable_own⟩
  | read out => exact inv.readBack (read_spec _ state.reader out state.answers)

end Invariant

theorem invariant_of_exec {peer : Endpoint} {events : List Event}
    {state : State} (ran : (system backend).exec (start peer) events = some state) :
    Invariant peer state := by
  refine (system backend).exec_invariant ?_ (Invariant.start peer) ran
  intro before event after inv _ stepped
  cases stepped
  exact inv.step event

/-- Whatever the attacker feeds, the reader returns a beginning of what its peer was given, and
what it holds back comes from the peer.  A read that fails hands out and leaves nothing, and a
read that succeeds changes only the bytes it returns. -/
theorem reader_delivers_authentic_prefix (backend : Backend) (peer : Endpoint) :
    (∀ events state, (system backend).exec (start peer) events = some state →
      state.returned <+: state.given peer ∧
      (state.reader.readable = [] ∨
        ∃ record ∈ own peer state.log, state.reader.readable <:+ record.plain)) ∧
      ∀ (aead : Aead) (reader : RecordReader) (out : Bytes) (answers : List (Answer UInt8)),
        (∀ error, (reader.read aead out answers).result = .error error →
          (reader.read aead out answers).reader.readable = [] ∧
          ∃ count ≤ out.length,
            (reader.read aead out answers).out = List.replicate count 0 ++ out.drop count) ∧
        ∀ count, (reader.read aead out answers).result = .ok count →
          count ≤ out.length ∧ (reader.read aead out answers).out.length = out.length ∧
          (reader.read aead out answers).out.drop count = out.drop count := by
  refine ⟨?_, ?_⟩
  · intro events state ran
    rcases (invariant_of_exec ran).delivered with ⟨count, delivered⟩
    exact ⟨delivered.returned_begins, delivered.readable_own⟩
  · intro aead reader out answers
    have spec := read_spec aead reader out answers
    generalize reader.read aead out answers = read at spec
    cases spec with
    | nothing empty =>
      refine ⟨by simp, ?_⟩
      intro count returned
      cases returned
      exact ⟨Nat.zero_le _, rfl, rfl⟩
    | rest nonempty remains hands => exact hands.frame
    | record nonempty used next hands => exact hands.frame
    | refused nonempty used next refuses =>
      refine ⟨fun _ _ => ⟨refuses.readable_eq, refuses.out_eq⟩, ?_⟩
      intro count returned
      rw [refuses.result_eq] at returned
      cases returned

end Syq.Records
