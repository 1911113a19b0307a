import Syq.Mapping.Admission

/-!
# Chunked admission is whole admission

The receiver's verdict on a manifest does not depend on how the manifest is cut into
chunks, and permissions are given only for the authorized bytes.
-/

namespace Syq.Mapping

open Syq.Lib List Option Function

variable {Metadata Digest Hash : Type}

section Whole

variable (formats : Formats Metadata Digest) (maxEntries : Nat)

/-- Take the text of one line, with its line end where it has one. -/
def admitText (permissions : Permissions Metadata Digest) (line : Bytes) :
    Except String (Permissions Metadata Digest) := do
  formats.fromUtf8 line
  let text := trimLine line
  if text.isEmpty then pure permissions
  else do
    let entry ← parseManifestEntry formats text
    permissions.insert formats maxEntries entry

/-- The receiver as a reader of lines. -/
def lineReader : LineReader UInt8 (Permissions Metadata Digest) String where
  separator := 10
  limit := chunkBytes
  tooLong := "restricted mapping line exceeds 1 MiB"
  close := admitText formats maxEntries

/-- Take one line of a manifest that is at hand as a whole. -/
def admitLine (permissions : Permissions Metadata Digest) (line : Bytes) :
    Except String (Permissions Metadata Digest) :=
  if chunkBytes < line.length then .error "restricted mapping line exceeds 1 MiB"
  else admitText formats maxEntries permissions line

/-- Take the whole text of a manifest line by line. -/
def admitLines (contents : Bytes) : Except String (Permissions Metadata Digest) :=
  (splitInclusive 10 contents).foldlM (admitLine formats maxEntries) .new

/-- Admit a whole manifest: its length and digest are the authorized ones and every line
of it is taken. -/
def admitWhole [DecidableEq Hash] (hash : Bytes → Hash) (authorization : Authorization Hash)
    (contents : Bytes) : Except String (Permissions Metadata Digest) :=
  if contents.length ≠ authorization.bytes ∨ hash contents ≠ authorization.digest then
    .error "mapping does not match the signed manifest"
  else admitLines formats maxEntries contents

/-- Reading a manifest in one chunk and closing its last line takes its lines. -/
theorem admitLines_eq (contents : Bytes) :
    admitLines formats maxEntries contents =
      ((lineReader formats maxEntries).readChunk (.new, []) contents).bind fun read =>
        admitText formats maxEntries read.1 read.2 :=
  (@LineReader.readChunk_close _ _ _ _ (lineReader formats maxEntries) _ _
    fun perms => show admitText formats maxEntries perms [] = _ by
      rw [admitText, formats.fromUtf8_nil]
      rfl).symm

end Whole

namespace Admission

/-! ## The admission reads lines -/

variable {formats : Formats Metadata Digest} {hash : Bytes → Hash}

/-- The admission with the given permissions pending and the given unfinished line. -/
def hold (admission : Admission Metadata Digest Hash)
    (read : Permissions Metadata Digest × Bytes) : Admission Metadata Digest Hash :=
  { admission with pending := some read.1, line := read.2 }

variable (admission : Admission Metadata Digest Hash)

include admission

variable (read : Permissions Metadata Digest × Bytes)

include read

theorem finishLine_hold :
    (admission.hold read).finishLine formats =
      (admitText formats admission.maxEntries read.1 read.2).map fun perms =>
        admission.hold (perms, []) := by
  rw [finishLine, admitText]
  dsimp only [hold]
  cases formats.fromUtf8 read.2 with
  | error error => rfl
  | ok _ =>
    by_cases empty : (trimLine read.2).isEmpty
    · simp [empty, bind, Except.bind, pure, Except.pure, Except.map]
    · simp only [empty, bind, pure, Except.pure]
      cases parseManifestEntry formats (trimLine read.2) with
      | error error => rfl
      | ok entry =>
        cases read.1.insert formats admission.maxEntries entry <;> rfl

theorem readPart_hold (part : Bytes) :
    (admission.hold read).readPart formats part =
      ((lineReader formats admission.maxEntries).readPart read part).map admission.hold := by
  change (if chunkBytes < read.2.length + part.length then _ else
    if part.getLast? = some 10 then
      (admission.hold (read.1, read.2 ++ part)).finishLine formats else _) =
    Except.map _ (if chunkBytes < read.2.length + part.length then _ else
      if part.getLast? = some 10 then _ else _)
  rw [finishLine_hold]
  split_ifs
  · rfl
  · dsimp only [lineReader]
    cases admitText formats admission.maxEntries read.1 (read.2 ++ part) <;> rfl
  · rfl

theorem readParts_hold (parts : List Bytes) :
    parts.foldlM (readPart formats) (admission.hold read) =
      (parts.foldlM (lineReader formats admission.maxEntries).readPart read).map
        admission.hold := by
  induction parts generalizing read with
  | nil => rfl
  | cons part rest ih =>
    rw [foldlM_cons, foldlM_cons, readPart_hold]
    cases (lineReader formats admission.maxEntries).readPart read part with
    | error error => rfl
    | ok next => exact ih next

omit read

omit admission

/-! ## An open admission -/

section Opened

variable {auth : Authorization Hash} {maxEntries : Nat} {taken : Bytes}
  {read : Permissions Metadata Digest × Bytes}

/-- The admission that has taken some bytes and is still open. -/
def opened (authorization : Authorization Hash) (maxEntries : Nat) (taken : Bytes)
    (read : Permissions Metadata Digest × Bytes) : Admission Metadata Digest Hash where
  authorization := authorization
  received := taken.length
  hashed := taken
  line := read.2
  maxEntries := maxEntries
  pending := some read.1
  permissions := none

theorem new_eq_opened (auth : Authorization Hash) (maxEntries : Nat) :
    (new auth maxEntries : Admission Metadata Digest Hash) =
      opened auth maxEntries [] (.new, []) :=
  rfl

theorem checkChunk_eq_ok_iff {admission : Admission Metadata Digest Hash} {chunk : Chunk} :
    admission.checkChunk chunk = .ok () ↔
      chunk.offset = admission.received ∧ chunk.data.length ≤ chunkBytes ∧
        chunk.offset + chunk.data.length ≤ admission.authorization.bytes := by
  have bounded := admission.authorization.bounded
  unfold checkChunk
  split_ifs with order size overflow signed
  · simp [order]
  · simp [Nat.not_le.mpr size]
  · simp [Nat.not_le.mpr (Nat.lt_of_le_of_lt bounded overflow)]
  · simp [Nat.not_le.mpr signed]
  · simp [not_not.mp order, Nat.not_lt.mp size]
    simpa [not_not.mp order] using Nat.not_lt.mp signed

/-- A chunk is read when it goes on where the last one ended, is within the limits, and
its lines are taken. -/
theorem readChunk_eq_ok_iff {chunk : Chunk} {next : Admission Metadata Digest Hash} :
    (opened auth maxEntries taken read).readChunk formats chunk = .ok next ↔
      chunk.offset = taken.length ∧ chunk.data.length ≤ chunkBytes ∧
        chunk.offset + chunk.data.length ≤ auth.bytes ∧
        ∃ more, (lineReader formats maxEntries).readChunk read chunk.data = .ok more ∧
          next = opened auth maxEntries (taken ++ chunk.data) more := by
  have parts : (splitInclusive 10 chunk.data).foldlM (readPart formats)
      (opened auth maxEntries taken read) =
        ((lineReader formats maxEntries).readChunk read chunk.data).map
          (opened auth maxEntries taken read).hold :=
    readParts_hold (opened auth maxEntries taken read) read _
  have checked : (opened auth maxEntries taken read).checkChunk chunk = .ok () ↔ _ :=
    checkChunk_eq_ok_iff
  rw [Admission.readChunk, parts]
  cases check : (opened auth maxEntries taken read).checkChunk chunk with
  | error error =>
    rw [check] at checked
    constructor
    · rintro ⟨⟩
    · rintro ⟨order, size, signed, -⟩
      cases checked.mpr ⟨order, size, signed⟩
  | ok _ =>
    obtain ⟨order, size, signed⟩ : chunk.offset = taken.length ∧ _ ∧
        chunk.offset + chunk.data.length ≤ auth.bytes := checked.mp check
    cases (lineReader formats maxEntries).readChunk read chunk.data with
    | error error => simp [bind, Except.bind, Except.map]
    | ok more =>
      have received : ((opened auth maxEntries taken read).hold more).receive chunk =
          opened auth maxEntries (taken ++ chunk.data) more := by
        simp only [receive, hold, opened, length_append]
        rw [order]
      simp only [bind, Except.bind, Except.map, pure, Except.pure, received]
      rw [order] at signed
      simp [order, size, signed, eq_comm]

variable [DecidableEq Hash]

/-- The state of an admission whose manifest is admitted. -/
def admitted (authorization : Authorization Hash) (maxEntries : Nat) (taken : Bytes)
    (permissions : Permissions Metadata Digest) : Admission Metadata Digest Hash where
  authorization := authorization
  received := taken.length
  hashed := taken
  line := []
  maxEntries := maxEntries
  pending := none
  permissions := some permissions

/-- Completing the bytes taken is admitting them as a whole. -/
theorem complete_opened
    (reads : (lineReader formats maxEntries).readChunk (.new, []) taken = .ok read) :
    (opened auth maxEntries taken read).complete formats hash =
      (admitWhole formats maxEntries hash auth taken).map
        (admitted auth maxEntries taken) := by
  have finish : (opened auth maxEntries taken read).finishLine formats = _ :=
    finishLine_hold (opened auth maxEntries taken read) read
  rw [complete, admitWhole, admitLines_eq, reads, finish]
  change (if taken.length ≠ auth.bytes ∨ hash taken ≠ auth.digest then _ else _) = _
  split_ifs
  · rfl
  · rw [Except.bind]
    dsimp only [opened]
    cases admitText formats maxEntries read.1 read.2 <;> rfl

/-- A chunk that goes on with the manifest and is not read leaves no manifest to admit. -/
theorem admitWhole_of_readChunk_error
    (reads : (lineReader formats maxEntries).readChunk (.new, []) taken = .ok read)
    {data : Bytes} {finish : Bool} {error : String} (within : data.length ≤ chunkBytes)
    (fails : (opened auth maxEntries taken read).readChunk formats
      ⟨taken.length, data, finish⟩ = .error error) (rest : Bytes) :
    (admitWhole formats maxEntries hash auth (taken ++ (data ++ rest))).isOk =
      false := by
  rw [admitWhole]
  split
  · rfl
  · rename_i same
    have length : (taken ++ (data ++ rest)).length = auth.bytes :=
      (not_or.mp same).1 |> not_not.mp
    cases readsData : (lineReader formats maxEntries).readChunk read data with
    | error reason =>
      rw [admitLines_eq, LineReader.readChunk_append (Nat.zero_le _), reads, Except.bind,
        LineReader.readChunk_append (LineReader.readChunk_within (Nat.zero_le _) reads), readsData]
      rfl
    | ok more =>
      have signed : taken.length + data.length ≤ auth.bytes := by
        rw [← length]
        simp
      have succeeds : (opened auth maxEntries taken read).readChunk formats
          ⟨taken.length, data, finish⟩ = .ok _ :=
        readChunk_eq_ok_iff.mpr ⟨rfl, within, signed, more, readsData, rfl⟩
      rw [fails] at succeeds
      cases succeeds

end Opened

/-! ## A closed admission -/

section Closed

variable [DecidableEq Hash] {admission : Admission Metadata Digest Hash}

theorem append_closed (closed : admission.pending = none) (chunk : Chunk) :
    admission.append formats hash chunk =
      (.error "mapping admission is already closed", admission) := by
  rw [append, closed]
  rfl

/-- A closed admission takes no chunk and stays as it is. -/
theorem appendAll_closed (closed : admission.pending = none) (later : List Chunk) :
    (∀ result ∈ (admission.appendAll formats hash later).1, result.isOk = false) ∧
      (admission.appendAll formats hash later).2 = admission := by
  induction later with
  | nil => simp [appendAll]
  | cons chunk rest ih =>
    rw [appendAll, append_closed closed]
    exact ⟨forall_mem_cons.mpr ⟨rfl, ih.1⟩, ih.2⟩

omit [DecidableEq Hash] in
theorem readChunk_permissions {chunk : Chunk} {read : Admission Metadata Digest Hash}
    (pending : admission.pending ≠ none)
    (reads : admission.readChunk formats chunk = .ok read) :
    read.permissions = admission.permissions := by
  rcases ne_none_iff_exists'.mp pending with ⟨perms, held⟩
  have held : admission.hold (perms, admission.line) = admission := by
    rw [hold, ← held]
  rw [Admission.readChunk, ← held, readParts_hold] at reads
  cases check : (admission.hold (perms, admission.line)).checkChunk chunk with
  | error error => rw [check] at reads; cases reads
  | ok _ =>
    rw [check] at reads
    cases parts : (splitInclusive 10 chunk.data).foldlM
        (lineReader formats admission.maxEntries).readPart (perms, admission.line) with
    | error error => rw [parts] at reads; cases reads
    | ok more => rw [parts] at reads; cases reads; rfl

/-- A failed chunk closes the admission and leaves the permissions as they were. -/
theorem append_error {chunk : Chunk} {error : String}
    (fails : (admission.append formats hash chunk).1 = .error error) :
    (admission.append formats hash chunk).2.pending = none ∧
      (admission.append formats hash chunk).2.permissions = admission.permissions := by
  by_cases closed : admission.pending = none
  · rw [append_closed closed]
    exact ⟨closed, rfl⟩
  · rw [append, if_neg (by simpa using closed)] at fails ⊢
    cases reads : admission.readChunk formats chunk with
    | error reason => exact ⟨rfl, rfl⟩
    | ok read =>
      have kept := readChunk_permissions closed reads
      rw [reads] at fails
      dsimp only at fails ⊢
      by_cases last : chunk.finish = true
      · rw [if_pos last] at fails ⊢
        cases completes : read.complete formats hash with
        | error reason => exact ⟨rfl, kept⟩
        | ok completed => rw [completes] at fails; cases fails
      · rw [if_neg last] at fails
        cases fails

end Closed

/-! ## In-order splits -/

section InOrder

variable [DecidableEq Hash] {auth : Authorization Hash} {maxEntries : Nat}
  {taken : Bytes} {read : Permissions Metadata Digest × Bytes}
variable {chunk : Chunk}

theorem append_of_error {error : String}
    (fails : (opened auth maxEntries taken read).readChunk formats chunk = .error error) :
    (opened auth maxEntries taken read).append formats hash chunk =
      (.error error, (opened auth maxEntries taken read).fail) := by
  rw [append, fails]
  rfl

theorem append_of_ok {next : Admission Metadata Digest Hash}
    (reads : (opened auth maxEntries taken read).readChunk formats chunk = .ok next)
    (goesOn : chunk.finish = false) :
    (opened auth maxEntries taken read).append formats hash chunk =
      (.ok (), next) := by
  rw [append, reads, goesOn]
  rfl

/-- The last chunk is taken when the manifest is admitted as a whole. -/
theorem append_finish {more : Permissions Metadata Digest × Bytes} {manifest : Bytes}
    (reads : (opened auth maxEntries taken read).readChunk formats chunk =
      .ok (opened auth maxEntries manifest more))
    (whole : (lineReader formats maxEntries).readChunk (.new, []) manifest = .ok more)
    (last : chunk.finish = true) :
    (opened auth maxEntries taken read).append formats hash chunk =
      match admitWhole formats maxEntries hash auth manifest with
      | .error error => (.error error, (opened auth maxEntries manifest more).fail)
      | .ok perms => (.ok (), admitted auth maxEntries manifest perms) := by
  rw [append, reads, last]
  dsimp only
  rw [complete_opened whole]
  cases admitWhole formats maxEntries hash auth manifest <;> rfl

/-- What was read of a manifest goes on with the next chunk. -/
theorem reads_append {data : Bytes} {more : Permissions Metadata Digest × Bytes}
    (reads : (lineReader formats maxEntries).readChunk (.new, []) taken = .ok read)
    (readsData : (lineReader formats maxEntries).readChunk read data = .ok more) :
    (lineReader formats maxEntries).readChunk (.new, []) (taken ++ data) = .ok more := by
  rw [LineReader.readChunk_append (Nat.zero_le _), reads]
  exact readsData

/-- The chunks of an in-order split are all taken exactly when the manifest is admitted as
a whole, and give its permissions. -/
theorem appendAll_inOrder {chunks : List Bytes} (ne : chunks ≠ [])
    (within : ∀ data ∈ chunks, data.length ≤ chunkBytes)
    (reads : (lineReader formats maxEntries).readChunk (.new, []) taken = .ok read) :
    let outcome := (opened auth maxEntries taken read).appendAll formats hash
      (inOrder taken.length chunks)
    let whole := admitWhole formats maxEntries hash auth (taken ++ chunks.flatten)
    ((∀ result ∈ outcome.1, result.isOk = true) ↔ whole.isOk = true) ∧
      outcome.2.permissions = whole.toOption := by
  induction chunks generalizing taken read with
  | nil => exact absurd rfl ne
  | cons data rest ih =>
    rw [forall_mem_cons] at within
    rw [inOrder, appendAll, flatten_cons]
    cases readsChunk : (opened auth maxEntries taken read).readChunk formats
        ⟨taken.length, data, rest.isEmpty⟩ with
    | error error =>
      have failing : (admitWhole formats maxEntries hash auth
          (taken ++ (data ++ rest.flatten))).isOk = false :=
        admitWhole_of_readChunk_error reads within.1 readsChunk rest.flatten
      rw [append_of_error readsChunk]
      dsimp only
      rw [(appendAll_closed rfl _).2]
      cases whole : admitWhole formats maxEntries hash auth
          (taken ++ (data ++ rest.flatten)) with
      | ok perms => rw [whole] at failing; cases failing
      | error reason => exact ⟨by simp [Except.isOk, Except.toBool], rfl⟩
    | ok next =>
      rcases readChunk_eq_ok_iff.mp readsChunk with ⟨-, -, -, more, readsData, rfl⟩
      have readsMore := reads_append reads readsData
      by_cases last : rest = []
      · rw [append_finish readsChunk readsMore (by simp [last])]
        subst last
        simp only [flatten_nil, append_nil, inOrder]
        cases admitWhole formats maxEntries hash auth (taken ++ data) <;>
          simp [appendAll, Except.isOk, Except.toBool, Except.toOption, fail, opened, admitted]
      · have later := ih last within.2 readsMore
        rw [append_of_ok readsChunk (by simpa using last)]
        dsimp only at later ⊢
        simpa [Except.isOk, Except.toBool] using later

variable (formats hash auth maxEntries) in
theorem new_appendAll_inOrder {chunks : List Bytes} (ne : chunks ≠ [])
    (within : ∀ data ∈ chunks, data.length ≤ chunkBytes) :
    ((∀ result ∈ ((new auth maxEntries).appendAll formats hash (inOrder 0 chunks)).1,
        result.isOk = true) ↔
      (admitWhole formats maxEntries hash auth chunks.flatten).isOk = true) ∧
    ((new auth maxEntries).appendAll formats hash (inOrder 0 chunks)).2.permissions =
      (admitWhole formats maxEntries hash auth chunks.flatten).toOption := by
  rw [new_eq_opened]
  exact appendAll_inOrder ne within rfl

end InOrder

/-! ## Any chunks -/

section Stages

variable [DecidableEq Hash] {authorization : Authorization Hash} {maxEntries : Nat}
  {taken : Bytes} {admission : Admission Metadata Digest Hash}

variable (formats hash authorization maxEntries) in
/-- What an admission that has taken some bytes is: still open, with these bytes read;
admitted, with these bytes the authorized manifest; or failed. -/
inductive Stage (taken : Bytes) : Admission Metadata Digest Hash → Prop
  | opened {read : Permissions Metadata Digest × Bytes}
      (reads : (lineReader formats maxEntries).readChunk (.new, []) taken = .ok read) :
      Stage taken (opened authorization maxEntries taken read)
  | admitted {permissions : Permissions Metadata Digest}
      (whole : admitWhole formats maxEntries hash authorization taken = .ok permissions) :
      Stage taken (admitted authorization maxEntries taken permissions)
  | failed {admission : Admission Metadata Digest Hash}
      (notGiven : admission.permissions = none) (closed : admission.pending = none) :
      Stage taken admission

/-- The bytes of the chunks that were taken. -/
def accepted : List Chunk → List (Except String Unit) → Bytes
  | chunk :: chunks, result :: results =>
    (if result.isOk then chunk.data else []) ++ accepted chunks results
  | _, _ => []

variable (stage : Stage formats hash authorization maxEntries taken admission)

include stage

/-- Every chunk leaves the admission in a stage for the bytes taken. -/
theorem Stage.append (chunk : Chunk) :
    Stage formats hash authorization maxEntries
      (taken ++ if (admission.append formats hash chunk).1.isOk then chunk.data else [])
      (admission.append formats hash chunk).2 := by
  cases stage with
  | @opened read reads =>
    cases readsChunk : (Admission.opened authorization maxEntries taken read).readChunk formats
        chunk with
    | error error =>
      rw [append_of_error readsChunk]
      exact .failed rfl rfl
    | ok next =>
      rcases readChunk_eq_ok_iff.mp readsChunk with ⟨-, -, -, more, readsData, rfl⟩
      have readsMore := reads_append reads readsData
      cases last : chunk.finish with
      | false =>
        rw [append_of_ok readsChunk last]
        exact .opened readsMore
      | true =>
        rw [append_finish readsChunk readsMore last]
        cases whole : admitWhole formats maxEntries hash authorization
            (taken ++ chunk.data) with
        | error error => exact .failed rfl rfl
        | ok perms => exact .admitted whole
  | admitted whole =>
    rw [append_closed rfl]
    simpa [Except.isOk, Except.toBool] using Stage.admitted whole
  | failed notGiven closed =>
    rw [append_closed closed]
    exact .failed notGiven closed

theorem Stage.appendAll (chunks : List Chunk) :
    Stage formats hash authorization maxEntries
      (taken ++ accepted chunks (admission.appendAll formats hash chunks).1)
      (admission.appendAll formats hash chunks).2 := by
  induction chunks generalizing taken admission with
  | nil => simpa [accepted, Admission.appendAll] using stage
  | cons chunk rest ih =>
    rw [Admission.appendAll, accepted, ← append_assoc]
    exact ih (stage.append chunk)

/-- Permissions are those of the authorized manifest, taken as a whole. -/
theorem Stage.whole_of_permissions {permissions : Permissions Metadata Digest}
    (given : admission.permissions = some permissions) :
    admitWhole formats maxEntries hash authorization taken = .ok permissions := by
  cases stage with
  | opened reads => cases given
  | admitted whole =>
    cases given
    exact whole
  | failed notGiven closed =>
    rw [notGiven] at given
    cases given

end Stages

end Admission

/-! ## Chunked and whole admission -/

open Admission in
/-- An in-order split of a manifest is taken exactly when the manifest is admitted as a
whole, with the same permissions.  Whatever chunks are sent, permissions are given only
when the bytes taken are the authorized manifest.  After a chunk that failed no chunk is
taken, and permissions that were not given before it are never given. -/
theorem chunked_admission_is_whole_admission [DecidableEq Hash]
    (formats : Formats Metadata Digest) (hash : Bytes → Hash)
    (authorization : Authorization Hash) (maxEntries : Nat) :
    (∀ chunks : List Bytes, chunks ≠ [] → (∀ data ∈ chunks, data.length ≤ chunkBytes) →
      let outcome := (Admission.new authorization maxEntries).appendAll formats hash
        (inOrder 0 chunks)
      let whole := admitWhole formats maxEntries hash authorization chunks.flatten
      ((∀ result ∈ outcome.1, result.isOk = true) ↔ whole.isOk = true) ∧
        outcome.2.permissions = whole.toOption) ∧
    (∀ (calls : List Chunk) (permissions : Permissions Metadata Digest),
      let outcome := (Admission.new authorization maxEntries).appendAll formats hash calls
      let taken := accepted calls outcome.1
      outcome.2.permissions = some permissions →
        taken.length = authorization.bytes ∧ hash taken = authorization.digest ∧
          (Function.Injective hash →
            ∀ contents, hash contents = authorization.digest → taken = contents)) ∧
    (∀ (admission : Admission Metadata Digest Hash) (chunk : Chunk) (error : String),
      (admission.append formats hash chunk).1 = .error error → ∀ later : List Chunk,
        let outcome := (admission.append formats hash chunk).2.appendAll formats hash later
        (∀ result ∈ outcome.1, result.isOk = false) ∧
          outcome.2.permissions = admission.permissions) := by
  constructor
  · intro chunks nonempty within
    exact new_appendAll_inOrder formats hash authorization maxEntries nonempty within
  constructor
  · intro calls permissions outcome taken given
    have start : Stage formats hash authorization maxEntries []
        (Admission.new authorization maxEntries) := by
      rw [new_eq_opened]
      exact .opened rfl
    have whole := (start.appendAll calls).whole_of_permissions given
    rw [admitWhole] at whole
    split_ifs at whole with differs
    rcases (by simpa using differs : _ ∧ _) with ⟨length, digest⟩
    exact ⟨length, digest, fun injective contents same => injective (digest.trans same.symm)⟩
  · intro admission chunk error fails later
    rcases append_error fails with ⟨closed, kept⟩
    constructor
    · exact (appendAll_closed closed later).1
    · rw [(appendAll_closed closed later).2]
      exact kept

/-- Formats in which a line is its own destination. -/
def Formats.plain : Formats Unit Unit where
  fromUtf8 := fun _ => .ok ()
  fromUtf8_nil := rfl
  fromJson := fun text => .ok ⟨⟨"utf-8", text⟩, ⟨"utf-8", text⟩, none, none, none⟩
  decodeBase64 := .ok
  validateMetadata := fun _ => .ok ()
  validateSymlink := fun _ => .ok ()
  validateDigest := fun _ => .ok ()
  debug := id
  debugPath := fun _ => ""
  display := fun _ => ""

theorem chunked_admission_inside_a_line :
    let authorization : Authorization Bytes := ⟨3, [97, 98, 10], by decide⟩
    let start : Admission Unit Unit Bytes := .new authorization 2
    let outcome := start.appendAll .plain id (inOrder 0 [[97], [98, 10]])
    let failed := start.append .plain id ⟨1, [], false⟩
    (∀ result ∈ outcome.1, result.isOk = true) ∧
      Admission.accepted (inOrder 0 [[97], [98, 10]]) outcome.1 = [97, 98, 10] ∧
      (failed.2.appendAll .plain id [⟨0, [], false⟩]).2.permissions = none := by
  intro authorization start outcome failed
  rcases chunked_admission_is_whole_admission Formats.plain id authorization 2 with
    ⟨splits, given, latched⟩
  have split := splits [[97], [98, 10]] (by decide) (by decide)
  have admitted : (start.appendAll .plain id
      (inOrder 0 [[97], [98, 10]])).2.permissions.isSome = true := by decide +kernel
  rcases isSome_iff_exists.mp admitted with ⟨permissions, permitted⟩
  refine ⟨split.1.mpr (by decide +kernel), ?_, ?_⟩
  · exact (given _ permissions permitted).2.2 injective_id [97, 98, 10] rfl
  · exact (latched start ⟨1, [], false⟩ "mapping chunk is out of order" rfl _).2

/-- A chunk after the manifest is admitted fails, and the permissions stay. -/
theorem late_chunk_leaves_permissions :
    let start : Admission Unit Unit Bytes := .new ⟨0, [], by decide⟩ 0
    let admitted := start.append .plain id ⟨0, [], true⟩
    let late := admitted.2.append .plain id ⟨0, [], true⟩
    admitted.1 = .ok () ∧ late.1 = .error "mapping admission is already closed" ∧
      late.2.permissions.isSome = true := by
  decide +kernel

/-! ## Sending -/

/-- What is sent from an offset on is an in-order split of the rest of the manifest. -/
theorem sendFrom_eq_inOrder (contents : Bytes) (offset : Nat) :
    ∃ chunks : List Bytes, chunks ≠ [] ∧ (∀ data ∈ chunks, data.length ≤ chunkBytes) ∧
      chunks.flatten = contents.drop offset ∧ sendFrom contents offset = inOrder offset chunks := by
  fun_induction sendFrom contents offset with
  | case1 offset next data last =>
    have all : data = contents.drop offset := by
      apply take_of_length_le
      simp only [length_drop, next]
      omega
    refine ⟨[data], by simp, ?_, by simp [all], rfl⟩
    intro part mem
    rw [mem_singleton.mp mem, all, length_drop]
    omega
  | case2 offset next data more ih =>
    have length : data.length = chunkBytes := by
      simp only [data, length_take, length_drop]
      omega
    have nextEq : next = offset + chunkBytes := by
      omega
    rcases ih with ⟨chunks, ne, within, flatten, rest⟩
    refine ⟨data :: chunks, by simp, ?_, ?_, ?_⟩
    · rw [forall_mem_cons]
      exact ⟨length.le, within⟩
    · rw [flatten_cons, flatten, nextEq, ← drop_drop]
      simp only [data, nextEq, Nat.add_sub_cancel_left, take_append_drop]
    · rw [inOrder, rest, length, ← nextEq, isEmpty_eq_false_iff.mpr ne]

/-- Sending a manifest is taking an in-order split of it. -/
theorem send_eq_inOrder (contents : Bytes) :
    ∃ chunks : List Bytes, chunks ≠ [] ∧ (∀ data ∈ chunks, data.length ≤ chunkBytes) ∧
      chunks.flatten = contents ∧ send contents = inOrder 0 chunks :=
  sendFrom_eq_inOrder contents 0

end Syq.Mapping
