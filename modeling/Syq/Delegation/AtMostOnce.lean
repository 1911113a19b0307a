import Syq.Delegation.Canonical
import Syq.Delegation.Replay

/-!
# Directives are used at most once

A call that returns has published the record of its request, and a record is never replaced.
One lemma says what a step of a call can do to the store and to the call.  From it follow the
invariant of all calls and, over whole runs, that each request is redeemed at most once.
-/

namespace Syq.Delegation

open Syq.Lib List Option Function

/-! ## Stages -/

namespace Stage

/-- What a call has decoded. -/
def signed : Stage → Option Signed
  | check | failed _ => none
  | look signed _ | verify signed _ | openLock signed | lock signed | revalidate signed
  | lookAgain signed _ | create signed _ | inspect signed _ _ | write signed _ _
  | link signed _ | sync signed _ | unlink signed _ | syncAgain signed _ | clean signed _ _ _
  | finish signed | succeeded signed => some signed

/-- The request whose record a call has linked and may return for. -/
def published : Stage → Option RequestId
  | sync signed _ | unlink signed _ | syncAgain signed _ | finish signed
  | succeeded signed => some signed.request
  | _ => none

/-- The request whose record a call has linked and synced. -/
def synced : Stage → Option RequestId
  | unlink signed _ | syncAgain signed _ | finish signed | succeeded signed =>
    some signed.request
  | _ => none

/-- Stages of calls that have changed nothing: before the temporary file, or refused by a
check. -/
def untouched : Stage → Bool
  | check | look _ _ | verify _ _ | openLock _ | lock _ | revalidate _ | lookAgain _ _
  | create _ _ | failed (.refused _) => true
  | _ => false

theorem published_of_synced {stage : Stage} {request : RequestId}
    (isSynced : stage.synced = some request) : stage.published = some request := by
  cases stage <;> first
    | exact isSynced
    | cases isSynced

end Stage

/-! ## One step of a call -/

/-- What one step of a call can do. -/
structure Progress (postcard : Postcard) (attempt : Attempt) (call : CallId)
    (store after : Store) (stage next : Stage) : Prop where
  keeps : ∀ request record, store.files (.redeemed request) = some record →
    after.files (.redeemed request) = some record
  durable : after.durable = store.durable ∨ after.durable = after.files
  signed : ∀ signed, next.signed = some signed →
    stage.signed = some signed ∨ Signed.decode postcard attempt.encoded = .ok signed
  published : ∀ request, next.published = some request → stage.published = some request ∨
    store.files (.redeemed request) = none ∧ after.files (.redeemed request) ≠ none
  synced : ∀ request, next.synced = some request → stage.synced = some request ∨
    stage.published = some request ∧ after.durable = after.files
  untouched : next.untouched = true → stage.untouched = true ∧ after.changes = store.changes
  changes : ∀ entry ∈ after.changes, entry ∈ store.changes ∨ entry.1 = call
  logged : ∀ name, after.files name ≠ store.files name → (call, name) ∈ after.changes

section Progress

variable {postcard : Postcard} {sha256 : Bytes → Bytes} {attempt : Attempt} {call : CallId}
  {store after : Store} {stage next : Stage} {input : Input}

theorem unlock_eq (store : Store) (call : CallId) :
    ∃ lock, store.unlock call = { store with lock } := by
  unfold Store.unlock
  split
  · exact ⟨_, rfl⟩
  · exact ⟨_, rfl⟩

/-- A step that leaves the store. -/
theorem Progress.of_store (files : after.files = store.files)
    (durable : after.durable = store.durable) (changes : after.changes = store.changes)
    (signed : ∀ signed, next.signed = some signed →
      stage.signed = some signed ∨ Signed.decode postcard attempt.encoded = .ok signed)
    (published : ∀ request, next.published = some request → stage.published = some request)
    (synced : ∀ request, next.synced = some request → stage.synced = some request)
    (untouched : next.untouched = true → stage.untouched = true) :
    Progress postcard attempt call store after stage next where
  keeps request record found := by rw [files, found]
  durable := .inl durable
  signed := signed
  published request isPublished := .inl (published request isPublished)
  synced request isSynced := .inl (synced request isSynced)
  untouched isUntouched := ⟨untouched isUntouched, changes⟩
  changes entry mem := .inl (changes ▸ mem)
  logged name changed := absurd (congrFun files name) changed

/-- A call that fails and leaves the store, where a check refuses only untouched calls. -/
theorem Progress.fail {failure : Failure} (refuses : ∀ msg, failure = .refused msg →
      stage.untouched = true) :
    Progress postcard attempt call store store stage (.failed failure) := by
  apply Progress.of_store rfl rfl rfl
  · intro signed isSigned
    cases isSigned
  · intro req isPub
    cases isPub
  · intro req isSynced
    cases isSynced
  · intro isUntouched
    cases failure with
    | refused msg => exact refuses msg rfl
    | store msg => cases isUntouched
    | late msg => cases isUntouched
    | stopped => cases isUntouched

/-- Giving up the lock changes nothing that is asked about. -/
theorem Progress.unlock (progress : Progress postcard attempt call store after stage next) :
    Progress postcard attempt call store (after.unlock call) stage next := by
  rcases unlock_eq after call with ⟨lock, same⟩
  rw [same]
  exact { progress with }

/-- A request that has a record keeps one. -/
theorem Progress.present {request : RequestId}
    (progress : Progress postcard attempt call store after stage next)
    (exist : store.files (.redeemed request) ≠ none) : after.files (.redeemed request) ≠ none := by
  rcases ne_none_iff_exists'.mp exist with ⟨record, found⟩
  rw [progress.keeps request record found]
  simp

theorem Progress.stays_durable {request : RequestId}
    (progress : Progress postcard attempt call store after stage next)
    (exist : store.files (.redeemed request) ≠ none)
    (isDurable : store.durable (.redeemed request) ≠ none) :
    after.durable (.redeemed request) ≠ none := by
  rcases progress.durable with same | synced
  · rw [same]
    exact isDurable
  · rw [synced]
    exact progress.present exist

theorem mem_changes_put {name : Name} {contents : Option Bytes} {entry : CallId × Name}
    (mem : entry ∈ (store.put call name contents).changes) :
    entry ∈ store.changes ∨ entry.1 = call := by
  rcases mem_cons.mp mem with rfl | old
  · exact .inr rfl
  · exact .inl old

theorem logged_put {name other : Name} {contents : Option Bytes}
    (changed : (store.put call name contents).files other ≠ store.files other) :
    (call, other) ∈ (store.put call name contents).changes := by
  by_cases same : other = name
  · rw [same]
    exact mem_cons_self
  · exact absurd (update_of_ne same _ _) changed

/-- A change of a temporary file. -/
theorem Progress.of_temporary {request : RequestId} {random : Block 16}
    {contents : Option Bytes}
    (signed : ∀ signed, next.signed = some signed → stage.signed = some signed)
    (published : ∀ request, next.published = some request → stage.published = some request)
    (synced : ∀ request, next.synced = some request → stage.synced = some request)
    (touched : next.untouched ≠ true) :
    Progress postcard attempt call store (store.put call (.temporary request random) contents)
      stage next where
  keeps other record found := by
    simpa [Store.put] using found
  durable := .inl rfl
  signed value isSigned := .inl (signed value isSigned)
  published other isPublished := .inl (published other isPublished)
  synced other isSynced := .inl (synced other isSynced)
  untouched isUntouched := absurd isUntouched touched
  changes _ := mem_changes_put
  logged _ := logged_put

/-- A cleanup ends in a failure that is not a refusal. -/
theorem Progress.cleanup {req : RequestId} {random : Block 16} {kept : Bool}
    {msg : String} :
    Progress postcard attempt call store
      (store.removeTemporary call (.temporary req random) kept) stage
      (.failed (.store msg)) := by
  cases kept with
  | true => exact Progress.fail nofun
  | false => exact Progress.of_temporary nofun nofun nofun nofun

/-- A step that only goes on with what the call has decoded. -/
theorem Progress.go_on {signed : Signed} (before : stage.signed = some signed)
    (later : next.signed = some signed) (unpublished : next.published = none)
    (untouched : next.untouched = true → stage.untouched = true) :
    Progress postcard attempt call store store stage next := by
  apply Progress.of_store rfl rfl rfl
  · intro other isSigned
    rw [later] at isSigned
    cases isSigned
    exact .inl before
  · intro request isPublished
    rw [unpublished] at isPublished
    cases isPublished
  · intro request isSynced
    have isPublished := Stage.published_of_synced isSynced
    rw [unpublished] at isPublished
    cases isPublished
  · exact untouched

/-- A link to a name that is free. -/
theorem Progress.of_link {signed : Signed} {contents : Bytes}
    (absent : store.files signed.finalName = none) (before : stage.signed = some signed)
    (later : next.signed = some signed)
    (published : ∀ request, next.published = some request → request = signed.request)
    (unsynced : next.synced = none) (touched : next.untouched ≠ true) :
    Progress postcard attempt call store (store.put call signed.finalName (some contents))
      stage next where
  keeps other record found := by
    have different : Name.redeemed other ≠ signed.finalName := by
      intro same
      rw [same, absent] at found
      cases found
    exact (update_of_ne different _ _).trans found
  durable := .inl rfl
  signed other isSigned := by
    rw [later] at isSigned
    cases isSigned
    exact .inl before
  published request isPublished := by
    cases published request isPublished
    exact .inr ⟨absent, by simp [Store.put, Signed.finalName]⟩
  synced request isSynced := by
    rw [unsynced] at isSynced
    cases isSynced
  untouched isUntouched := absurd isUntouched touched
  changes _ := mem_changes_put
  logged _ := logged_put

/-- A sync of the directory by a call that has linked its record. -/
theorem Progress.of_sync (signed : next.signed = stage.signed)
    (published : next.published = stage.published) (touched : next.untouched ≠ true) :
    Progress postcard attempt call store store.sync stage next where
  keeps _ _ found := found
  durable := .inr rfl
  signed _ isSigned := .inl (signed ▸ isSigned)
  published _ isPublished := .inl (published ▸ isPublished)
  synced _ isSynced :=
    .inr ⟨published ▸ Stage.published_of_synced isSynced, rfl⟩
  untouched isUntouched := absurd isUntouched touched
  changes _ := .inl
  logged _ changed := absurd rfl changed

/-- The spec of one step. -/
theorem advance_progress
    (advanced : advance postcard sha256 store call attempt input stage = some (after, next)) :
    Progress postcard attempt call store after stage next := by
  cases stage <;> simp only [advance] at advanced
  case check =>
    split at advanced
    · cases advanced
      exact .fail fun _ _ => rfl
    · rename_i signed decodes
      split at advanced
      · cases advanced
        exact .fail fun _ _ => rfl
      · cases advanced
        exact .of_store rfl rfl rfl (fun other isSigned => by
          cases isSigned
          exact .inr decodes) nofun nofun fun _ => rfl
  case look signed observedAt =>
    split at advanced
    · cases advanced
      exact .fail fun _ _ => rfl
    · split at advanced
      · cases advanced
        exact .fail nofun
      · cases advanced
        exact .go_on rfl rfl rfl fun _ => rfl
  case verify signed observedAt =>
    split at advanced
    · cases advanced
      exact .fail fun _ _ => rfl
    · cases advanced
      exact .go_on rfl rfl rfl fun _ => rfl
  case openLock signed =>
    split at advanced
    · cases advanced
      exact .fail fun _ _ => rfl
    · split at advanced
      · cases advanced
        exact .fail nofun
      · cases advanced
        exact .go_on rfl rfl rfl fun _ => rfl
  case lock signed =>
    split at advanced
    · cases advanced
      exact .fail nofun
    · split at advanced
      · cases advanced
        exact .of_store rfl rfl rfl (fun _ => .inl) nofun nofun fun _ => rfl
      · cases advanced
  case revalidate signed =>
    split at advanced
    · cases advanced
      exact .unlock (.fail fun _ _ => rfl)
    · cases advanced
      exact .go_on rfl rfl rfl fun _ => rfl
  case lookAgain signed redeemedAt =>
    split at advanced
    · cases advanced
      exact .unlock (.fail nofun)
    · cases advanced
      exact .go_on rfl rfl rfl fun _ => rfl
  case create signed redeemedAt =>
    split at advanced
    · cases advanced
      exact .unlock (.fail nofun)
    · split at advanced
      · cases advanced
        exact .unlock (.fail nofun)
      · cases advanced
        exact .of_temporary (fun _ => id) nofun nofun nofun
  case inspect signed random redeemedAt =>
    split at advanced
    · cases advanced
      exact .unlock .cleanup
    · split at advanced
      · cases advanced
        exact .unlock (.fail nofun)
      · cases advanced
        exact .go_on rfl rfl rfl nofun
  case write signed random record =>
    split at advanced
    · cases advanced
      exact .of_temporary (fun _ => id) nofun nofun nofun
    · cases advanced
      exact .of_temporary (fun _ => id) nofun nofun nofun
  case link signed random =>
    split at advanced
    · cases advanced
      exact .go_on rfl rfl rfl nofun
    · split at advanced
      · cases advanced
        exact .go_on rfl rfl rfl nofun
      · rename_i absent
        cases advanced
        exact .of_link absent rfl rfl (fun req isPub => by
          cases isPub
          rfl) rfl nofun
  case sync signed random =>
    split at advanced
    · cases advanced
      exact .go_on rfl rfl rfl nofun
    · cases advanced
      exact .of_sync rfl rfl nofun
  case unlink signed random =>
    split at advanced
    · cases advanced
      exact .go_on rfl rfl rfl nofun
    · cases advanced
      exact .of_temporary (fun _ => id) (fun _ => id) (fun _ => id) nofun
  case syncAgain signed random =>
    split at advanced
    · cases advanced
      exact .go_on rfl rfl rfl nofun
    · cases advanced
      exact .unlock (.of_sync rfl rfl nofun)
  case clean signed random error exist =>
    split_ifs at advanced
    · split at advanced
      · cases advanced
        exact .unlock .cleanup
      · cases advanced
        exact .unlock .cleanup
    · cases advanced
      exact .unlock .cleanup
  case finish signed =>
    split at advanced
    · cases advanced
      exact .fail nofun
    · cases advanced
      exact .of_store rfl rfl rfl (fun _ => .inl) (fun _ => id) (fun _ => id) nofun
  all_goals cases advanced

end Progress

/-! ## All calls -/

section Invariant

variable {postcard : Postcard} {sha256 : Bytes → Bytes} {id : CallId} {call : Call}

/-- What holds of all calls and the store. -/
structure Consistent (postcard : Postcard) (state : State) : Prop where
  decoded : ∀ {id call signed}, state.calls id = some call → call.stage.signed = some signed →
    Signed.decode postcard call.attempt.encoded = .ok signed
  recorded : ∀ {id call request}, state.calls id = some call →
    call.stage.published = some request → state.store.files (.redeemed request) ≠ none
  durable : ∀ {id call request}, state.calls id = some call →
    call.stage.synced = some request → state.store.durable (.redeemed request) ≠ none
  unique : ∀ {id other call otherCall request}, state.calls id = some call →
    state.calls other = some otherCall → call.stage.published = some request →
    otherCall.stage.published = some request → id = other
  unchanged : ∀ {id call}, state.calls id = some call → call.stage.untouched = true →
    ∀ name, (id, name) ∉ state.store.changes
  known : ∀ {id name}, (id, name) ∈ state.store.changes → state.calls id ≠ none

theorem Consistent.start (files : Name → Option Bytes) :
    Consistent postcard (State.start files) where
  decoded found := by cases found
  recorded found := by cases found
  durable found := by cases found
  unique found := by cases found
  unchanged found := by cases found
  known mem := by cases mem

theorem Call.stop_stage (call : Call) :
    call.stop = call ∨ call.stop = { call with stage := .failed .stopped } := by
  unfold Call.stop
  split
  · exact .inl rfl
  · exact .inl rfl
  · exact .inr rfl

theorem Call.stop_eq (call : Call) : call.stop = { call with stage := call.stop.stage } := by
  rcases call.stop_stage with same | stopped
  · rw [same]
  · rw [stopped]

/-- A call that stops gives up the lock. -/
theorem Progress.of_stop (call : Call) {store : Store} :
    Progress postcard call.attempt id store (store.unlock id) call.stage call.stop.stage := by
  apply Progress.unlock
  rcases call.stop_stage with same | stopped
  · rw [same]
    exact .of_store rfl rfl rfl (fun _ => .inl) (fun _ before => before)
      (fun _ before => before) fun before => before
  · rw [stopped]
    exact .fail nofun

/-- What a stopped call may still return for is synced. -/
theorem Call.stop_published {request : RequestId}
    (published : call.stop.stage.published = some request) :
    call.stop = call ∧ call.stage.synced = some request := by
  rcases call with ⟨attempt, stage⟩
  cases stage <;> first
    | exact ⟨rfl, published⟩
    | cases published

variable {state next : State}

/-- What a step of the system can do. -/
theorem step_cases {event : Event} (stepped : step postcard sha256 state event = some next) :
    (∃ id attempt, state.calls id = none ∧
      next = { state with calls := Function.update state.calls id (some ⟨attempt, .check⟩) }) ∨
    (∃ id call after stage, state.calls id = some call ∧
      Progress postcard call.attempt id state.store after call.stage stage ∧
      (after.files = state.store.files ∨ ∃ input, event = .run id input) ∧
      next = ⟨after, Function.update state.calls id (some { call with stage })⟩) ∨
    ∃ lost files, event = .powerLoss lost ∧
      (∀ name, files name =
        if lost name then state.store.durable name else state.store.files name) ∧
      next = ⟨{ state.store with files, durable := files, lock := none },
        fun call => (state.calls call).map Call.stop⟩ := by
  cases event with
  | begin id attempt =>
    simp only [step] at stepped
    split at stepped
    · cases stepped
    · rename_i fresh
      cases stepped
      exact .inl ⟨id, attempt, fresh, rfl⟩
  | run id input =>
    simp only [step, bind_eq_bind, bind_eq_some_iff] at stepped
    rcases stepped with ⟨call, running, ⟨after, stage⟩, advanced, stepped⟩
    cases stepped
    exact .inr (.inl ⟨id, call, after, stage, running, advance_progress advanced,
      .inr ⟨input, rfl⟩, rfl⟩)
  | stop id =>
    simp only [step, bind_eq_bind, bind_eq_some_iff] at stepped
    rcases stepped with ⟨call, running, stepped⟩
    cases stepped
    rcases unlock_eq state.store id with ⟨lock, same⟩
    rw [call.stop_eq]
    exact .inr (.inl ⟨id, call, _, _, running, .of_stop call, .inl (by rw [same]), rfl⟩)
  | powerLoss lost =>
    cases stepped
    exact .inr (.inr ⟨lost, _, rfl, fun _ => rfl, rfl⟩)

section

variable (consistent : Consistent postcard state)

include consistent

theorem Consistent.begin (attempt : Attempt) (fresh : state.calls id = none) :
    Consistent postcard
      { state with calls := Function.update state.calls id (some ⟨attempt, .check⟩) } where
  decoded found isSigned := by
    rcases cases_of_update found with ⟨-, rfl⟩ | found
    · cases isSigned
    · exact consistent.decoded found isSigned
  recorded found isPublished := by
    rcases cases_of_update found with ⟨-, rfl⟩ | found
    · cases isPublished
    · exact consistent.recorded found isPublished
  durable found isSynced := by
    rcases cases_of_update found with ⟨-, rfl⟩ | found
    · cases isSynced
    · exact consistent.durable found isSynced
  unique found otherFound isPublished otherPublished := by
    rcases cases_of_update found with ⟨-, rfl⟩ | found
    · cases isPublished
    rcases cases_of_update otherFound with ⟨-, rfl⟩ | otherFound
    · cases otherPublished
    exact consistent.unique found otherFound isPublished otherPublished
  unchanged found isUntouched name := by
    rcases cases_of_update found with ⟨rfl, -⟩ | found
    · exact fun mem => consistent.known mem fresh
    · exact consistent.unchanged found isUntouched name
  known mem absent := by
    have old := consistent.known mem
    rename_i other name
    by_cases same : other = id
    · exact old (same ▸ fresh)
    · exact old ((update_of_ne same _ _).symm.trans absent)

theorem Consistent.run {after : Store} {stage : Stage} (running : state.calls id = some call)
    (progress : Progress postcard call.attempt id state.store after call.stage stage) :
    Consistent postcard
      ⟨after, Function.update state.calls id (some { call with stage })⟩ := by
  -- The request of another call that published before this step is not published by it.
  have alone {other : CallId} {otherCall : Call} {req : RequestId}
      (found : state.calls other = some otherCall)
      (isPub : otherCall.stage.published = some req)
      (also : stage.published = some req) : other = id := by
    rcases progress.published req also with before | ⟨absent, -⟩
    · exact consistent.unique found running isPub before
    · exact absurd absent (consistent.recorded found isPub)
  constructor
  · intro other found signed isFound isSigned
    rcases cases_of_update isFound with ⟨-, rfl⟩ | isFound
    · rcases progress.signed signed isSigned with before | decodes
      · have decodes := consistent.decoded running before
        exact decodes
      · exact decodes
    · exact consistent.decoded isFound isSigned
  · intro other found req isFound isPub
    rcases cases_of_update isFound with ⟨-, rfl⟩ | isFound
    · rcases progress.published req isPub with before | ⟨-, present⟩
      · exact progress.present (consistent.recorded running before)
      · exact present
    · exact progress.present (consistent.recorded isFound isPub)
  · intro other found req isFound isSynced
    rcases cases_of_update isFound with ⟨-, rfl⟩ | isFound
    · rcases progress.synced req isSynced with before | ⟨pub, synced⟩
      · exact progress.stays_durable
          (consistent.recorded running (Stage.published_of_synced before))
          (consistent.durable running before)
      · rw [synced]
        exact progress.present (consistent.recorded running pub)
    · exact progress.stays_durable
        (consistent.recorded isFound (Stage.published_of_synced isSynced))
        (consistent.durable isFound isSynced)
  · intro first second firstCall secondCall req isFirst isSecond firstPub secondPub
    rcases cases_of_update isFirst with ⟨sameFirst, rfl⟩ | oldFirst
    · rcases cases_of_update isSecond with ⟨sameSecond, -⟩ | oldSecond
      · exact sameFirst.trans sameSecond.symm
      · exact sameFirst.trans (alone oldSecond secondPub firstPub).symm
    · rcases cases_of_update isSecond with ⟨sameSecond, rfl⟩ | oldSecond
      · exact (alone oldFirst firstPub secondPub).trans sameSecond.symm
      · exact consistent.unique oldFirst oldSecond firstPub secondPub
  · intro other found isFound isUntouched name mem
    by_cases same : other = id
    · cases same
      cases (update_self id _ state.calls).symm.trans isFound
      rcases progress.untouched isUntouched with ⟨before, same⟩
      rw [same] at mem
      exact consistent.unchanged running before name mem
    · rcases progress.changes _ mem with old | own
      · exact consistent.unchanged ((update_of_ne same _ _).symm.trans isFound) isUntouched name old
      · exact same own
  · intro other name mem absent
    by_cases same : other = id
    · simp [same] at absent
    · rcases progress.changes _ mem with old | own
      · exact consistent.known old ((update_of_ne same _ _).symm.trans absent)
      · exact same own

theorem Consistent.powerLoss (lost : Name → Bool) {files : Name → Option Bytes}
    (isFiles : ∀ name, files name =
      if lost name then state.store.durable name else state.store.files name) :
    Consistent postcard ⟨{ state.store with files, durable := files, lock := none },
      fun call => (state.calls call).map Call.stop⟩ := by
  -- What was synced survives.
  have survives {request : RequestId} (exist : state.store.files (.redeemed request) ≠ none)
      (isDurable : state.store.durable (.redeemed request) ≠ none) :
      files (.redeemed request) ≠ none := by
    rw [isFiles]
    split_ifs
    · exact isDurable
    · exact exist
  have older {id : CallId} {found : Call}
      (isFound : (state.calls id).map Call.stop = some found) :
      ∃ call, state.calls id = some call ∧ call.stop = found := by
    simpa using isFound
  have returns {id : CallId} {found : Call} {request : RequestId}
      (isFound : (state.calls id).map Call.stop = some found)
      (isPublished : found.stage.published = some request) :
      state.calls id = some found ∧ found.stage.synced = some request := by
    rcases older isFound with ⟨call, isCall, rfl⟩
    rcases Call.stop_published isPublished with ⟨same, synced⟩
    rw [same]
    exact ⟨isCall, synced⟩
  constructor
  · intro id found signed isFound isSigned
    rcases older isFound with ⟨call, isCall, rfl⟩
    rcases call.stop_stage with same | stopped
    · rw [same] at isSigned ⊢
      exact consistent.decoded isCall isSigned
    · rw [stopped] at isSigned
      cases isSigned
  · intro id found request isFound isPublished
    rcases returns isFound isPublished with ⟨isCall, synced⟩
    exact survives (consistent.recorded isCall isPublished) (consistent.durable isCall synced)
  · intro id found request isFound isSynced
    have isPublished := Stage.published_of_synced isSynced
    rcases returns isFound isPublished with ⟨isCall, synced⟩
    exact survives (consistent.recorded isCall isPublished) (consistent.durable isCall synced)
  · intro first second firstCall secondCall request isFirst isSecond firstPublished secondPublished
    exact consistent.unique (returns isFirst firstPublished).1 (returns isSecond secondPublished).1
      firstPublished secondPublished
  · intro id found isFound isUntouched name
    rcases older isFound with ⟨call, isCall, rfl⟩
    rcases call.stop_stage with same | stopped
    · rw [same] at isUntouched
      exact consistent.unchanged isCall isUntouched name
    · rw [stopped] at isUntouched
      cases isUntouched
  · intro id name mem absent
    exact consistent.known mem (by simpa using absent)

/-- Every step keeps the calls and the store consistent. -/
theorem Consistent.step {event : Event} (stepped : step postcard sha256 state event = some next) :
    Consistent postcard next := by
  rcases step_cases stepped with ⟨id, attempt, fresh, rfl⟩ |
    ⟨id, call, after, stage, running, progress, -, rfl⟩ | ⟨lost, files, -, isFiles, rfl⟩
  · exact consistent.begin attempt fresh
  · exact consistent.run running progress
  · exact consistent.powerLoss lost isFiles

end

theorem consistent_of_run {files : Name → Option Bytes} {events : List Event}
    (run : (system postcard sha256).exec (State.start files) events = some state) :
    Consistent postcard state := by
  apply (system postcard sha256).exec_invariant _ (Consistent.start files) run
  intro current event next consistent _ stepped
  exact consistent.step stepped

end Invariant

/-! ## Spent requests -/

section Spent

variable {postcard : Postcard} {sha256 : Bytes → Bytes} {lossy : Bool} {req : RequestId}
  {past : CallId → Prop} {state next : State}

/-- A record exists, synced where the machine may stop, and only past calls may return for
it. -/
structure Spent (lossy : Bool) (request : RequestId) (past : CallId → Prop) (state : State) :
    Prop where
  recorded : state.store.files (.redeemed request) ≠ none
  durable : lossy = true → state.store.durable (.redeemed request) ≠ none
  others : ∀ id call, state.calls id = some call → ¬ past id →
    call.stage.published ≠ some request

variable (spent : Spent lossy req past state)

include spent

theorem Spent.step {event : Event} (loses : event.isPowerLoss = true → lossy = true)
    (stepped : step postcard sha256 state event = some next) :
    Spent lossy req past next := by
  rcases step_cases stepped with ⟨id, attempt, fresh, rfl⟩ |
    ⟨id, call, after, stage, running, progress, -, rfl⟩ | ⟨lost, files, rfl, isFiles, rfl⟩
  · refine ⟨spent.recorded, spent.durable, fun other found isFound notPast isPublished => ?_⟩
    rcases cases_of_update isFound with ⟨-, rfl⟩ | old
    · cases isPublished
    · exact spent.others other found old notPast isPublished
  · refine ⟨progress.present spent.recorded,
      fun isLossy => progress.stays_durable spent.recorded (spent.durable isLossy),
      fun other found isFound notPast isPublished => ?_⟩
    rcases cases_of_update isFound with ⟨rfl, rfl⟩ | old
    · rcases progress.published req isPublished with before | ⟨absent, -⟩
      · exact spent.others other call running notPast before
      · exact spent.recorded absent
    · exact spent.others other found old notPast isPublished
  · have isDurable := spent.durable (loses rfl)
    have present : files (.redeemed req) ≠ none := by
      rw [isFiles]
      split_ifs
      · exact isDurable
      · exact spent.recorded
    refine ⟨present, fun _ => present, fun id found isFound notPast isPublished => ?_⟩
    have isStopped : ∃ call, state.calls id = some call ∧ call.stop = found := by
      simpa using isFound
    rcases isStopped with ⟨call, isCall, rfl⟩
    rcases Call.stop_published isPublished with ⟨same, -⟩
    rw [same] at isPublished
    exact spent.others id call isCall notPast isPublished

theorem Spent.exec {events : List Event}
    (loses : ∀ event ∈ events, event.isPowerLoss = true → lossy = true)
    (run : (system postcard sha256).exec state events = some next) :
    Spent lossy req past next := by
  induction events generalizing state with
  | nil =>
    cases run
    exact spent
  | cons event rest ih =>
    rw [forall_mem_cons] at loses
    rcases (system postcard sha256).exec_cons_eq_some_iff.mp run with ⟨-, middle, stepped, later⟩
    exact ih (spent.step loses.1 stepped) loses.2 later

end Spent

/-! ## The result -/

/-- The request that a call's directive carries. -/
def Call.Requests (postcard : Postcard) (call : Call) (request : RequestId) : Prop :=
  ∃ signed, Signed.decode postcard call.attempt.encoded = .ok signed ∧ signed.request = request

/-- How a call ended, where it has. -/
def Call.outcome (call : Call) : Option (Except Failure RequestId) :=
  match call.stage with
  | .failed failure => some (.error failure)
  | .succeeded signed => some (.ok signed.request)
  | _ => none

/-- A call that has returned what its directive allows. -/
def Call.Returned (call : Call) : Prop :=
  ∃ request, call.outcome = some (.ok request)

theorem Call.succeeded_of_returned {call : Call} (returned : call.Returned) :
    ∃ signed, call.stage = .succeeded signed := by
  rcases call with ⟨attempt, stage⟩
  rcases returned with ⟨req, ended⟩
  cases stage <;> first
    | exact ⟨_, rfl⟩
    | cases ended

/-- A call that returned has published the record of its request. -/
theorem Consistent.published_of_returned {postcard : Postcard} {state : State}
    (consistent : Consistent postcard state) {id : CallId} {call : Call} {request : RequestId}
    (found : state.calls id = some call) (requests : call.Requests postcard request)
    (returned : call.Returned) : call.stage.published = some request := by
  rcases requests with ⟨signed, decodes, rfl⟩
  rcases Call.succeeded_of_returned returned with ⟨other, atEnd⟩
  have otherDecodes : Signed.decode postcard call.attempt.encoded = .ok other :=
    consistent.decoded found (by rw [atEnd]; rfl)
  rw [decodes] at otherDecodes
  cases otherDecodes
  rw [atEnd]
  rfl

/-- In every run on a store, whatever stops in it: at most one call returns for a request; a
call that a check refuses before its record is published has changed nothing; every change of
the store is one of the call that makes it, or a loss when the machine stops; and once a
record exists, no later call returns for its request, unless the machine stops before the
record is synced. -/
theorem redeemed_at_most_once (postcard : Postcard) (sha256 : Bytes → Bytes)
    (files : Name → Option Bytes) (events : List Event) (state : State)
    (run : (system postcard sha256).exec (State.start files) events = some state) :
    (∀ id call other otherCall request, state.calls id = some call →
      state.calls other = some otherCall → call.Requests postcard request →
      otherCall.Requests postcard request → call.Returned → otherCall.Returned →
      id = other) ∧
    (∀ id call message, state.calls id = some call → call.stage = .failed (.refused message) →
      ∀ name, (id, name) ∉ state.store.changes) ∧
    (∀ event next name, (system postcard sha256).step state event = some next →
      next.store.files name ≠ state.store.files name → event.isPowerLoss = false →
      ∃ id input, event = .run id input ∧ (id, name) ∈ next.store.changes) ∧
    ∀ request, state.store.files (.redeemed request) ≠ none →
      ∀ later next, (system postcard sha256).exec state later = some next →
      ((∀ event ∈ later, event.isPowerLoss = false) ∨
        state.store.durable (.redeemed request) ≠ none) →
      ∀ id call, state.calls id = none → next.calls id = some call →
        call.Requests postcard request → ¬ call.Returned := by
  have consistent := consistent_of_run run
  refine ⟨?_, ?_, ?_, ?_⟩
  · intro id call other otherCall request found otherFound requests otherRequests returned
      otherReturned
    exact consistent.unique found otherFound
      (consistent.published_of_returned found requests returned)
      (consistent.published_of_returned otherFound otherRequests otherReturned)
  · intro id call message found refused
    exact consistent.unchanged found (by rw [refused]; rfl)
  · intro event next name stepped changed noLoss
    rcases step_cases stepped with ⟨id, attempt, -, rfl⟩ |
      ⟨id, call, after, stage, -, progress, same | ⟨input, isRun⟩, rfl⟩ | ⟨lost, files, rfl, -⟩
    · exact absurd rfl changed
    · exact absurd (congrFun same name) changed
    · exact ⟨id, input, isRun, progress.logged name changed⟩
    · cases noLoss
  · intro request exist later next laterRun safe id call absent found requests returned
    have ends : (system postcard sha256).exec (State.start files) (events ++ later) =
        some next := by
      rw [System.exec_append, run]
      exact laterRun
    have published :=
      (consistent_of_run ends).published_of_returned found requests returned
    have notPast : ¬ state.calls id ≠ none := not_not.mpr absent
    rcases safe with noLoss | isDurable
    · have spent : Spent false request (fun id => state.calls id ≠ none) state :=
        ⟨exist, nofun, fun other call isFound isPast => absurd (by rw [isFound]; simp) isPast⟩
      have after := spent.exec (fun event mem lost => by rw [noLoss event mem] at lost; exact lost)
        laterRun
      exact after.others id call found notPast published
    · have spent : Spent true request (fun id => state.calls id ≠ none) state :=
        ⟨exist, fun _ => isDurable,
          fun other call isFound isPast => absurd (by rw [isFound]; simp) isPast⟩
      have after := spent.exec (fun _ _ _ => rfl) laterRun
      exact after.others id call found notPast published

/-! ## Runs of one directive -/

/-- The signature part of a signed directive, with an empty key and signature. -/
def leastSignature : Bytes :=
  canonicalSshsigArmor (ascii "SSHSIG" ++ [0, 0, 0, 1])

/-- An attempt with the least directive, which every key signs and every rule allows. -/
def Attempt.least : Attempt where
  encoded := frame (Directive.code.encode Directive.least) leastSignature
  context :=
    { enrollmentId := Directive.least.binding.enrollment, generation := 0, targetLogin := "me"
      build := "1", clock := ⟨1, 0⟩, clockSkewSeconds := 0 }
  signer _ _ _ := .ok ()
  derive _ := .ok ()

/-- A call that does its steps up to a point without failure. -/
def undisturbed (id steps : Nat) : List Event :=
  .begin id .least :: List.replicate steps (.run id {})

/-- The end of a run of such attempts on an empty store. -/
def runLeast (events : List Event) : Option State :=
  (system Directive.postcard fun _ => []).exec (State.start fun _ => none) events

theorem runLeast_eq_some {α : Type} {events : List Event} {view : State → α} {value : α}
    (seen : (runLeast events).map view = some value) :
    ∃ state, runLeast events = some state ∧ view state = value :=
  Option.map_eq_some_iff.mp seen

/-- A call returns, and no later call returns for its request. -/
theorem redeemed_at_most_once_for_least :
    ∃ state call, runLeast (undisturbed 0 15) = some state ∧ state.calls 0 = some call ∧
      call.Returned ∧
      ∀ later next id other,
        (system Directive.postcard fun _ => []).exec state later = some next →
        state.calls id = none → next.calls id = some other →
        other.Requests Directive.postcard Directive.least.requestId → ¬ other.Returned := by
  have seen : (runLeast (undisturbed 0 15)).map (fun state =>
      ((state.calls 0).map Call.outcome,
        (state.store.files (.redeemed Directive.least.requestId)).isSome,
        (state.store.durable (.redeemed Directive.least.requestId)).isSome)) =
      some (some (some (.ok Directive.least.requestId)), true, true) := by
    decide +kernel
  rcases runLeast_eq_some seen with ⟨state, run, view⟩
  rw [Prod.mk.injEq, Prod.mk.injEq, map_eq_some_iff, isSome_iff_ne_none, isSome_iff_ne_none] at view
  rcases view with ⟨⟨call, found, ended⟩, exist, isDurable⟩
  refine ⟨state, call, run, found, ⟨_, ended⟩, ?_⟩
  intro later next id other laterRun
  exact (redeemed_at_most_once _ _ _ _ state run).2.2.2 _ exist later next laterRun
    (.inr isDurable) id other

/-- A call that publishes its record and is then too late fails in a time check although it
recorded its request.  A record that is lost before it was synced lets a later call return. -/
theorem late_call_records_and_loss_forgets :
    (∃ state call, runLeast (undisturbed 0 14 ++ [.run 0 { now := 5000000000 }]) = some state ∧
      state.calls 0 = some call ∧
      call.outcome = some (.error (.late "the directive's start-by time has passed")) ∧
      state.store.files (.redeemed Directive.least.requestId) ≠ none) ∧
    ∃ before after call, runLeast (undisturbed 0 11) = some before ∧
      before.store.files (.redeemed Directive.least.requestId) ≠ none ∧
      before.calls 1 = none ∧
      (system Directive.postcard fun _ => []).exec before
        (.powerLoss (fun _ => true) :: undisturbed 1 15) = some after ∧
      after.calls 1 = some call ∧
      call.outcome = some (.ok Directive.least.requestId) := by
  constructor
  · have seen : (runLeast (undisturbed 0 14 ++ [.run 0 { now := 5000000000 }])).map (fun state =>
        ((state.calls 0).map Call.outcome,
          (state.store.files (.redeemed Directive.least.requestId)).isSome)) =
        some (some (some (.error (.late "the directive's start-by time has passed"))), true) := by
      decide +kernel
    rcases runLeast_eq_some seen with ⟨state, run, view⟩
    rw [Prod.mk.injEq, map_eq_some_iff, isSome_iff_ne_none] at view
    rcases view with ⟨⟨call, found, ended⟩, exist⟩
    exact ⟨state, call, run, found, ended, exist⟩
  · have seen : (runLeast (undisturbed 0 11)).map (fun state =>
        ((state.store.files (.redeemed Directive.least.requestId)).isSome, (state.calls 1).isNone,
          ((system Directive.postcard fun _ => []).exec state
            (.powerLoss (fun _ => true) :: undisturbed 1 15)).bind fun after =>
              (after.calls 1).map Call.outcome)) =
        some (true, true, some (some (.ok Directive.least.requestId))) := by
      decide +kernel
    rcases runLeast_eq_some seen with ⟨before, run, view⟩
    rw [Prod.mk.injEq, Prod.mk.injEq, isSome_iff_ne_none, isNone_iff_eq_none,
      bind_eq_some_iff] at view
    rcases view with ⟨exist, fresh, after, laterRun, isCall⟩
    rcases map_eq_some_iff.mp isCall with ⟨call, found, ended⟩
    exact ⟨before, after, call, run, exist, fresh, laterRun, found, ended⟩

end Syq.Delegation
