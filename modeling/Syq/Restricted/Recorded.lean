import Syq.Restricted.InFlight

/-!
# What started results record

Results that start late could leave changes out, so they start only while nothing has
been recorded.  From then on every settlement reports its outcomes to them and every
refusal is listed, whatever the other connections do in between.  What a refusal lists is
classified before it is recorded: results that start in between are told of the refusal
without the paths.
-/

namespace Syq.Restricted

open Syq.Lib Syq.Results Signed AuthorityState List Option

/-! ## What a refusal lists -/

def Op.path : Op → Path
  | .mkdir path | .symlink path | .mknod path | .hardlink path _ | .setMeta path _
  | .setFileMetaIfSame path | .rmdir path | .unlink path | .remove path => path

/-- The destination paths a request asks to change: those of its operations, the directories
it widens and the files it writes. -/
def Request.asked : Request → List Path
  | .apply ops => ops.map Op.path
  | .widenDirectories directories => directories
  | .putSmallBatch puts => puts.map SmallPut.path
  | .prepareSmallFiles files => files.map SmallCopyFile.path
  | .patchSmallBatch patches => patches.map SmallPatch.path
  | .patchBegin patch _ => [patch.path]
  | .finishBasis path => [path]
  | request => ((fileKey request).map Prod.fst).toList

variable {signed : Signed} {path : Path} {state : AuthorityState}

/-- All paths a request asks to change are listed, except those of directories to widen. -/
theorem requestedChanges_paths {req : Request}
    (noWidening : ∀ directories, req ≠ .widenDirectories directories) :
    (requestedChanges signed req).map Prod.fst =
      req.asked.map fun path => signed.resultPath path false := by
  cases req with
  | apply ops =>
    simp only [requestedChanges, Request.asked, List.map_map]
    refine map_congr_left fun op _ => ?_
    cases op <;> rfl
  | widenDirectories directories => exact absurd rfl (noWidening directories)
  | putSmallBatch | prepareSmallFiles | patchSmallBatch =>
    simp only [requestedChanges, Request.asked, List.map_map]
    rfl
  | _ => rfl

/-! ## What a settlement reports -/

/-- What the results are told of a settled outcome, once they have started: of a file
being written only its publication, with the size noted for it. -/
def Signed.report (signed : Signed) (response : Response) (state : AuthorityState) :
    PendingOutcome → Option ResultsCall
  | .patch index path _ size _ => signed.patchReport response index path size
  | .metadata index path kind =>
    signed.failureReport response index path (.setMetadata (kind.getD (signed.kindAt path)))
  | .logicalIfFailed index path change => signed.failureReport response index path change
  | .smallCopy index path size => signed.smallCopyReport response index path size
  | .logical index path change => signed.logicalReport response state.created index path change
  | .fileStage index path copyId _ stage skipIfAbsent _ =>
    if stage = .finalize ∧ outcomeError response index = none ∧
        stageAbsent response skipIfAbsent = false then
      (state.fileLifecycles.lookup (path, copyId)).bind fun lifecycle =>
        signed.changeReport path (.publishFile lifecycle.size) none
    else none

/-- What a settlement does not report: a metadata change or a link already in place that
succeeded; a file of a small copy that was not published or needed no change; a change
declined in place or kept by the policy; the directory the copy goes into; every stage of
a file but the publication of one that was noted. -/
def Signed.Unreported (signed : Signed) (response : Response) (state : AuthorityState) :
    PendingOutcome → Prop
  | .patch _ _ _ _ _ => False
  | .metadata index _ _ | .logicalIfFailed index _ _ =>
    declined response index = true ∨ outcomeError response index = none
  | .smallCopy index _ _ => ∀ results result,
      response = .smallFilesCopied (.published results) → results[index]? = some result →
      result.disposition = .excluded ∨ result.disposition ≠ .copied ∧ result.repaired = false
  | .logical index path change =>
    declined response index = true ∨
    (change.isCreation = true ∧
      signed.keptByPolicy state.created path false (outcomeWire response index) = true) ∨
    (change = .ensureDirectory ∧ outcomeError response index = none ∧
      path = signed.destination ∧ signed.exactPath = false)
  | .fileStage index path copyId _ stage skipIfAbsent _ =>
    stage ≠ .finalize ∨ outcomeError response index ≠ none ∨
    stageAbsent response skipIfAbsent = true ∨
    state.fileLifecycles.lookup (path, copyId) = none

theorem Signed.changeReport_eq_none_iff {change : Change} {error : Option Failure} :
    signed.changeReport path change error = none ↔
      change = .ensureDirectory ∧ error = none ∧ path = signed.destination ∧
        signed.exactPath = false := by
  unfold changeReport
  split
  · rename_i unlisted
    exact iff_of_true rfl unlisted
  · rename_i listed
    exact iff_of_false nofun listed

variable {resp : Response} {index : Nat}

theorem Signed.failureReport_eq_none_iff {change : Change} :
    signed.failureReport resp index path change = none ↔
      declined resp index = true ∨ outcomeError resp index = none := by
  unfold failureReport
  cases declined resp index with
  | true => simp
  | false =>
    cases outcomeError resp index with
    | none => simp
    | some error => simp [changeReport_eq_none_iff]

theorem Signed.smallCopyReport_eq_none_iff {size : Nat} :
    signed.smallCopyReport resp index path size = none ↔ ∀ results result,
      resp = .smallFilesCopied (.published results) → results[index]? = some result →
      result.disposition = .excluded ∨
        result.disposition ≠ .copied ∧ result.repaired = false := by
  unfold smallCopyReport
  split
  · rename_i results
    rw [bind_eq_none_iff]
    constructor
    · rintro none results' ⟨disposition, error, repaired⟩ ⟨⟩ found
      have told := none _ found
      cases disposition <;> cases repaired <;> simp_all [changeReport_eq_none_iff]
    · rintro unreported ⟨disposition, error, repaired⟩ found
      have told := unreported results _ rfl found
      cases disposition <;> cases repaired <;> simp_all
  · rename_i other
    exact iff_of_true rfl fun results result pub => absurd pub (other results)

theorem Signed.report_eq_none_iff {outcome : PendingOutcome} :
    signed.report resp state outcome = none ↔ signed.Unreported resp state outcome := by
  cases outcome with
  | patch index path copyId size hold =>
    refine iff_of_false ?_ id
    unfold report patchReport
    dsimp only
    split
    · split
      · nofun
      · simp [changeReport_eq_none_iff]
    · rw [changeReport_eq_none_iff]
      split <;> simp
  | metadata index path kind => exact failureReport_eq_none_iff
  | logicalIfFailed index path change => exact failureReport_eq_none_iff
  | smallCopy index path size => exact smallCopyReport_eq_none_iff
  | logical index path change =>
    dsimp only [report, logicalReport, Signed.Unreported]
    cases declined resp index with
    | true => simp
    | false =>
      simp only [Bool.false_eq_true, if_false, false_or, Bool.and_eq_true]
      split
      · rename_i kept
        exact iff_of_true rfl (.inl kept)
      · rename_i made
        rw [changeReport_eq_none_iff, or_iff_right made]
  | fileStage index path copyId size stage skipIfAbsent observationHold =>
    dsimp only [report, Signed.Unreported]
    split
    · rename_i pub
      cases state.fileLifecycles.lookup (path, copyId) with
      | none => simp
      | some lifecycle => simp [pub, changeReport_eq_none_iff]
    · rename_i other
      refine iff_of_true rfl ?_
      by_contra none
      push Not at none
      exact other ⟨none.1, none.2.1, Bool.eq_false_of_not_eq_true none.2.2.1⟩

namespace AuthorityState

/-- The results are told `calls`, if they have started. -/
def Told (calls : List ResultsCall) (state next : AuthorityState) : Prop :=
  next.results = state.results.map (· ++ calls)

namespace Told

variable {next last : AuthorityState} {calls more : List ResultsCall}

theorem nothing (same : next.results = state.results) : Told [] state next := by
  unfold Told
  rw [same]
  cases state.results <;> simp

theorem trans (first : Told calls state next) (second : Told more next last) :
    Told (calls ++ more) state last := by
  unfold Told at *
  rw [second, first]
  cases state.results <;> simp

theorem tellReport (state : AuthorityState) (report : Option ResultsCall) :
    Told report.toList state (state.tellReport report) := by
  cases report with
  | none => exact nothing rfl
  | some call => rfl

theorem settlePatchHold {copyId : CopyId} {hold : Option Nat}
    (settled : state.settlePatchHold resp index path copyId hold = some next) :
    next.results = state.results := by
  unfold AuthorityState.settlePatchHold at settled
  split at settled
  · cases settled
    rfl
  · rcases bind_eq_some_iff.mp settled with ⟨ledger, -, result⟩
    cases result
    rfl

theorem settleStageHold {key : FileKey} {skipIfAbsent : Bool} {observationHold : Option Nat}
    (settled : state.settleStageHold resp key skipIfAbsent observationHold = some next) :
    next.results = state.results ∧ next.fileLifecycles = state.fileLifecycles := by
  unfold AuthorityState.settleStageHold at settled
  split at settled
  · cases settled
    exact ⟨rfl, rfl⟩
  · rcases map_eq_some_iff.mp settled with ⟨ledger, -, result⟩
    cases result
    exact ⟨rfl, rfl⟩

/-- The publication of a noted file is reported. -/
theorem trackLifecycle_published (state : AuthorityState) (key : FileKey) (size : Option Nat) :
    Told ((state.fileLifecycles.lookup key).bind fun lifecycle =>
        signed.changeReport key.1 (.publishFile lifecycle.size) none).toList state
      (state.trackLifecycle signed key size .finalize none) := by
  unfold trackLifecycle
  cases state.fileLifecycles.lookup key with
  | none => exact nothing rfl
  | some lifecycle => exact tellReport _ _

theorem recordStage (resp : Response) (state : AuthorityState) (index : Nat) (path : Path)
    (copyId : CopyId) (size : Option Nat) (stage : FileStage) (skipIfAbsent : Bool)
    (observationHold : Option Nat) (started : state.results.isSome = true) :
    Told (signed.report resp state
        (.fileStage index path copyId size stage skipIfAbsent observationHold)).toList state
      (state.recordStage signed resp index (path, copyId) size stage skipIfAbsent) := by
  have ended : ∀ done, (state.endStage (path, copyId) done).results = state.results ∧
      (state.endStage (path, copyId) done).fileLifecycles = state.fileLifecycles := by
    intro done
    cases done <;> exact ⟨rfl, rfl⟩
  by_cases pub : stage = .finalize ∧ outcomeError resp index = none
  · obtain ⟨rfl, noError⟩ := pub
    have running : (state.endStage (path, copyId) true).results.isNone = false := by
      rw [(ended true).1]
      simpa using started
    cases absent : stageAbsent resp skipIfAbsent with
    | true =>
      simpa [AuthorityState.recordStage, report, noError, absent] using
        nothing (ended true).1
    | false =>
      have told := @trackLifecycle_published signed (state.endStage (path, copyId) true)
        (path, copyId) size
      rw [(ended true).2] at told
      simpa [AuthorityState.recordStage, report, noError, absent, stageRefused, running]
        using (nothing (ended true).1).trans told
  · have unreported : signed.report resp state
        (.fileStage index path copyId size stage skipIfAbsent observationHold) = none :=
      if_neg fun both => pub ⟨both.1, both.2.1⟩
    rw [unreported]
    unfold AuthorityState.recordStage
    dsimp only
    split
    · exact nothing (ended _).1
    · split
      · exact nothing (ended _).1
      · exact (nothing (ended _).1).trans (by
          unfold trackLifecycle
          split
          · exact absurd ⟨rfl, ‹_›⟩ pub
          · exact nothing rfl)

theorem settleOutcome {outcome : PendingOutcome} (started : state.results.isSome = true)
    (settled : state.settleOutcome signed resp outcome = some next) :
    Told (signed.report resp state outcome).toList state next := by
  cases outcome with
  | patch index path copyId size hold =>
    rcases bind_eq_some_iff.mp settled with ⟨held, heldEq, result⟩
    cases result
    exact (nothing (settlePatchHold heldEq)).trans (tellReport _ _)
  | fileStage index path copyId size stage skipIfAbsent observationHold =>
    rcases bind_eq_some_iff.mp settled with ⟨held, heldEq, result⟩
    cases result
    rcases settleStageHold heldEq with ⟨results, lifecycles⟩
    have same : signed.report resp state
        (.fileStage index path copyId size stage skipIfAbsent observationHold) =
      signed.report resp held
        (.fileStage index path copyId size stage skipIfAbsent observationHold) := by
      simp only [report, lifecycles]
    rw [same]
    exact (nothing results).trans (recordStage _ _ _ _ _ _ _ _ _ (results ▸ started))
  | smallCopy | metadata | logicalIfFailed | logical =>
    cases settled
    exact tellReport _ _

theorem settleOutcomes_append (resp : Response) (state : AuthorityState)
    (first second : List PendingOutcome) :
    state.settleOutcomes signed resp (first ++ second) =
      (state.settleOutcomes signed resp first).bind fun middle =>
        middle.settleOutcomes signed resp second := by
  induction first generalizing state with
  | nil => rfl
  | cons outcome rest ih =>
    simp only [cons_append, settleOutcomes, bind_eq_bind, bind_assoc, ih]

/-- The results are told every report of a settlement's outcomes. -/
theorem settleOutcomes {outcomes : List PendingOutcome} (started : state.results.isSome = true)
    (settled : state.settleOutcomes signed resp outcomes = some next) :
    ∃ calls, Told calls state next ∧
      ∀ earlier outcome later middle, outcomes = earlier ++ outcome :: later →
        state.settleOutcomes signed resp earlier = some middle →
        ∀ call ∈ signed.report resp middle outcome, call ∈ calls := by
  induction outcomes generalizing state with
  | nil =>
    cases settled
    refine ⟨[], nothing rfl, ?_⟩
    intro earlier outcome later middle split
    exact absurd split.symm (by simp)
  | cons first rest ih =>
    rcases bind_eq_some_iff.mp settled with ⟨second, firstEq, tail⟩
    have kept := SameCounts.settleOutcome firstEq
    rcases ih (kept.started.trans started) tail with ⟨calls, told, reported⟩
    refine ⟨_, (settleOutcome started firstEq).trans told, ?_⟩
    intro earlier outcome later middle split middleEq call mem
    cases earlier with
    | nil =>
      cases split
      cases middleEq
      exact mem_append_left _ (mem_toList.mpr mem)
    | cons head earlier =>
      cases split
      rcases bind_eq_some_iff.mp middleEq with ⟨second', firstEq', tail'⟩
      rw [firstEq] at firstEq'
      cases firstEq'
      exact mem_append_right _ (reported earlier outcome later middle rfl tail' call mem)

end Told

/-! ## Results only grow -/

/-- What the results were told before stays told. -/
def Grows (state next : AuthorityState) : Prop :=
  ∀ calls, state.results = some calls → ∃ more, next.results = some (calls ++ more)

namespace Grows

variable {next last : AuthorityState}

theorem refl (state : AuthorityState) : Grows state state :=
  fun calls told => ⟨[], by simpa using told⟩

theorem trans (first : Grows state next) (second : Grows next last) : Grows state last := by
  intro calls told
  rcases first calls told with ⟨more, nextTold⟩
  rcases second _ nextTold with ⟨rest, lastTold⟩
  exact ⟨more ++ rest, by rw [lastTold, append_assoc]⟩

theorem of_told {calls : List ResultsCall} (told : Told calls state next) : Grows state next := by
  intro before startedWith
  exact ⟨calls, by rw [told, startedWith]; rfl⟩

theorem same (results : next.results = state.results) : Grows state next :=
  of_told (.nothing results)

theorem mem {calls later : List ResultsCall} (grows : Grows state next)
    (told : state.results = some calls) (lastTold : next.results = some later)
    {call : ResultsCall} (mem : call ∈ calls) : call ∈ later := by
  rcases grows calls told with ⟨more, nextTold⟩
  rw [lastTold] at nextTold
  cases nextTold
  exact mem_append_left _ mem

end Grows

theorem results_settleCreations (resp : Response) (state : AuthorityState)
    (creations : List PendingCreation) :
    (state.settleCreations resp creations).results = state.results := by
  induction creations generalizing state with
  | nil => rfl
  | cons creation rest ih =>
    exact ih _

/-- A refusal is told to results that have started, unless it keeps what is there. -/
theorem told_recordRefusal {next : AuthorityState} {req : Request} {refusal : Refusal}
    {changes : List (Option Path × Change)}
    (recorded : state.recordRefusal req refusal changes = some next) :
    Told (if refusal.kept then [] else [.refused ("refused: " ++ refusal.message) changes]) state
      next := by
  rcases bind_eq_some_iff.mp recorded with ⟨inFlight, -, result⟩
  cases result
  change (state.noteRefusal req refusal changes).results = _
  unfold noteRefusal endRefusedLifecycles
  cases refusal.kept with
  | true =>
    simp only [if_true]
    split <;> exact Told.nothing rfl
  | false =>
    simp only [Bool.false_eq_true, if_false]
    split
    · split
      · rfl
      · split <;> rfl
    · rename_i notStarted
      cases results : state.results with
      | none => rfl
      | some calls => simp [results] at notStarted

end AuthorityState

namespace Due

variable {next : AuthorityState} {due : Due}

/-- The response a settlement is settled with. -/
def response (due : Due) : Response :=
  match due.closing with
  | .executed response => response
  | .unexecuted reason => .err reason

/-- The state in which the outcomes of a settlement are reported. -/
def begun (state : AuthorityState) (due : Due) : Option AuthorityState := do
  let refund := match due.closing with
    | .executed response => due.settlement.charged.refund response
    | .unexecuted _ => due.settlement.charged.unexecuted
  let budget ← state.budget.giveBack due.settlement.charged refund
  { state with budget }.beginSettle due.settlement due.response

/-- A settlement has nothing to report, or reports its outcomes in order. -/
theorem settle_cases (settled : due.settle signed state = some next) :
    (due.settlement.outcomes = [] ∧ next.results = state.results) ∨
      ∃ begun, due.begun state = some begun ∧ begun.results = state.results ∧
        begun.settleOutcomes signed due.response due.settlement.outcomes = some next := by
  have locked : ∀ {budget resp}, { state with budget }.settleLocked signed due.settlement
      resp = some next → (due.settlement.outcomes = [] ∧ next.results = state.results) ∨
      ∃ begun, { state with budget }.beginSettle due.settlement resp = some begun ∧
        begun.results = state.results ∧
        begun.settleOutcomes signed resp due.settlement.outcomes = some next := by
    intro budget resp settled
    unfold settleLocked at settled
    split at settled
    · rename_i nothing
      cases settled
      simp only [Bool.and_eq_true, List.isEmpty_iff] at nothing
      exact .inl ⟨nothing.1.2, rfl⟩
    · rcases Option.bind_eq_some_iff.mp settled with ⟨begun, begunEq, outcomes⟩
      refine .inr ⟨begun, begunEq, ?_, outcomes⟩
      rcases Option.bind_eq_some_iff.mp begunEq with ⟨inFlight, -, result⟩
      cases result
      exact results_settleCreations _ _ _
  rcases due with ⟨id, settlement, resp | reason⟩
  all_goals
    rcases Option.bind_eq_some_iff.mp settled with ⟨budget, given, rest⟩
    rcases locked rest with nothing | ⟨begun, begunEq, same, outcomes⟩
    · exact .inl nothing
    · exact .inr ⟨begun, Option.bind_eq_some_iff.mpr ⟨budget, given, begunEq⟩, same, outcomes⟩

/-- Settling only adds to the results. -/
theorem grows_settle (settled : due.settle signed state = some next) : Grows state next := by
  cases started : state.results with
  | none =>
    intro calls told
    rw [started] at told
    cases told
  | some calls =>
    rcases settle_cases settled with ⟨-, same⟩ | ⟨begun, -, same, outcomes⟩
    · exact .same same
    · have running : begun.results.isSome = true := by rw [same, started]; rfl
      rcases Told.settleOutcomes running outcomes with ⟨calls, told, -⟩
      exact (Grows.same same).trans (.of_told told)

end Due

/-! ## Over whole runs -/

/-- Something was recorded before the results could start: they never do. -/
def AuthorityState.Late (state : AuthorityState) : Prop :=
  state.recordedAny = true ∧ state.results = none

/-- Results that are found started had started before anything was recorded. -/
theorem AuthorityState.running_of_recorded {last : AuthorityState} {calls : List ResultsCall}
    (late : state.Late → last.Late) (started : last.results = some calls)
    (recorded : state.recordedAny = true) : state.results.isSome = true := by
  cases notStarted : state.results with
  | some calls => rfl
  | none =>
    have never := (late ⟨recorded, notStarted⟩).2
    rw [started] at never
    cases never

theorem AuthorityState.Late.of_counts {next : AuthorityState} {more : Bool}
    (any : next.recordedAny = (state.recordedAny || more))
    (started : next.results.isSome = state.results.isSome) (late : state.Late) : next.Late := by
  rcases late with ⟨recorded, notStarted⟩
  constructor
  · rw [any, recorded, Bool.true_or]
  · rw [notStarted] at started
    exact not_isSome_iff_eq_none.mp (by simp [started])

namespace Connection

variable {counted : Nat} {conn : Connection}

/-- What one event of a connection does to the results. -/
theorem step_results {event : ConnectionEvent} {moved : Moved}
    (stepEq : conn.step signed state counted event = some moved) :
    Grows state moved.state ∧ (state.Late → moved.state.Late) := by
  have stays : ∀ {next}, (some ⟨state, next, none, none⟩ : Option Moved) = some moved →
      Grows state moved.state ∧ (state.Late → moved.state.Late) := by
    rintro next ⟨⟩
    exact ⟨.refl _, id⟩
  unfold step at stepEq
  split at stepEq
  case h_1 =>
    split at stepEq
    · exact stays stepEq
    · cases stepEq
  case h_2 =>
    split at stepEq
    · exact stays stepEq
    · rename_i admitted admittedEq
      cases stepEq
      obtain ⟨-, -, rfl⟩ := admission_ok admittedEq
      exact ⟨.same rfl, id⟩
  case h_5 =>
    split at stepEq
    · cases stepEq
    · exact stays stepEq
  case h_6 =>
    rcases bind_eq_some_iff.mp stepEq with ⟨after, recorded, result⟩
    cases result
    rcases recordRefusal_counts recorded with ⟨-, -, any, started⟩
    exact ⟨.of_told (told_recordRefusal recorded), .of_counts any started⟩
  case h_9 =>
    rcases bind_eq_some_iff.mp stepEq with ⟨next, settled, result⟩
    cases result
    have counted := Due.counted_settle settled
    exact ⟨Due.grows_settle settled, .of_counts counted.recordedAny counted.started⟩
  case h_12 => cases stepEq
  all_goals exact stays stepEq

end Connection

namespace AuthorityState

theorem grows_endResults (signed : Signed) (state : AuthorityState)
    (unfinished : List (FileKey × FileLifecycle)) :
    Grows state (state.endResults signed unfinished) := by
  unfold endResults
  have emptied : Grows state { state with fileLifecycles := ∅ } := .same rfl
  exact List.foldlRecOn _ _ emptied fun told before _ _ =>
    before.trans (.of_told (Told.tellReport told (some _)))

end AuthorityState

namespace Session

variable {session next last : Session}
variable {calls : List ResultsCall} {req : Request} {refusal : Refusal}
variable {changes : List (Option Path × Change)}

/-- What one event of a session does to the results. -/
theorem step_results {event : SessionEvent} (stepEq : session.step signed event = some next) :
    Grows session.state next.state ∧ (session.state.Late → next.state.Late) := by
  have same : ∀ {other : AuthorityState}, other.results = session.state.results →
      other.recordedAny = session.state.recordedAny →
      Grows session.state other ∧ (session.state.Late → other.Late) := by
    intro other results recorded
    refine ⟨.same results, ?_⟩
    rintro ⟨any, notStarted⟩
    exact ⟨recorded.trans any, results.trans notStarted⟩
  cases event with
  | connect =>
    cases stepEq
    exact same rfl rfl
  | on index event =>
    rcases bind_eq_some_iff.mp stepEq with ⟨connection, -, rest⟩
    rcases bind_eq_some_iff.mp rest with ⟨moved, movedEq, result⟩
    cases result
    exact Connection.step_results movedEq
  | touch created provisional budget tcpListenerStarted =>
    cases stepEq
    exact same rfl rfl
  | startResults =>
    unfold step at stepEq
    dsimp only at stepEq
    split at stepEq
    · rename_i state startedEq
      cases stepEq
      constructor
      · intro calls told
        unfold startResults at startedEq
        rw [told] at startedEq
        split at startedEq <;> cases startedEq
      · intro late
        rw [startResults, if_pos (by rw [late.1, Bool.true_or])] at startedEq
        cases startedEq
    · cases stepEq
      exact same rfl rfl
  | finishResults =>
    unfold step at stepEq
    dsimp only at stepEq
    split at stepEq
    · rename_i state closingEq
      cases stepEq
      obtain rfl := beginFinish_ok closingEq
      exact same rfl rfl
    · cases stepEq
      exact same rfl rfl
  | sealEnd unfinished =>
    unfold step at stepEq
    dsimp only at stepEq
    split at stepEq
    · cases stepEq
      have counts := endResults_counts signed session.state unfinished
      have any := counts.recordedAny.trans (Bool.or_false _).symm
      exact ⟨grows_endResults _ _ _, .of_counts any counts.started⟩
    · cases stepEq

/-- What the rest of a run does to the results. -/
theorem run_results {events : List SessionEvent}
    (run : (sessionSystem signed).exec session events = some last) :
    Grows session.state last.state ∧ (session.state.Late → last.state.Late) := by
  apply @System.exec_invariant _ _ (sessionSystem signed) (fun other =>
    Grows session.state other.state ∧ (session.state.Late → other.state.Late)) _ _ _ _ _ run
  · rintro state event next ⟨grows, late⟩ - stepEq
    have stepped := step_results stepEq
    exact ⟨grows.trans stepped.1, stepped.2 ∘ late⟩
  · exact ⟨.refl _, id⟩

/-- A settlement leaves out nothing but what is not reported, if the results start at any
time: those that start find nothing settled before. -/
theorem settled_recorded {due : Due} (settled : due.settle signed session.state = some state)
    (grows : Grows state last.state) (late : state.Late → last.state.Late)
    (started : last.state.results = some calls) :
    ∀ earlier outcome later, due.settlement.outcomes = earlier ++ outcome :: later →
      ∃ ready middle, due.begun session.state = some ready ∧
        ready.settleOutcomes signed due.response earlier = some middle ∧
        (¬ signed.Unreported due.response middle outcome →
          ∃ call, signed.report due.response middle outcome = some call ∧ call ∈ calls) := by
  intro earlier outcome later split
  have counted := Due.counted_settle settled
  have recorded : state.recordedAny = true := by
    rw [counted.recordedAny, split]
    simp
  have running := counted.started.symm.trans (running_of_recorded late started recorded)
  rcases Due.settle_cases settled with ⟨nothing, -⟩ | ⟨ready, readyEq, same, outcomes⟩
  · rw [split] at nothing
    exact absurd nothing (by simp)
  · rcases Told.settleOutcomes (same ▸ running) outcomes with ⟨told, toldEq, reported⟩
    rw [split, Told.settleOutcomes_append] at outcomes
    rcases bind_eq_some_iff.mp outcomes with ⟨middle, middleEq, -⟩
    refine ⟨ready, middle, readyEq, middleEq, ?_⟩
    intro reportable
    rcases ne_none_iff_exists'.mp (report_eq_none_iff.not.mpr reportable) with
      ⟨call, callEq⟩
    refine ⟨call, callEq, ?_⟩
    rcases isSome_iff_exists.mp (same ▸ running) with ⟨before, beforeEq⟩
    have stateTold : state.results = some (before ++ told) := by rw [toldEq, beforeEq]; rfl
    exact grows.mem stateTold started
      (mem_append_right _ (reported earlier outcome later middle split middleEq call callEq))

/-- A refusal is recorded if the results start at any time, unless it keeps what is
there. -/
theorem refused_recorded (kept : refusal.kept = false)
    (recorded : session.state.recordRefusal req refusal changes = some state)
    (grows : Grows state last.state) (late : state.Late → last.state.Late)
    (started : last.state.results = some calls) :
    .refused ("refused: " ++ refusal.message) changes ∈ calls := by
  rcases recordRefusal_counts recorded with ⟨-, -, any, same⟩
  have recordedAny : state.recordedAny = true := by simp [any, kept]
  have running := same.symm.trans (running_of_recorded late started recordedAny)
  rcases isSome_iff_exists.mp running with ⟨before, beforeEq⟩
  have told := told_recordRefusal recorded
  rw [kept, Told, beforeEq] at told
  exact grows.mem told started (mem_append_right _ mem_cons_self)

/-- A connection keeps to a refusal it has classified until it is recorded. -/
theorem classified_step {conn : Connection} {event : SessionEvent}
    {id : Option Nat} {step : StreamStep} (connEq : session.connections[index]? = some conn)
    (refusing : conn.phase = .refusing id req refusal step (some changes))
    (stepEq : session.step signed event = some next) :
    next.connections[index]? = some conn ∨
      ∃ state, session.state.recordRefusal req refusal changes = some state ∧
        next.state = state := by
  cases event with
  | on other event =>
    rcases bind_eq_some_iff.mp stepEq with ⟨found, foundEq, rest⟩
    rcases bind_eq_some_iff.mp rest with ⟨moved, movedEq, result⟩
    cases result
    by_cases same : other = index
    · subst same
      rw [connEq] at foundEq
      cases foundEq
      right
      unfold Connection.step at movedEq
      rw [refusing] at movedEq
      cases event with
      | refuse =>
        rcases bind_eq_some_iff.mp movedEq with ⟨state, recorded, result⟩
        cases result
        exact ⟨state, recorded, rfl⟩
      | endRefusedCopy => cases step <;> cases movedEq
      | _ => cases movedEq
    · left
      exact (getElem?_set_ne same).trans connEq
  | connect =>
    cases stepEq
    left
    exact List.getElem?_append_left (List.getElem?_eq_some_iff.mp connEq).1 |>.trans
      connEq
  | touch | startResults | finishResults | sealEnd =>
    left
    unfold Session.step at stepEq
    dsimp only at stepEq
    repeat' split at stepEq
    all_goals
      cases stepEq
      try exact connEq

/-- The changes of a refusal are recorded as they were classified. -/
theorem classified_run {conn : Connection} {events : List SessionEvent}
    {id : Option Nat} {step : StreamStep} (kept : refusal.kept = false)
    (connEq : session.connections[index]? = some conn)
    (refusing : conn.phase = .refusing id req refusal step (some changes))
    (run : (sessionSystem signed).exec session events = some last)
    (started : last.state.results = some calls) :
    last.connections[index]? = some conn ∨
      .refused ("refused: " ++ refusal.message) changes ∈ calls := by
  induction events generalizing session with
  | nil =>
    cases run
    exact .inl connEq
  | cons event rest ih =>
    rcases (sessionSystem signed).exec_cons_eq_some_iff.mp run with ⟨-, next, stepEq, tail⟩
    rcases classified_step connEq refusing stepEq with still | ⟨state, recorded, rfl⟩
    · exact ih still tail
    · have later := run_results tail
      exact .inr (refused_recorded kept recorded later.1 later.2 started)

end Session

/-! ## What a grant's results list -/

/-- The results start before two connections ask for a directory each; one is allowed, the
other refused. -/
def twoDirectories : List SessionEvent :=
  [.startResults, .connect, .connect, .on 0 (.take (.apply [.mkdir [47, 97]])), .on 0 (.enter true),
    .on 1 (.take (.apply [.mkdir [47, 98]])), .on 1 (.enter true),
    .on 1 (.check (some (.bail "no")) (fun _ => none) none [] [] ⟨0, [], none⟩),
    .on 0 (.check none (fun _ => none) none [] [.logical 0 [47, 97] .ensureDirectory]
      ⟨0, [], none⟩),
    .on 0 (.respond (.applied [none]) false), .on 1 .classify]

/-- The refusal of a tracked request that a connection is about to record. -/
def Connection.listing (connection : Connection) : Option ResultsCall :=
  match connection.phase with
  | .refusing _ request refusal _ (some changes) =>
    if request.tracked && !refusal.kept then
      some (.refused ("refused: " ++ refusal.message) changes)
    else none
  | _ => none

end Syq.Restricted
