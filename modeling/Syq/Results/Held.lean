import Syq.Results.Sealing

/-!
# Held failures

The failure of a change to a file that the sender tries again is held.  Whether it counts
at the end depends on the whole history of its path: on the last failure held for it, and
on whether a later call settles it.
-/

namespace Syq.Results

open Syq.Lib Syq.Results.Stream List Option

variable {Tag Encoded : Type} {codec : Codec Tag Encoded} {path : Bytes} {failure : RetriedFailure}

/-! ## What a call does to a path -/

/-- The failure a call holds for a path. -/
def Call.holds (path : Bytes) : Call → Option RetriedFailure
  | .recordRetried change dst error =>
    if dst = some path ∧ change.isFile = true then
      some ⟨change, failureMessage error.message, error.errorClass⟩
    else none
  | _ => none

/-- Whether a call settles the failure held for a path: a change that completes the file,
a failure of a change to it, or a refusal that names such a change. -/
def Call.settles (path : Bytes) : Call → Bool
  | .record change dst none => decide (dst = some path) && change.completesFile
  | .record change dst (some _) => decide (dst = some path) && change.isFile
  | .recordRetried _ _ _ => false
  | .refused _ changes => changes.any fun item => decide (item.1 = some path) && item.2.isFile

/-- Whether a call records a failure at once. -/
def Call.fails : Call → Bool
  | .record _ _ error => error.isSome
  | .recordRetried change dst _ => !(dst.isSome && change.isFile)
  | .refused _ _ => false

/-- The last failure held for a path, and no later call settles it. -/
def Unsettled (calls : List Call) (path : Bytes) (failure : RetriedFailure) : Prop :=
  ∃ before call after, calls = before ++ call :: after ∧ call.holds path = some failure ∧
    ∀ later ∈ after, later.holds path = none ∧ later.settles path = false

theorem unsettled_nil : ¬ Unsettled [] path failure := by
  rintro ⟨before, call, after, empty, -⟩
  exact absurd empty (by simp)

theorem unsettled_concat_iff {calls : List Call} {call : Call} :
    Unsettled (calls ++ [call]) path failure ↔
      call.holds path = some failure ∨
        call.holds path = none ∧ call.settles path = false ∧ Unsettled calls path failure := by
  constructor
  · rintro ⟨before, held, after, split, holds, unsettled⟩
    rcases eq_nil_or_concat' after with rfl | ⟨init, last, rfl⟩
    · have parts := append_inj' split rfl
      left
      rw [singleton_inj.mp parts.2, holds]
    · have parts : calls = before ++ held :: init ∧ call = last := by
        have joined : calls ++ [call] = (before ++ held :: init) ++ [last] := by simpa using split
        have ends := append_inj' joined rfl
        exact ⟨ends.1, singleton_inj.mp ends.2⟩
      rcases parts with ⟨rfl, rfl⟩
      have final := unsettled call (by simp)
      right
      refine ⟨final.1, final.2, before, held, init, rfl, holds, ?_⟩
      intro later mem
      exact unsettled later (by simp [mem])
  · rintro (holds | ⟨notHeld, notSettled, before, held, after, rfl, holds, unsettled⟩)
    · exact ⟨calls, call, [], by simp, holds, nofun⟩
    · refine ⟨before, held, after ++ [call], by simp, holds, ?_⟩
      rw [forall_mem_append, forall_mem_singleton]
      exact ⟨unsettled, notHeld, notSettled⟩

namespace Stream

variable {stream : Stream Tag Encoded}

theorem list_frame (now : Nat) (stream : Stream Tag Encoded) (records : List Json) :
    (stream.list codec now records).retried = stream.retried ∧
      (stream.list codec now records).totals = stream.totals := by
  unfold list
  split
  · induction records generalizing stream with
    | nil => exact ⟨rfl, rfl⟩
    | cons record rest ih =>
      exact ih (stream.push codec now record) ‹_›
  · exact ⟨rfl, rfl⟩

theorem settleRetried_totals (settles : Bool) (dst : Option Bytes) :
    (stream.settleRetried settles dst).totals = stream.totals := by
  cases dst with
  | none => rfl
  | some dst => cases settles <;> rfl

theorem getElem?_settleRetried (settles : Bool) (dst : Option Bytes) (path : Bytes) :
    (stream.settleRetried settles dst).retried[path]? =
      if (decide (dst = some path) && settles) = true then none else stream.retried[path]? := by
  unfold settleRetried
  cases dst with
  | none => simp
  | some dst =>
    cases settles with
    | false => simp
    | true => simp [Std.TreeMap.getElem?_erase, Std.LawfulEqCmp.compare_eq_iff_eq]

/-- What a record does to the failures held and counted. -/
theorem record_frame (now : Nat) (running : stream.ended = false) (change : Change)
    (dst : Option Bytes) (error : Option Failure) (path : Bytes) :
    (stream.record codec now change dst error).retried[path]? =
        (if Call.settles path (.record change dst error) = true then none
          else stream.retried[path]?) ∧
      (stream.record codec now change dst error).totals.failed =
        stream.totals.failed + error.isSome.toNat := by
  unfold record
  rw [if_neg (by simp [running])]
  cases error with
  | none =>
    rw [(list_frame _ _ _).1, (list_frame _ _ _).2]
    refine ⟨getElem?_settleRetried _ _ _, ?_⟩
    cases change <;> simp [Totals.count, settleRetried_totals]
  | some error =>
    rw [(list_frame _ _ _).1, (list_frame _ _ _).2]
    exact ⟨getElem?_settleRetried _ _ _, by simp [settleRetried_totals]⟩

theorem settles_refused_cons (path : Bytes) (msg : String) (head : Option Bytes × Change)
    (rest : List (Option Bytes × Change)) :
    Call.settles path (.refused msg (head :: rest)) =
      ((decide (head.1 = some path) && head.2.isFile) || Call.settles path (.refused msg rest)) :=
  rfl

theorem refuseChanges_frame (now : Nat) (msg : String) (stream : Stream Tag Encoded)
    (changes : List (Option Bytes × Change)) (path : Bytes) :
    (changes.foldl (refuseChange codec now msg) stream).retried[path]? =
        (if Call.settles path (.refused msg changes) = true then none else stream.retried[path]?) ∧
      (changes.foldl (refuseChange codec now msg) stream).totals = stream.totals := by
  induction changes generalizing stream with
  | nil => exact ⟨rfl, rfl⟩
  | cons head rest ih =>
    have later := ih (stream.refuseChange codec now msg head)
    rw [foldl_cons, later.1, later.2, settles_refused_cons]
    rcases head with ⟨none | dst, change⟩
    · exact ⟨by simp [refuseChange], rfl⟩
    · dsimp only [refuseChange]
      rw [(list_frame _ _ _).1, (list_frame _ _ _).2, getElem?_settleRetried]
      refine ⟨?_, settleRetried_totals _ _⟩
      cases Call.settles path (.refused msg rest) <;> simp

/-- What a call does to the failure held for a path and to the failures counted. -/
theorem call_frame (now : Nat) (running : stream.ended = false) (call : Call) (path : Bytes) :
    (stream.call codec now call).retried[path]? = (call.holds path <|>
        if call.settles path = true then none else stream.retried[path]?) ∧
      (stream.call codec now call).totals.failed = stream.totals.failed + call.fails.toNat := by
  cases call with
  | record change dst error => exact record_frame now running change dst error path
  | recordRetried change dst error =>
    dsimp only [call, recordRetried, Call.holds, Call.settles, Call.fails]
    rw [if_neg (by simp [running])]
    have atOnce : (stream.record codec now change dst (some error)).retried[path]? = _ ∧ _ :=
      record_frame now running change dst (some error) path
    cases dst with
    | none => simpa [Call.settles] using atOnce
    | some dst =>
      cases file : change.isFile with
      | false => simpa [Call.settles, file] using atOnce
      | true =>
        simp only [filter_some, if_true, Std.TreeMap.getElem?_insert,
          Std.LawfulEqCmp.compare_eq_iff_eq, some.injEq, and_true, Bool.false_eq_true,
          if_false]
        refine ⟨?_, by simp⟩
        split <;> simp
  | refused msg changes =>
    dsimp only [call, refused, Call.fails]
    rw [if_neg (by simp [running])]
    have refusals : (changes.foldl (refuseChange codec now msg) _).retried[path]? = _ ∧ _ :=
      refuseChanges_frame now msg
        { stream with totals := { stream.totals with refused := stream.totals.refused + 1 } }
        changes path
    split
    · rw [refusals.1, refusals.2]
      exact ⟨by simp [Call.holds], rfl⟩
    · rw [(list_frame _ _ _).1, (list_frame _ _ _).2, refusals.1, refusals.2]
      exact ⟨by simp [Call.holds], rfl⟩

/-- Every failure that is still held counts when the results end. -/
theorem listRetried_failed (now : Nat) (running : stream.ended = false) :
    (stream.listRetried codec now).totals.failed =
      stream.totals.failed + stream.retried.toList.length := by
  refine (foldl_rule (P := fun done (next : Stream Tag Encoded) => next.ended = false ∧
    next.totals.failed = stream.totals.failed + done.length) ?_ ?_).2
  · exact ⟨running, rfl⟩
  · rintro done item next - ⟨notEnded, counted⟩
    have one : Lists codec _ next _ := Lists.record now next item.2.change (some item.1)
      (some ⟨item.2.message, item.2.errorClass⟩) notEnded
    refine ⟨one.ended.trans notEnded, ?_⟩
    rw [(record_frame now notEnded _ _ _ []).2, counted]
    simp [Nat.add_assoc]

theorem sealRest_totals (stream : Stream Tag Encoded) (rest : Bytes) :
    (stream.sealRest codec rest).2.totals = stream.totals := by
  fun_induction sealRest codec stream rest with
  | case1 => rfl
  | case2 => rfl
  | case3 => rfl
  | case4 _ _ _ _ _ _ _ _ _ ih => exact ih

theorem finish_failed (now bytes : Nat) (running : stream.ended = false) :
    (stream.finish codec now bytes).2.totals.failed =
      stream.totals.failed + stream.retried.toList.length := by
  have sealed : ((stream.listRetried codec now).sealPending codec).2.totals =
      (stream.listRetried codec now).totals := sealRest_totals _ _
  rw [← listRetried_failed now running, ← sealed]
  unfold finish
  rw [if_neg (by simp [running])]
  split
  · rename_i sealEq
    rw [sealEq]
  · rename_i sealEq
    rw [sealEq]
    dsimp only
    split <;> rfl

theorem finish_totals {now bytes : Nat} {totals : Totals} {last : Stream Tag Encoded}
    (finished : stream.finish codec now bytes = (.ok totals, last)) : totals = last.totals := by
  unfold finish at finished
  split at finished
  · cases finished
  · split at finished
    · cases finished
    · dsimp only at finished
      split at finished
      · cases finished
      · cases finished
        rfl

/-! ## Over a run -/

/-- Some calls, each at its time. -/
def calls (codec : Codec Tag Encoded) (stream : Stream Tag Encoded) (calls : List (Nat × Call)) :
    Stream Tag Encoded :=
  calls.foldl (fun stream call => stream.call codec call.1 call.2) stream

theorem calls_concat (stream : Stream Tag Encoded) (rest : List (Nat × Call)) (last : Nat × Call) :
    stream.calls codec (rest ++ [last]) = (stream.calls codec rest).call codec last.1 last.2 := by
  unfold calls
  rw [foldl_append, foldl_cons, foldl_nil]

theorem calls_ended (running : stream.ended = false) (calls : List (Nat × Call)) :
    (stream.calls codec calls).ended = false := by
  induction calls using reverseRecOn with
  | nil => exact running
  | append_singleton rest last ih =>
    rw [calls_concat]
    exact (Lists.call last.1 _ last.2 ih).ended.trans ih

/-- Calls alone take no frames. -/
theorem run_calls (stream : Stream Tag Encoded) (calls : List (Nat × Call)) :
    Sent.run codec stream (calls.map fun call => .records call.1 call.2) =
      ⟨stream.calls codec calls, [], false⟩ := by
  induction calls using reverseRecOn with
  | nil => rfl
  | append_singleton rest last ih =>
    rw [map_append, map_cons, map_nil, Sent.run_concat, ih, calls_concat]
    rfl

/-- The failure held for a path after some calls is the last one that nothing settled. -/
theorem getElem?_calls (running : stream.ended = false) (fresh : stream.retried = ∅)
    (calls : List (Nat × Call)) (path : Bytes) (failure : RetriedFailure) :
    (stream.calls codec calls).retried[path]? = some failure ↔
      Unsettled (calls.map Prod.snd) path failure := by
  induction calls using reverseRecOn with
  | nil =>
    refine iff_of_false ?_ unsettled_nil
    change stream.retried[path]? ≠ _
    simp [fresh]
  | append_singleton rest last ih =>
    rw [calls_concat, (call_frame _ (calls_ended running rest) _ _).1, map_append, map_cons,
      map_nil, unsettled_concat_iff, ← ih]
    cases last.2.holds path with
    | some held => simp
    | none => cases last.2.settles path <;> simp

theorem calls_failed (running : stream.ended = false) (calls : List (Nat × Call)) :
    (stream.calls codec calls).totals.failed =
      stream.totals.failed + (calls.map Prod.snd).countP Call.fails := by
  induction calls using reverseRecOn with
  | nil => rfl
  | append_singleton rest last ih =>
    rw [calls_concat, (call_frame _ (calls_ended running rest) _ []).2, ih,
      map_append, countP_append, Nat.add_assoc]
    cases fails : last.2.fails <;> simp [fails]

end Stream

/-- A failure that is held was bounded already. -/
theorem failureMessage_idem (error : String) :
    failureMessage (failureMessage error) = failureMessage error := by
  unfold failureMessage
  cases cut : boundedDiagnostic error with
  | none => decide +kernel
  | some bounded =>
    rw [getD_some, boundedDiagnostic_idem cut, getD_some]

theorem Unsettled.message {calls : List Call} (unsettled : Unsettled calls path failure) :
    failureMessage failure.message = failure.message := by
  rcases unsettled with ⟨before, call, after, -, holds, -⟩
  unfold Call.holds at holds
  split at holds
  · rcases ite_none_right_eq_some.mp holds with ⟨-, held⟩
    cases held
    exact failureMessage_idem _
  · cases holds

/-- For every sequence of calls followed by the end: the failures counted are those
recorded at once and those of the paths whose last held failure nothing settled.  Each
such path is listed once at the end, when changes are listed, with the message held last.
A metadata change that succeeds and a deletion settle nothing. -/
theorem held_failures_counted_once {keys : Keys Tag} {body signature : Bytes} {records : Bool}
    {stream : Stream Tag Encoded}
    (started : Stream.start codec keys body signature records = .ok stream)
    (calls : List (Nat × Call)) (now bytes : Nat) :
    ∃ held : List (Bytes × RetriedFailure), (held.map Prod.fst).Nodup ∧
      (∀ path failure, (path, failure) ∈ held ↔ Unsettled (calls.map Prod.snd) path failure) ∧
      ((stream.calls codec calls).finish codec now bytes).2.totals.failed =
        (calls.map Prod.snd).countP Call.fails + held.length ∧
      (∀ totals last, (stream.calls codec calls).finish codec now bytes = (.ok totals, last) →
        totals = last.totals ∧
        (records = true → ∃ sealed : List (Nat × List Json),
          last.ready = codec.encode (.header body signature) ::
            ((sealed.map fun item => codec.encode (recordsFrame codec keys item)) ++
              [codec.encode (.endFrame last.nextSeq totals (keys.endTag last.nextSeq totals))]) ∧
          sealed.flatMap Prod.snd = (calls.flatMap fun call => call.2.listing codec) ++
            held.flatMap fun item => messageRecords codec item.2.change (some item.1)
              item.2.errorClass item.2.message)) ∧
      ∀ (path : Bytes) dst,
        (∀ kind, ((stream.calls codec calls).record codec now (.setMetadata kind) dst
          none).retried[path]? = (stream.calls codec calls).retried[path]?) ∧
        ∀ error, ((stream.calls codec calls).record codec now .deleteNonDirectory dst
            error).retried[path]? = (stream.calls codec calls).retried[path]? ∧
          ((stream.calls codec calls).record codec now .deleteDirectory dst error).retried[path]? =
            (stream.calls codec calls).retried[path]? := by
  rcases start_ok started with ⟨fresh, -⟩
  have begun : stream.ended = false := by rw [fresh]
  have running : (stream.calls codec calls).ended = false := calls_ended begun calls
  have unsettled : ∀ path failure, (stream.calls codec calls).retried[path]? = some failure ↔
      Unsettled (calls.map Prod.snd) path failure :=
    getElem?_calls begun (by rw [fresh]) calls
  refine ⟨(stream.calls codec calls).retried.toList, ?_, ?_, ?_, ?_, ?_⟩
  · rw [Std.TreeMap.map_fst_toList_eq_keys]
    exact Std.TreeMap.nodup_keys
  · intro path failure
    rw [Std.TreeMap.mem_toList_iff_getElem?_eq_some, unsettled]
  · rw [finish_failed now bytes running, calls_failed begun, fresh]
    exact congrArg (· + _) (Nat.zero_add _)
  · intro totals last finished
    refine ⟨finish_totals finished, ?_⟩
    rintro rfl
    rcases Sent.Inv.run (calls.map fun call => .records call.1 call.2) started with
      ⟨before, waiting, inv⟩
    rw [run_calls] at inv
    rcases inv.finish finished with ⟨sealed, frames, -, -, -, -, -, complete⟩
    refine ⟨sealed, frames, ?_⟩
    rw [← (complete rfl).2, if_pos rfl, if_pos rfl, flatMap_map]
    refine congrArg _ (flatMap_congr fun item mem => ?_)
    rw [Std.TreeMap.mem_toList_iff_getElem?_eq_some, unsettled] at mem
    dsimp only [failureRecords]
    rw [mem.message]
  · intro path dst
    have kept : ∀ change error, Call.settles path (.record change dst error) = false →
        ((stream.calls codec calls).record codec now change dst error).retried[path]? =
          (stream.calls codec calls).retried[path]? := by
      intro change error unsettling
      rw [(record_frame now running _ _ _ _).1, unsettling]
      rfl
    refine ⟨fun kind => kept _ _ ?_, fun error => ⟨kept _ _ ?_, kept _ _ ?_⟩⟩
    · simp [Call.settles, Change.completesFile]
    · cases error <;> simp [Call.settles, Change.completesFile, Change.isFile]
    · cases error <;> simp [Call.settles, Change.completesFile, Change.isFile]

/-- A patch of a file that the sender tries again and never does. -/
def abandonedPatch : List (Nat × Call) :=
  [(0, .recordRetried (.publishFile 5) (some [97]) ⟨"io error", "io"⟩)]

def abandonedStream (records : Bool) : Stream FrameTag Bytes :=
  ⟨.plain, records, 0, [], none, [Codec.wire.encode (.header [] [])], ∅, .zero, false⟩

theorem held_failures_counted_once_abandoned :
    ∃ held : List (Bytes × RetriedFailure), ([97], ⟨.publishFile 5, "io error", "io"⟩) ∈ held ∧
      (((abandonedStream true).calls .wire abandonedPatch).finish .wire 1 5).2.totals.failed =
        held.length := by
  have started : start .wire .plain [] [] true = .ok (abandonedStream true) := rfl
  rcases held_failures_counted_once started abandonedPatch 1 5 with ⟨held, -, mem, count, -⟩
  refine ⟨held, ?_, count.trans (Nat.zero_add _)⟩
  rw [mem]
  exact ⟨[], _, [], rfl, by decide +kernel, nofun⟩

/-- A stream that was not asked to list changes counts the failure and lists nothing. -/
theorem unlisted_stream_lists_no_held_failure :
    let totals : Totals := ⟨0, 5, 0, 0, 0, 0, 1, 0⟩
    let last := (((abandonedStream false).calls .wire abandonedPatch).finish .wire 1 5).2
    last.totals.failed = 1 ∧ last.ready = [Codec.wire.encode (.header [] []),
      Codec.wire.encode (.endFrame 0 totals (Keys.plain.endTag 0 totals))] := by
  decide +kernel

end Syq.Results
