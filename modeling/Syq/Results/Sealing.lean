import Syq.Results.Stream

/-!
# Sealing a run of the stream

Sealing cuts the pending lines between records into frames with consecutive numbers.
Over a whole run, with frames taken at any time, the frames hold the listed records in
order, each once; a frame that cannot be encoded leaves its number unused.
-/

namespace Syq.Results

open Syq.Lib List Option

variable {Tag Encoded : Type} {codec : Codec Tag Encoded} {records : List Json}

/-! ## One sealing -/

theorem Codec.isLine_of_mem {line : Bytes} (mem : line ∈ records.map codec.write) :
    IsLine 10 line := by
  rcases mem_map.mp mem with ⟨record, -, rfl⟩
  exact codec.isLine_write record

/-- A frame with some of the records. -/
def recordsFrame (codec : Codec Tag Encoded) (keys : Keys Tag) (item : Nat × List Json) :
    Frame Tag :=
  .records item.1 (codec.text item.2) (keys.recordsTag item.1 (codec.text item.2))

/-- The byte found from the end is what was looked for. -/
theorem getElem?_rposition {bytes : Bytes} {index : Nat}
    (found : Stream.rposition (· == 10) bytes = some index) : bytes[index]? = some 10 := by
  rcases map_eq_some_iff.mp found with ⟨back, backEq, rfl⟩
  rcases findIdx?_eq_some_iff_getElem.mp backEq with ⟨bound, newline, -⟩
  rw [getElem_reverse, beq_iff_eq] at newline
  rw [length_reverse] at bound
  rw [getElem?_eq_getElem (by omega), newline]

theorem getLast?_take_succ {bytes : Bytes} {index : Nat} {byte : UInt8}
    (found : bytes[index]? = some byte) : (bytes.take (index + 1)).getLast? = some byte := by
  have bound := (List.getElem?_eq_some_iff.mp found).1
  rw [List.getLast?_eq_getElem?, List.length_take, min_eq_left bound, Nat.add_sub_cancel,
    List.getElem?_take_of_lt (Nat.lt_succ_self index), found]

/-- Lines are cut behind a newline. -/
theorem getLast?_take_sealCut {rest : Bytes} (closed : rest.getLast? = some 10) :
    (rest.take (Stream.sealCut rest)).getLast? = some 10 := by
  unfold Stream.sealCut
  dsimp only
  split
  · split
    · rename_i index found
      have here := getElem?_rposition found
      rw [getElem?_take] at here
      exact getLast?_take_succ (ite_none_right_eq_some.mp here).2
    · cases found : rest.findIdx? (· == 10) with
      | none => simpa using closed
      | some index =>
        rcases findIdx?_eq_some_iff_getElem.mp found with ⟨bound, newline, -⟩
        apply getLast?_take_succ
        rw [getElem?_eq_getElem bound, beq_iff_eq.mp newline]
  · rename_i long
    rwa [take_of_length_le (not_lt.mp long)]

theorem Codec.getLast?_text (ne : records ≠ []) :
    (codec.text records).getLast? = some 10 := by
  rcases eq_nil_or_concat' records with rfl | ⟨init, last, rfl⟩
  · exact absurd rfl ne
  · simp [Codec.text, unlines_append]

/-- The next frame holds the first of the pending records. -/
theorem Codec.text_cut (ne : records ≠ []) :
    ∃ first rest, records = first ++ rest ∧ first ≠ [] ∧
      (codec.text records).take (Stream.sealCut (codec.text records)) = codec.text first ∧
      (codec.text records).drop (Stream.sealCut (codec.text records)) = codec.text rest := by
  have closed := getLast?_take_sealCut (codec.getLast?_text ne)
  have cut := (take_append_drop (Stream.sealCut (codec.text records)) (codec.text records)).symm
  rcases unlines_cut (fun _ => Codec.isLine_of_mem) cut closed with
    ⟨before, after, splitEq, some, takeEq, dropEq⟩
  rcases map_eq_append_iff.mp splitEq with ⟨first, rest, rfl, rfl, rfl⟩
  exact ⟨first, rest, rfl, by simpa using some, takeEq, dropEq⟩

namespace Stream

/-- What sealing some pending records leaves: more frames with consecutive numbers, and
all of the records in them if it succeeds. -/
structure Seals (codec : Codec Tag Encoded) (stream next : Stream Tag Encoded)
    (waiting : List Json) (result : Except String Unit) (more : List (List Json)) : Prop where
  keys : next.keys = stream.keys
  listed : next.records = stream.records
  ended : next.ended = stream.ended
  pending : next.pending = stream.pending
  bound : stream.nextSeq ≤ u64Max → next.nextSeq ≤ u64Max
  ready : next.ready = stream.ready ++
    (more.zipIdx stream.nextSeq).map fun item =>
      codec.encode (recordsFrame codec stream.keys (item.2, item.1))
  fits : ∀ item ∈ more.zipIdx stream.nextSeq,
    codec.len (codec.encode (recordsFrame codec stream.keys (item.2, item.1))) ≤ maxFrameBytes
  numbers : stream.nextSeq + more.length ≤ next.nextSeq
  sealed : result = .ok () →
    next.nextSeq = stream.nextSeq + more.length ∧ more.flatten = waiting

theorem encodeFrame_ok {frame : Frame Tag} {encoded : Encoded}
    (encodedEq : encodeFrame codec frame = .ok encoded) :
    encoded = codec.encode frame ∧ codec.len (codec.encode frame) ≤ maxFrameBytes := by
  unfold encodeFrame at encodedEq
  split at encodedEq
  · rename_i fits
    exact ⟨(Except.ok.inj encodedEq).symm, fits⟩
  · cases encodedEq

/-- A stream starts with its header ready. -/
theorem start_ok {keys : Keys Tag} {body sig : Bytes} {records : Bool}
    {stream : Stream Tag Encoded}
    (started : start codec keys body sig records = .ok stream) :
    stream = ⟨keys, records, 0, [], none, [codec.encode (.header body sig)], ∅, .zero, false⟩ ∧
      codec.len (codec.encode (.header body sig)) ≤ maxFrameBytes := by
  unfold start at started
  cases encoded : encodeFrame codec (.header body sig) with
  | error msg =>
    rw [encoded] at started
    cases started
  | ok frame =>
    rw [encoded] at started
    rcases encodeFrame_ok encoded with ⟨rfl, short⟩
    exact ⟨(Except.ok.inj started).symm, short⟩

/-- One frame is sealed before the rest. -/
theorem Seals.cons {stream next : Stream Tag Encoded} {first rest : List Json}
    {result : Except String Unit} {more : List (List Json)} (room : stream.nextSeq < u64Max)
    (fits : codec.len (codec.encode (recordsFrame codec stream.keys (stream.nextSeq, first))) ≤
      maxFrameBytes)
    (seals : Seals codec { stream with
        nextSeq := stream.nextSeq + 1
        ready := stream.ready ++
          [codec.encode (recordsFrame codec stream.keys (stream.nextSeq, first))] }
      next rest result more) :
    Seals codec stream next (first ++ rest) result (first :: more) where
  keys := seals.keys
  listed := seals.listed
  ended := seals.ended
  pending := seals.pending
  bound := fun _ => seals.bound room
  ready := by
    rw [seals.ready]
    simp
  fits := by
    rw [zipIdx_cons, forall_mem_cons]
    exact ⟨fits, seals.fits⟩
  numbers := by
    have numbers := seals.numbers
    simp only [length_cons] at numbers ⊢
    omega
  sealed := by
    intro ok
    rcases seals.sealed ok with ⟨numbers, all⟩
    refine ⟨?_, ?_⟩
    · simp only [length_cons] at numbers ⊢
      omega
    · rw [flatten_cons, all]

theorem sealRest_seals (stream : Stream Tag Encoded) (waiting : List Json) :
    ∃ more, Seals codec stream (stream.sealRest codec (codec.text waiting)).2 waiting
      (stream.sealRest codec (codec.text waiting)).1 more := by
  -- The rest of the records shrinks with every frame.
  induction size : waiting.length using Nat.strong_induction_on generalizing stream waiting with
  | _ size ih =>
    subst size
    have stopped : ∀ {next : Stream Tag Encoded} {result : Except String Unit},
        next.keys = stream.keys → next.records = stream.records → next.ended = stream.ended →
        next.pending = stream.pending → next.ready = stream.ready →
        stream.nextSeq ≤ next.nextSeq →
        (stream.nextSeq ≤ u64Max → next.nextSeq ≤ u64Max) →
        (result = .ok () → next.nextSeq = stream.nextSeq ∧ waiting = []) →
        ∃ more, Seals codec stream next waiting result more := by
      intro next result keys listed ended pending ready numbers bound ok
      refine ⟨[], keys, listed, ended, pending, bound, by simpa using ready, by simp, numbers,
        fun done => ?_⟩
      exact ⟨(ok done).1, (ok done).2.symm⟩
    unfold sealRest
    dsimp only
    split
    · rename_i empty
      have none : waiting = [] := by
        by_contra some
        have closed := codec.getLast?_text some
        rw [empty] at closed
        cases closed
      exact stopped rfl rfl rfl rfl rfl le_rfl id fun _ => ⟨rfl, none⟩
    · rename_i ne
      have some : waiting ≠ [] := by
        rintro rfl
        exact ne rfl
      split
      · exact stopped rfl rfl rfl rfl rfl le_rfl id fun failed => by cases failed
      · rename_i room
        rcases codec.text_cut some with ⟨first, rest, rfl, firstSome, takeEq, dropEq⟩
        split
        · exact stopped rfl rfl rfl rfl rfl (Nat.le_succ _)
            (fun _ => Nat.lt_of_not_le room) fun failed => by cases failed
        · rename_i frame frameEq
          rcases encodeFrame_ok frameEq with ⟨rfl, fits⟩
          rw [takeEq] at fits ⊢
          rw [dropEq]
          have shorter : rest.length < (first ++ rest).length := by
            rw [length_append]
            exact Nat.lt_add_of_pos_left (length_pos_iff.mpr firstSome)
          rcases ih _ shorter
            { stream with
              nextSeq := stream.nextSeq + 1
              ready := stream.ready ++
                [codec.encode (recordsFrame codec stream.keys (stream.nextSeq, first))] }
            rest rfl with ⟨more, seals⟩
          exact ⟨first :: more, seals.cons (Nat.lt_of_not_le room) fits⟩

end Stream

/-! ## Runs -/

/-- A call that records something, or frames taken for a response. -/
inductive Event where
  | records (now : Nat) (call : Call)
  | takeFrames (now : Nat)

/-- The records an event lists. -/
def Event.listing (codec : Codec Tag Encoded) : Event → List Json
  | .records _ call => call.listing codec
  | .takeFrames _ => []

/-- A stream with the frames taken from it so far. -/
structure Sent (Tag Encoded : Type) where
  stream : Stream Tag Encoded
  taken : List Encoded
  /-- Sealing failed, and left a gap. -/
  failed : Bool

namespace Sent

def step (codec : Codec Tag Encoded) (sent : Sent Tag Encoded) : Event → Sent Tag Encoded
  | .records now call => { sent with stream := sent.stream.call codec now call }
  | .takeFrames now =>
    match sent.stream.takeFrames codec now with
    | (.ok frames, stream) => { sent with stream, taken := sent.taken ++ frames }
    | (.error _, stream) => { sent with stream, failed := true }

/-- A run on a stream that has just started. -/
def run (codec : Codec Tag Encoded) (stream : Stream Tag Encoded) (events : List Event) :
    Sent Tag Encoded :=
  events.foldl (step codec) ⟨stream, [], false⟩

theorem run_concat (codec : Codec Tag Encoded) (stream : Stream Tag Encoded) (events : List Event)
    (event : Event) :
    run codec stream (events ++ [event]) = (run codec stream events).step codec event := by
  unfold run
  rw [foldl_append, foldl_cons, foldl_nil]

/-- The frames of a run hold `sealed` records by their numbers, and `waiting` ones are
pending. -/
structure Inv (codec : Codec Tag Encoded) (keys : Keys Tag) (listed : Bool) (header : Encoded)
    (recorded : List Json) (sent : Sent Tag Encoded) (sealed : List (Nat × List Json))
    (waiting : List Json) : Prop where
  sameKeys : sent.stream.keys = keys
  sameListed : sent.stream.records = listed
  ended : sent.stream.ended = false
  frames : sent.taken ++ sent.stream.ready =
    header :: sealed.map fun item => codec.encode (recordsFrame codec keys item)
  fits : ∀ item ∈ sealed, codec.len (codec.encode (recordsFrame codec keys item)) ≤ maxFrameBytes
  ordered : (sealed.map Prod.fst).Pairwise (· < ·)
  below : ∀ item ∈ sealed, item.1 < sent.stream.nextSeq
  bound : sent.stream.nextSeq ≤ u64Max
  pending : sent.stream.pending = codec.text waiting
  complete : sent.failed = false → sealed.map Prod.fst = List.range sent.stream.nextSeq ∧
    recorded = sealed.flatMap Prod.snd ++ waiting

namespace Inv

variable {keys : Keys Tag} {listed : Bool} {header : Encoded} {recorded waiting : List Json}
  {sent : Sent Tag Encoded} {sealed : List (Nat × List Json)}

theorem start {body sig : Bytes} {stream : Stream Tag Encoded}
    (started : Stream.start codec keys body sig listed = .ok stream) :
    Inv codec keys listed (codec.encode (.header body sig)) [] ⟨stream, [], false⟩ [] [] := by
  rcases Stream.start_ok started with ⟨rfl, -⟩
  exact ⟨rfl, rfl, rfl, rfl, by simp, .nil, by simp, Nat.zero_le _, rfl, fun _ => ⟨rfl, rfl⟩⟩

variable (inv : Inv codec keys listed header recorded sent sealed waiting)

include inv

theorem lists {next : Stream Tag Encoded} (more : Stream.Lists codec records sent.stream next) :
    Inv codec keys listed header (recorded ++ if listed then records else [])
      { sent with stream := next } sealed (waiting ++ if listed then records else []) where
  sameKeys := more.keys.trans inv.sameKeys
  sameListed := more.listed.trans inv.sameListed
  ended := more.ended.trans inv.ended
  frames := by
    rw [more.ready, inv.frames]
  fits := inv.fits
  ordered := inv.ordered
  below := more.nextSeq ▸ inv.below
  bound := more.nextSeq ▸ inv.bound
  pending := by
    rw [more.pending, inv.pending, inv.sameListed, codec.text_append]
    split <;> rfl
  complete := by
    intro ok
    rcases inv.complete ok with ⟨numbers, all⟩
    refine ⟨numbers.trans (congrArg _ more.nextSeq.symm), ?_⟩
    rw [all, append_assoc]

/-- Sealing what is pending leaves nothing waiting. -/
theorem seals {result : Except String Unit} {next : Stream Tag Encoded} {failed : Bool}
    (sealEq : sent.stream.sealPending codec = (result, next))
    (known : failed = false → sent.failed = false ∧ result = .ok ()) :
    ∃ sealed, Inv codec keys listed header recorded ⟨next, sent.taken, failed⟩ sealed [] := by
  rcases Stream.sealRest_seals { sent.stream with pending := [], pendingSince := none } waiting with
    ⟨more, seals⟩
  unfold Stream.sealPending at sealEq
  rw [inv.pending] at sealEq
  rw [sealEq] at seals
  refine ⟨sealed ++ (more.zipIdx sent.stream.nextSeq).map fun item => (item.2, item.1), ?_⟩
  have numbered :
      ((more.zipIdx sent.stream.nextSeq).map fun item => (item.2, item.1)).map Prod.fst =
      range' sent.stream.nextSeq more.length := by
    rw [List.map_map]
    exact zipIdx_map_snd _ _
  constructor
  · exact seals.keys.trans inv.sameKeys
  · exact seals.listed.trans inv.sameListed
  · exact seals.ended.trans inv.ended
  · rw [seals.ready, ← append_assoc, inv.frames, ← inv.sameKeys]
    simp
  · refine forall_mem_append.mpr ⟨inv.fits, forall_mem_map.mpr ?_⟩
    rw [← inv.sameKeys]
    exact seals.fits
  · rw [map_append, numbered, pairwise_append]
    refine ⟨inv.ordered, pairwise_lt_range', ?_⟩
    intro old oldMem new newMem
    rcases mem_map.mp oldMem with ⟨item, itemMem, rfl⟩
    exact lt_of_lt_of_le (inv.below item itemMem) (mem_range'_1.mp newMem).1
  · intro item mem
    have numbers := seals.numbers
    rcases mem_append.mp mem with old | new
    · exact lt_of_lt_of_le (inv.below item old) (le_trans (Nat.le_add_right _ _) numbers)
    · have number : item.1 ∈ range' sent.stream.nextSeq more.length :=
        numbered ▸ mem_map_of_mem new
      exact lt_of_lt_of_le (mem_range'_1.mp number).2 numbers
  · exact seals.bound inv.bound
  · exact seals.pending
  · intro ok
    rcases known ok with ⟨before, done⟩
    rcases inv.complete before with ⟨numbers, all⟩
    rcases seals.sealed done with ⟨last, flat⟩
    constructor
    · have joined : next.nextSeq = sent.stream.nextSeq + more.length := last
      rw [map_append, numbered, numbers, joined, range_eq_range', range_eq_range',
        ← range'_append_1, Nat.zero_add]
    · rw [all, flatMap_append, ← flat]
      simp [List.flatMap, List.map_map, Function.comp_def]

theorem step (event : Event) :
    ∃ sealed waiting, Inv codec keys listed header
      (recorded ++ if listed then event.listing codec else []) (sent.step codec event) sealed
      waiting := by
  have taken : ∀ {sent : Sent Tag Encoded} {sealed waiting},
      Inv codec keys listed header recorded sent sealed waiting →
      Inv codec keys listed header recorded
        ⟨{ sent.stream with ready := [] }, sent.taken ++ sent.stream.ready, sent.failed⟩ sealed
        waiting := by
    intro sent sealed waiting inv
    exact { inv with frames := (append_nil _).trans inv.frames }
  cases event with
  | records now call => exact ⟨_, _, inv.lists (.call now sent.stream call inv.ended)⟩
  | takeFrames now =>
    have same : (recorded ++ if listed then Event.listing codec (.takeFrames now) else []) =
        recorded := by simp [Event.listing]
    rw [same]
    unfold Sent.step
    dsimp only
    unfold Stream.takeFrames
    split
    · rename_i frames next takenEq
      split at takenEq
      · split at takenEq
        · rename_i sealEq
          cases takenEq
          rcases inv.seals sealEq (fun ok => ⟨ok, rfl⟩) with ⟨sealed, after⟩
          exact ⟨_, _, taken after⟩
        · cases takenEq
      · cases takenEq
        exact ⟨_, _, taken inv⟩
    · rename_i msg next takenEq
      split at takenEq
      · split at takenEq
        · cases takenEq
        · rename_i sealEq
          cases takenEq
          have gap : true = false → sent.failed = false ∧ Except.error msg = .ok () := nofun
          rcases inv.seals sealEq gap with ⟨sealed, after⟩
          exact ⟨_, _, after⟩
      · cases takenEq

omit inv

/-- What every event keeps holds after a run. -/
theorem run {body sig : Bytes} {stream : Stream Tag Encoded} (events : List Event)
    (started : Stream.start codec keys body sig listed = .ok stream) :
    ∃ sealed waiting, Inv codec keys listed (codec.encode (.header body sig))
      (if listed then events.flatMap (Event.listing codec) else []) (Sent.run codec stream events)
      sealed waiting := by
  induction events using reverseRecOn with
  | nil =>
    refine ⟨[], [], ?_⟩
    have initial := start started
    cases listed <;> exact initial
  | append_singleton rest event ih =>
    rcases ih with ⟨sealed, waiting, inv⟩
    rcases inv.step event with ⟨sealed, waiting, next⟩
    refine ⟨sealed, waiting, ?_⟩
    rw [Sent.run_concat]
    cases listed <;> simpa using next

/-- The frames of a run that has finished: the header, the sealed records and the end. -/
theorem finish (inv : Inv codec keys listed header recorded sent sealed waiting)
    {now bytes : Nat} {totals : Totals} {last : Stream Tag Encoded}
    (finished : sent.stream.finish codec now bytes = (.ok totals, last)) :
    ∃ sealed : List (Nat × List Json),
      sent.taken ++ last.ready =
        header :: ((sealed.map fun item => codec.encode (recordsFrame codec keys item)) ++
          [codec.encode (.endFrame last.nextSeq totals (keys.endTag last.nextSeq totals))]) ∧
      (∀ item ∈ sealed, codec.len (codec.encode (recordsFrame codec keys item)) ≤ maxFrameBytes) ∧
      codec.len (codec.encode (.endFrame last.nextSeq totals (keys.endTag last.nextSeq totals))) ≤
        maxFrameBytes ∧
      (sealed.map Prod.fst).Pairwise (· < ·) ∧ (∀ item ∈ sealed, item.1 < last.nextSeq) ∧
      last.nextSeq ≤ u64Max ∧
      (sent.failed = false → sealed.map Prod.fst = List.range last.nextSeq ∧
        (recorded ++ if listed then retriedListing codec sent.stream.retried.toList else []) =
          sealed.flatMap Prod.snd) := by
  unfold Stream.finish at finished
  rw [if_neg (by simp [inv.ended])] at finished
  split at finished
  · cases finished
  · rename_i next sealEq
    have listedInv := inv.lists (.listRetried now sent.stream inv.ended)
    rcases listedInv.seals sealEq (fun ok => ⟨ok, rfl⟩) with ⟨sealed, after⟩
    dsimp only at finished
    split at finished
    · cases finished
    · rename_i frame frameEq
      cases finished
      rcases Stream.encodeFrame_ok frameEq with ⟨rfl, fits⟩
      have sameKeys : next.keys = keys := after.sameKeys
      rw [sameKeys] at fits ⊢
      refine ⟨sealed, ?_, after.fits, fits, after.ordered, after.below, after.bound, ?_⟩
      · rw [← append_assoc, after.frames, cons_append]
      · intro ok
        rcases after.complete ok with ⟨numbers, all⟩
        rw [append_nil] at all
        exact ⟨numbers, all⟩

end Inv

end Sent

end Syq.Results
