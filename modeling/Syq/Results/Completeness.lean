import Syq.Results.Sealing
import Syq.Results.Reader

/-!
# Completeness of the destination's results

Whatever frames reach the reader after the header, in any order, dropped or repeated: if
it accepts them all and finishes, every frame of records was accepted exactly once and
the totals are the destination's.  Conversely all frames of a run, in any order, are
accepted and give back the listed records.
-/

namespace Syq.Results

open Syq.Lib Expectation Reader List Option Function

variable {Tag Encoded : Type}

/-! ## Accepting any frames -/

/-- The tags of the delivered frames that verify are those the destination made. -/
structure Unforged (codec : Codec Tag Encoded) (keys : Keys Tag)
    (emitted delivered : List Encoded) : Prop where
  records : ∀ encoded ∈ delivered, ∀ seq payload,
    codec.decode encoded = some (.records seq payload (keys.recordsTag seq payload)) →
    codec.encode (.records seq payload (keys.recordsTag seq payload)) ∈ emitted
  ends : ∀ encoded ∈ delivered, ∀ frames totals,
    codec.decode encoded = some (.endFrame frames totals (keys.endTag frames totals)) →
    codec.encode (.endFrame frames totals (keys.endTag frames totals)) ∈ emitted

namespace Reader

variable [DecidableEq Tag] {codec : Codec Tag Encoded} {trust : Trust Tag} {keys : Keys Tag}
  {expectation : Expectation} {reader next : Reader Tag} {seqs : List Nat} {lines : List Json}

/-- What accepting one frame after the header says about it. -/
theorem accept_counted (counted : Counted keys expectation seqs reader) {encoded : Encoded}
    (accepted : reader.accept codec trust encoded = .ok (next, lines)) :
    Counted keys expectation (seqs ++ (recordsOf codec encoded).toList.map Prod.fst) next ∧
      (∀ item, recordsOf codec encoded = some item →
        codec.decode encoded = some (.records item.1 item.2 (keys.recordsTag item.1 item.2))) ∧
      ∀ last, next.ended = some last → reader.ended = some last ∨
        codec.decode encoded = some (.endFrame last.1 last.2 (keys.endTag last.1 last.2)) := by
  unfold accept at accepted
  rw [counted.sameKeys] at accepted
  split at accepted
  · cases accepted
  · split at accepted
    · cases accepted
    · cases accepted
    · rename_i seq payload tag decoded
      dsimp only at accepted
      split at accepted
      · cases accepted
      · rename_i tagEq
        rcases acceptRecords_eq_ok_iff.mp accepted with ⟨-, -, -, -, rfl⟩
        obtain rfl := not_not.mp tagEq
        rcases counted.counting seq with ⟨after, ended⟩
        exact ⟨by simpa [recordsOf, decoded] using after, by simp [recordsOf, decoded],
          fun last lastEq => .inl (ended.symm.trans lastEq)⟩
    · rename_i frames totals tag decoded
      dsimp only at accepted
      split at accepted
      · cases accepted
      · rename_i tagEq
        obtain rfl := not_not.mp tagEq
        split at accepted
        · cases accepted
        · cases accepted
          refine ⟨?_, by simp [recordsOf, decoded], ?_⟩
          · simpa [recordsOf, decoded] using { counted with sameKeys := rfl }
          · rintro last ⟨⟩
            exact .inr decoded

/-- What a run of accepted frames after the header counts, and where its end came from. -/
theorem acceptAll_counted (counted : Counted keys expectation seqs reader)
    {delivered : List Encoded}
    (accepted : reader.acceptAll codec trust delivered = .ok (next, lines)) :
    Counted keys expectation (seqs ++ (delivered.filterMap (recordsOf codec)).map Prod.fst) next ∧
      (∀ encoded ∈ delivered, ∀ item, recordsOf codec encoded = some item →
        codec.decode encoded = some (.records item.1 item.2 (keys.recordsTag item.1 item.2))) ∧
      ∀ last, next.ended = some last → reader.ended = some last ∨ ∃ encoded ∈ delivered,
        codec.decode encoded = some (.endFrame last.1 last.2 (keys.endTag last.1 last.2)) := by
  induction delivered generalizing reader seqs lines with
  | nil =>
    cases accepted
    exact ⟨by simpa using counted, by simp, fun last ended => .inl ended⟩
  | cons encoded rest ih =>
    rcases acceptAll_cons_eq_ok_iff.mp accepted with ⟨middle, records, more, first, tail, rfl⟩
    rcases accept_counted counted first with ⟨after, genuineHere, endsHere⟩
    rcases ih after tail with ⟨counts, genuine, ends⟩
    refine ⟨?_, forall_mem_cons.mpr ⟨genuineHere, genuine⟩, fun last lastEq => ?_⟩
    · cases here : recordsOf codec encoded <;> simpa [filterMap_cons, here] using counts
    · rcases ends last lastEq with before | ⟨other, mem, otherEq⟩
      · exact (endsHere last before).imp_right fun decoded => ⟨encoded, mem_cons_self, decoded⟩
      · exact .inr ⟨other, mem_cons_of_mem _ mem, otherEq⟩

end Reader

/-! ## The frames of a run -/

theorem Codec.encode_injective (codec : Codec Tag Encoded) : Function.Injective codec.encode := by
  intro first second same
  have decoded := congrArg codec.decode same
  rw [codec.decode_encode, codec.decode_encode] at decoded
  exact some.inj decoded

/-- The end of a finished run: its number of frames and its totals. -/
structure Ending where
  frames : Nat
  totals : Totals

/-- A frame after the header: one with records, or the end. -/
def Ending.frame (codec : Codec Tag Encoded) (keys : Keys Tag) (ending : Ending) :
    Option (Nat × List Json) → Frame Tag
  | some item => recordsFrame codec keys item
  | none => .endFrame ending.frames ending.totals (keys.endTag ending.frames ending.totals)

section Frames

variable {codec : Codec Tag Encoded} {keys : Keys Tag} {ending : Ending}

theorem filterMap_recordsOf_frames (items : List (Option (Nat × List Json))) :
    (items.map fun item => codec.encode (ending.frame codec keys item)).filterMap
      (Reader.recordsOf codec) =
        items.reduceOption.map fun item => (item.1, codec.text item.2) := by
  rw [filterMap_map]
  rw [reduceOption, map_filterMap]
  refine filterMap_congr fun item _ => ?_
  cases item <;> simp [recordsOf, Ending.frame, recordsFrame, codec.decode_encode]

/-- A genuine frame of records is one the run sealed. -/
theorem mem_sealed_of_encode_mem {body sig : Bytes} {sealed : List (Nat × List Json)}
    {seq : Nat} {payload : Bytes} {tag : Tag}
    (mem : codec.encode (.records seq payload tag) ∈ codec.encode (.header body sig) ::
      (sealed.map some ++ [none]).map fun item => codec.encode (ending.frame codec keys item)) :
    (seq, payload) ∈ sealed.map fun item => (item.1, codec.text item.2) := by
  rcases mem_cons.mp mem with same | mem
  · cases codec.encode_injective same
  · rcases mem_map.mp mem with ⟨item, itemMem, same⟩
    have frame := codec.encode_injective same
    cases item with
    | none => cases frame
    | some item =>
      simp only [Ending.frame, recordsFrame, Frame.records.injEq] at frame
      rw [List.mem_map]
      refine ⟨item, ?_, Prod.ext frame.1 frame.2.1⟩
      simpa using itemMem

/-- A genuine end frame is the one of the run. -/
theorem eq_ending_of_encode_mem {body sig : Bytes} {sealed : List (Nat × List Json)}
    {frames : Nat} {totals : Totals} {tag : Tag}
    (mem : codec.encode (.endFrame frames totals tag) ∈ codec.encode (.header body sig) ::
      (sealed.map some ++ [none]).map fun item => codec.encode (ending.frame codec keys item)) :
    frames = ending.frames ∧ totals = ending.totals := by
  rcases mem_cons.mp mem with same | mem
  · cases codec.encode_injective same
  · rcases mem_map.mp mem with ⟨item, -, same⟩
    have frame := codec.encode_injective same
    cases item with
    | none =>
      simp only [Ending.frame, Frame.endFrame.injEq] at frame
      exact ⟨frame.1.symm, frame.2.1.symm⟩
    | some item => cases frame

end Frames

/-! ## Exactly once -/

/-- Two lists of numbers of one length with one sum of summands are the same up to
order. -/
def NoCollision (keys : Keys Tag) (first second : List Nat) : Prop :=
  first.length = second.length → Reader.sumOf keys first = Reader.sumOf keys second →
    first.Perm second

/-- A reader that finishes has counted as many frames as the end says, with the sum of
all numbers below. -/
theorem Reader.finish_counted {keys : Keys Tag} {expectation : Expectation} {seqs : List Nat}
    {reader : Reader Tag} (counted : Counted keys expectation seqs reader) {totals : Totals}
    (finished : reader.finish = .ok totals) :
    ∃ frames, reader.ended = some (frames, totals) ∧ seqs.length = frames ∧
      sumOf keys seqs = sumOf keys (List.range frames) := by
  unfold finish at finished
  rw [counted.sameKeys] at finished
  split at finished
  · cases finished
  · cases finished
  · rename_i found frames last same ended
    cases same
    dsimp only at finished
    split at finished
    · rename_i agrees
      cases finished
      rw [extend_eq _ _ _ counted.expected] at agrees
      rcases agrees with ⟨count, upto, sum⟩
      refine ⟨frames, ended, counted.frames.symm.trans count, ?_⟩
      rw [← counted.sum]
      change max reader.expectedUpto frames = frames at upto
      rw [sum, upto]
    · cases finished

/-- Frames that all carry numbers of distinct sealed ones, as many as there may be, are
the sealed ones in some order. -/
theorem perm_of_numbers_perm {accepted sealed : List (Nat × Bytes)} {frames : Nat}
    (genuine : ∀ item ∈ accepted, item ∈ sealed) (distinct : (sealed.map Prod.fst).Nodup)
    (below : ∀ item ∈ sealed, item.1 < frames)
    (numbers : (accepted.map Prod.fst).Perm (List.range frames)) : accepted.Perm sealed := by
  have once : accepted.Nodup := .of_map _ (numbers.nodup_iff.mpr nodup_range)
  have within := subperm_of_subset once genuine
  apply within.perm_of_length_le
  have fewer : (sealed.map Prod.fst).Subperm (range frames) := by
    apply subperm_of_subset distinct
    intro number mem
    rcases mem_map.mp mem with ⟨item, itemMem, rfl⟩
    exact mem_range.mpr (below item itemMem)
  have count := numbers.length_eq
  rw [length_map] at count
  have limit := fewer.length_le
  rw [length_map] at limit
  exact limit.trans count.symm.le

/-! ## Accepting all frames -/

/-- A record of a type the reader accepts. -/
def Json.Typed (record : Json) : Prop :=
  record.get "type" = some (.text "operation_result") ∨ record.get "type" = some (.text "error")

theorem typed_failureRecords (codec : Codec Tag Encoded) (change : Change) (dst : Option Bytes)
    (errorClass error : String) :
    ∀ record ∈ failureRecords codec change dst errorClass error, record.Typed := by
  intro record mem
  rcases mem_cons.mp mem with rfl | mem
  · exact .inr (Object.get_ofFields _ (by simp))
  · rcases mem_toList.mp mem with mem
    rcases map_eq_some_iff.mp mem with ⟨path, -, rfl⟩
    exact .inl (Object.get_ofFields _ (by simp [Change.kindField]))

theorem typed_successRecords (change : Change) (dst : Option Bytes) :
    ∀ record ∈ successRecords change dst, record.Typed := by
  intro record mem
  unfold successRecords at mem
  split at mem
  · cases mem
  · cases mem
  · cases mem
  · obtain rfl := mem_singleton.mp mem
    refine .inl (Object.get_ofFields _ ?_)
    cases change <;> simp [Change.kindField, Change.bytesField, Change.action]

/-- Whatever is listed has a type the reader accepts. -/
theorem typed_listing (codec : Codec Tag Encoded) (event : Event) :
    ∀ record ∈ event.listing codec, record.Typed := by
  intro record mem
  cases event with
  | takeFrames now => cases mem
  | records now call =>
    cases call with
    | record change dst error =>
      cases error with
      | none => exact typed_successRecords change dst record mem
      | some error => exact typed_failureRecords codec change dst _ _ record mem
    | recordRetried change dst error =>
      dsimp only [Event.listing, Call.listing] at mem
      split at mem
      · cases mem
      · exact typed_failureRecords codec change dst _ _ record mem
    | refused msg changes =>
      rcases mem_append.mp mem with each | whole
      · rcases mem_flatMap.mp each with ⟨⟨none | dst, change⟩, -, mem⟩
        · cases mem
        · exact typed_failureRecords codec change (some dst) _ msg record mem
      · split at whole
        · cases whole
        · exact typed_failureRecords codec _ _ _ _ record whole

theorem typed_run (codec : Codec Tag Encoded) (listed : Bool) (events : List Event)
    (held : List (Bytes × RetriedFailure)) :
    ∀ record ∈ (if listed then events.flatMap (Event.listing codec) else []) ++
      (if listed then retriedListing codec held else []), record.Typed := by
  cases listed with
  | false => exact nofun
  | true =>
    intro record mem
    rcases mem_append.mp mem with listing | ending
    · rcases mem_flatMap.mp listing with ⟨event, -, mem⟩
      exact typed_listing codec event record mem
    · rcases mem_flatMap.mp ending with ⟨item, -, mem⟩
      exact typed_failureRecords codec _ _ _ _ record mem

namespace Reader

variable {codec : Codec Tag Encoded} {trust : Trust Tag} {keys : Keys Tag} {ending : Ending}
  {expectation : Expectation} {reader : Reader Tag} {seqs : List Nat}

/-- The records of a frame are read back from its payload. -/
theorem decodeRecords_text {records : List Json} (typed : ∀ record ∈ records, record.Typed) :
    (pieces 10 (codec.text records)).mapM (decodeRecord codec) = .ok records := by
  unfold Codec.text
  rw [pieces_unlines fun _ => Codec.isLine_of_mem]
  induction records with
  | nil => rfl
  | cons record rest ih =>
    rw [forall_mem_cons] at typed
    have decoded : decodeRecord codec (codec.write record) = .ok record := by
      unfold decodeRecord
      rw [codec.parse_write]
      exact if_pos typed.1
    simp [mapM_cons, decoded, ih typed.2, bind, Except.bind, pure, Except.pure]

/-- A frame of a finished run, as the reader needs it. -/
def Fits (codec : Codec Tag Encoded) (keys : Keys Tag) (ending : Ending) (listed : Bool)
    (item : Option (Nat × List Json)) : Prop :=
  codec.len (codec.encode (ending.frame codec keys item)) ≤ maxFrameBytes ∧
    ∀ frame, item = some frame → frame.1 < ending.frames ∧
      (∀ record ∈ frame.2, record.Typed) ∧ (listed = false → frame.2 = [])

variable [DecidableEq Tag]

variable (counted : Counted keys expectation seqs reader)

include counted

/-- The end frame of a run is accepted once. -/
theorem accept_end (short : codec.len (codec.encode (ending.frame codec keys none)) ≤ maxFrameBytes)
    (first : reader.ended = none) :
    reader.accept codec trust (codec.encode (ending.frame codec keys none)) =
      .ok ({ reader with ended := some (ending.frames, ending.totals) }, []) := by
  unfold accept
  rw [if_neg (not_lt.mpr short), codec.decode_encode, counted.sameKeys, first]
  simp [Ending.frame]

/-- A frame of records of a run is accepted, before and after the end. -/
theorem accept_records {frame : Nat × List Json}
    (fits : Fits codec keys ending expectation.records (some frame)) (room : seqs.length < u64Max)
    (before : ∀ last, reader.ended = some last → last.1 = ending.frames) :
    reader.accept codec trust (codec.encode (ending.frame codec keys (some frame))) =
      .ok (reader.counting keys frame.1, frame.2) := by
  rcases fits with ⟨short, frameFits⟩
  rcases frameFits frame rfl with ⟨below, typed, unlisted⟩
  unfold accept
  rw [if_neg (not_lt.mpr short), codec.decode_encode, counted.sameKeys]
  simp only [Ending.frame, recordsFrame, ne_eq, not_true_eq_false, if_false]
  rw [acceptRecords_eq_ok_iff]
  refine ⟨?_, counted.frames.symm ▸ room, ?_, decodeRecords_text typed, rfl⟩
  · intro frames totals ended
    exact below.trans_eq (before _ ended).symm
  · intro none
    rw [counted.sameExpectation] at none
    rw [unlisted none, Codec.text_nil]

/-- The frames of a run are accepted in any order, the end at most once. -/
theorem acceptAll_frames {items : List (Option (Nat × List Json))}
    (fits : ∀ item ∈ items, Fits codec keys ending expectation.records item)
    (room : seqs.length + items.reduceOption.length ≤ u64Max)
    (once : reader.ended = none ∧ items.count none ≤ 1 ∨
      reader.ended = some (ending.frames, ending.totals) ∧ none ∉ items) :
    ∃ next, reader.acceptAll codec trust
        (items.map fun item => codec.encode (ending.frame codec keys item)) =
          .ok (next, items.reduceOption.flatMap Prod.snd) ∧
      Counted keys expectation (seqs ++ items.reduceOption.map Prod.fst) next ∧
      (none ∈ items → next.ended = some (ending.frames, ending.totals)) ∧
      (none ∉ items → next.ended = reader.ended) := by
  induction items generalizing reader seqs with
  | nil => exact ⟨reader, rfl, by simpa using counted, nofun, fun _ => rfl⟩
  | cons item rest ih =>
    rw [forall_mem_cons] at fits
    cases item with
    | none =>
      rcases once with ⟨first, count⟩ | ⟨-, none⟩
      · have last : none ∉ rest := by
          rw [count_cons_self] at count
          exact count_eq_zero.mp (Nat.le_zero.mp (Nat.le_of_succ_le_succ count))
        have after : Counted keys expectation seqs
            { reader with ended := some (ending.frames, ending.totals) } := { counted with }
        rcases ih after fits.2 (by simpa using room) (.inr ⟨rfl, last⟩) with
          ⟨next, accepted, counts, -, ended⟩
        refine ⟨next, ?_, by simpa using counts, fun _ => ended last, by simp⟩
        rw [map_cons, acceptAll_cons_eq_ok_iff]
        exact ⟨_, _, _, accept_end counted fits.1.1 first, accepted, by simp⟩
      · exact absurd mem_cons_self none
    | some frame =>
      have more : seqs.length + (rest.reduceOption.length + 1) ≤ u64Max := by simpa using room
      have before : ∀ last, reader.ended = some last → last.1 = ending.frames := by
        intro last ended
        rcases once with ⟨first, -⟩ | ⟨ended', -⟩
        · cases first.symm.trans ended
        · cases ended'.symm.trans ended
          rfl
      rcases counted.counting frame.1 with ⟨after, same⟩
      have here : reader.accept codec trust _ = _ :=
        accept_records counted fits.1 (by omega) before
      rcases ih after fits.2 (by simp; omega)
        (by simpa [same] using once) with ⟨next, accepted, counts, ends, ended⟩
      refine ⟨next, ?_, by simpa using counts, by simpa using ends, ?_⟩
      · rw [map_cons, acceptAll_cons_eq_ok_iff]
        exact ⟨_, _, _, here, accepted, by simp⟩
      · intro none
        rw [← same]
        exact ended (by simpa using none)

end Reader

/-! ## The stream as a whole -/

/-- The destination signed the header for this machine, and both ends derived the keys of
one exchange. -/
structure Agreed (trust : Trust Tag) (expectation : Expectation) (keys : Keys Tag)
    (encapsulatedKey signature : Bytes) : Prop where
  shortBody : (trust.encodeHeader
    ⟨expectation.binding, encapsulatedKey, expectation.records⟩).length ≤ maxHeaderBytes
  shortSignature : signature.length ≤ maxSignatureBytes
  verifies : trust.verify expectation.publicKey
    (trust.encodeHeader ⟨expectation.binding, encapsulatedKey, expectation.records⟩) signature =
      .ok ()
  exchanged : trust.receive expectation.secret encapsulatedKey expectation.binding = .ok keys

section Whole

variable {codec : Codec Tag Encoded} {trust : Trust Tag} {expectation : Expectation}
  {keys : Keys Tag} {encapsulatedKey sig : Bytes}

/-- The header an honest destination sends to a machine. -/
def Trust.header (trust : Trust Tag) (codec : Codec Tag Encoded) (expectation : Expectation)
    (encapsulatedKey signature : Bytes) : Encoded :=
  codec.encode (.header
    (trust.encodeHeader ⟨expectation.binding, encapsulatedKey, expectation.records⟩) signature)

theorem Agreed.verifyHeader (agreed : Agreed trust expectation keys encapsulatedKey sig) :
    Reader.verifyHeader trust expectation
      (trust.encodeHeader ⟨expectation.binding, encapsulatedKey, expectation.records⟩) sig =
        .ok keys := by
  unfold Reader.verifyHeader
  simp [agreed.shortBody, agreed.shortSignature, agreed.verifies, trust.decode_encodeHeader,
    agreed.exchanged, not_lt.mpr, bind, Except.bind]

variable [DecidableEq Tag]

/-- The reader after the header. -/
theorem Agreed.accept_header (agreed : Agreed trust expectation keys encapsulatedKey sig)
    (short : codec.len (trust.header codec expectation encapsulatedKey sig) ≤ maxFrameBytes) :
    ∃ reader, (Reader.new expectation).accept codec trust
        (trust.header codec expectation encapsulatedKey sig) = .ok (reader, []) ∧
      Reader.Counted keys expectation [] reader ∧ reader.ended = none := by
  refine ⟨⟨expectation, some keys, 0, 0, 0, 0, none⟩, ?_, ?_, rfl⟩
  · unfold accept
    rw [if_neg (not_lt.mpr short), Trust.header, codec.decode_encode]
    simp only [new]
    rw [agreed.verifyHeader]
    rfl
  · exact ⟨rfl, rfl, rfl, rfl, rfl, fun bound _ => Nat.zero_le bound⟩

/-- After the header, frames that verify and finish are all frames of the run, once. -/
theorem exactly_once {sealed : List (Nat × List Json)} {ending : Ending} {body : Bytes}
    (ordered : (sealed.map Prod.fst).Pairwise (· < ·))
    (below : ∀ item ∈ sealed, item.1 < ending.frames)
    {first reader : Reader Tag} (counted : Reader.Counted keys expectation [] first)
    (notEnded : first.ended = none) {delivered : List Encoded} {lines : List Json}
    {found : Totals}
    (unforged : Unforged codec keys (codec.encode (.header body sig) ::
      (sealed.map some ++ [none]).map fun item => codec.encode (ending.frame codec keys item))
      delivered)
    (noCollision : NoCollision keys ((delivered.filterMap (Reader.recordsOf codec)).map Prod.fst)
      (List.range ending.frames))
    (accepted : first.acceptAll codec trust delivered = .ok (reader, lines))
    (finished : reader.finish = .ok found) :
    found = ending.totals ∧
      (delivered.filterMap (Reader.recordsOf codec)).Perm
        (sealed.map fun item => (item.1, codec.text item.2)) ∧
      ((delivered.filterMap (Reader.recordsOf codec)).map Prod.fst).Perm
        (List.range ending.frames) := by
  rcases acceptAll_counted counted accepted with ⟨counts, genuine, ends⟩
  rcases finish_counted counts finished with ⟨frames, ended, count, sum⟩
  rcases ends _ ended with before | ⟨encoded, mem, decoded⟩
  · cases notEnded.symm.trans before
  obtain ⟨rfl, rfl⟩ := eq_ending_of_encode_mem (unforged.ends encoded mem _ _ decoded)
  have numbers : ((delivered.filterMap (recordsOf codec)).map Prod.fst).Perm
      (range ending.frames) :=
    noCollision (count.trans length_range.symm) sum
  refine ⟨rfl, ?_, numbers⟩
  apply perm_of_numbers_perm _ _ _ numbers
  · intro item itemMem
    rcases mem_filterMap.mp itemMem with ⟨encoded, encodedMem, itemEq⟩
    have decoded := genuine encoded encodedMem item itemEq
    exact mem_sealed_of_encode_mem (unforged.records encoded encodedMem _ _ decoded)
  · rw [List.map_map]
    exact ordered.imp ne_of_lt
  · intro item mem
    rcases mem_map.mp mem with ⟨frame, frameMem, rfl⟩
    exact below frame frameMem

/-- After the header, all frames of a run are accepted in any order and give the totals. -/
theorem accepted_in_any_order {sealed : List (Nat × List Json)} {ending : Ending}
    (fits : ∀ item ∈ sealed.map some ++ [none],
      Reader.Fits codec keys ending expectation.records item)
    (numbers : sealed.map Prod.fst = List.range ending.frames) (bound : ending.frames ≤ u64Max)
    {first : Reader Tag} (counted : Reader.Counted keys expectation [] first)
    (notEnded : first.ended = none) {delivered : List Encoded}
    (perm : delivered.Perm ((sealed.map some ++ [none]).map fun item =>
      codec.encode (ending.frame codec keys item))) :
    ∃ reader lines, first.acceptAll codec trust delivered = .ok (reader, lines) ∧
      lines.Perm (sealed.flatMap Prod.snd) ∧ reader.finish = .ok ending.totals := by
  -- The delivered frames are those of the same items in another order.
  rcases exists_map_eq_of_perm_map perm with ⟨items, rfl, itemsPerm⟩
  have reduced : items.reduceOption.Perm sealed := by
    have same := itemsPerm.filterMap id
    simpa [reduceOption] using same
  have count : items.reduceOption.length = ending.frames := by
    have length := congrArg length numbers
    rwa [length_map, length_range, ← reduced.length_eq] at length
  have once : items.count none ≤ 1 := by
    have unsealed : List.count none (sealed.map some) = 0 := List.count_eq_zero.mpr (by simp)
    rw [itemsPerm.count_eq, count_append, unsealed]
    simp
  rcases acceptAll_frames counted (fun item mem => fits item (itemsPerm.mem_iff.mp mem))
    (by simpa [count] using bound) (.inl ⟨notEnded, once⟩) with ⟨reader, accepted, counts, ends, -⟩
  refine ⟨reader, _, accepted, reduced.flatMap_right _, ?_⟩
  rw [nil_append] at counts
  have seqs : (items.reduceOption.map Prod.fst).Perm (range ending.frames) :=
    numbers ▸ reduced.map Prod.fst
  have upto : reader.expectedUpto ≤ ending.frames :=
    counts.upto _ fun seq mem => mem_range.mp (seqs.mem_iff.mp mem)
  unfold finish
  rw [counts.sameKeys, ends (itemsPerm.mem_iff.mpr (by simp))]
  dsimp only
  rw [extend_eq _ _ _ counts.expected]
  apply if_pos
  refine ⟨?_, max_eq_right upto, ?_⟩
  · rw [counts.frames, length_map, count]
  · rw [max_eq_right upto, counts.sum]
    exact (seqs.map keys.summand).sum_eq

end Whole

/-! ## One directory, read back to front -/

def headerBodyCode : Lib.Codec ((Bytes × Bytes × Bytes) × Bytes × Bool) :=
  .pair (.pair .bytes (.pair .bytes .bytes)) (.pair .bytes .bool)

/-- Every signature verifies, and every exchange gives the plain keys. -/
def Trust.plain : Trust FrameTag where
  verify _ _ _ := .ok ()
  encodeHeader header := headerBodyCode.encode ((header.binding.enrollmentId,
    header.binding.requestId, header.binding.grantDigest), header.encapsulatedKey, header.records)
  decodeHeader text := (headerBodyCode.decode text).map fun read =>
    ⟨⟨read.1.1.1, read.1.1.2.1, read.1.1.2.2⟩, read.1.2.1, read.1.2.2⟩
  decode_encodeHeader header := by rw [Lib.Codec.decode_whole]; rfl
  receive _ _ _ := .ok .plain

def Expectation.plain : Expectation :=
  ⟨"key", ⟨replicate 16 1, replicate 16 2, replicate 32 3⟩, replicate 32 4, true⟩

def encapsulated : Bytes :=
  replicate 32 5

def directoryRecord : Json :=
  .object (.ofFields [("type", .text "operation_result"), ("action", .text "create_directory"),
    ("dst", .tagged [97]), ("disposition", .text "succeeded"), ("kind", .text "dir")])

/-- Its keys are in order, and a path is tagged with its encoding. -/
example : directoryRecord.write = utf8 ("\x7b\"action\":\"create_directory\"," ++
    "\"disposition\":\"succeeded\",\"dst\":\x7b\"encoding\":\"utf-8\",\"value\":\"a\"\x7d," ++
    "\"kind\":\"dir\",\"type\":\"operation_result\"\x7d") := by
  decide +kernel

def headerFrame : Bytes :=
  Trust.plain.header .wire .plain encapsulated []

def directoryFrame : Bytes :=
  Codec.wire.encode (recordsFrame .wire .plain (0, [directoryRecord]))

def directoryTotals : Totals :=
  ⟨0, 5, 1, 0, 0, 0, 0, 0⟩

def endFrame : Bytes :=
  Codec.wire.encode (.endFrame 1 directoryTotals (Keys.plain.endTag 1 directoryTotals))

def Stream.plain : Stream FrameTag Bytes :=
  ⟨.plain, true, 0, [], none, [headerFrame], ∅, .zero, false⟩

/-- A stream that lists one directory. -/
def Sent.oneDirectory : Sent FrameTag Bytes :=
  .run .wire .plain [.records 0 (.record .ensureDirectory (some [97]) none)]

end Syq.Results
