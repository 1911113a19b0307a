import Syq.Lib.Codec
import Syq.Lib.Lines

/-!
# Objects and their texts

`serde_json` keeps an object as a map in the order of its keys, and writes it in that order.
The text has no spaces and escapes quotes, backslashes and control characters, so it is one
line; reading it gives the object back.
-/

namespace Syq.Results

open Syq.Lib List

abbrev Bytes := List UInt8

/-! ## Objects -/

/-- The value of a record's field. -/
inductive Field where
  | text (value : String)
  | number (value : Nat)
  /-- A path, written as UTF-8 text or in base64. -/
  | tagged (path : Bytes)
  deriving DecidableEq

/-- The fields of an object, in the order of their keys. -/
structure Object where
  fields : List (String × Field)
  sorted : fields.Pairwise fun first second => first.1 < second.1
  deriving DecidableEq

/-- A JSON value, as far as the reader looks into it. -/
inductive Json where
  | object (object : Object)
  | other
  deriving DecidableEq

namespace Object

variable {key other : String} {value : Field} {fields : List (String × Field)}

/-- Set a field where the order puts it. -/
def put (key : String) (value : Field) : List (String × Field) → List (String × Field)
  | [] => [(key, value)]
  | field :: rest =>
    if key < field.1 then (key, value) :: field :: rest
    else if key = field.1 then (key, value) :: rest
    else field :: put key value rest

theorem key_of_mem_put {field : String × Field} (mem : field ∈ put key value fields) :
    field.1 = key ∨ field ∈ fields := by
  fun_induction put key value fields <;> grind

theorem pairwise_put (sorted : fields.Pairwise fun first second => first.1 < second.1) :
    (put key value fields).Pairwise fun first second => first.1 < second.1 := by
  induction fields with
  | nil => exact pairwise_singleton _ _
  | cons field rest ih =>
    rw [pairwise_cons] at sorted
    unfold put
    split_ifs with before same
    · refine pairwise_cons.mpr ⟨forall_mem_cons.mpr ⟨before, fun next mem => ?_⟩,
        pairwise_cons.mpr sorted⟩
      exact before.trans (sorted.1 next mem)
    · exact pairwise_cons.mpr ⟨same ▸ sorted.1, sorted.2⟩
    · refine pairwise_cons.mpr ⟨fun next mem => ?_, ih sorted.2⟩
      rcases key_of_mem_put mem with rfl | old
      · exact lt_of_le_of_ne (not_lt.mp before) (Ne.symm same)
      · exact sorted.1 next old

def insert (object : Object) (field : String × Field) : Object :=
  ⟨put field.1 field.2 object.fields, pairwise_put object.sorted⟩

/-- Fields set one after another; a later one replaces an earlier one with its key. -/
def ofFields (fields : List (String × Field)) : Object :=
  fields.foldl insert ⟨[], .nil⟩

def get (object : Object) (key : String) : Option Field :=
  (object.fields.find? fun field => field.1 == key).map Prod.snd

theorem get_insert (object : Object) (field : String × Field) (key : String) :
    (object.insert field).get key = if field.1 = key then some field.2 else object.get key := by
  rcases object with ⟨fields, sorted⟩
  unfold get insert
  dsimp only
  induction fields with
  | nil =>
    by_cases same : field.1 = key <;> simp [put, same]
  | cons head rest ih =>
    rw [pairwise_cons] at sorted
    have later := ih sorted.2
    unfold put
    split_ifs with before same here <;> grind

/-- A field that no later one replaces is found. -/
theorem get_ofFields (value : Field) {rest : List (String × Field)}
    (absent : ∀ field ∈ rest, field.1 ≠ key) :
    (ofFields ((key, value) :: rest)).get key = some value := by
  have kept : ∀ object : Object, (rest.foldl insert object).get key = object.get key := by
    induction rest with
    | nil => exact fun _ => rfl
    | cons field rest ih =>
      rw [forall_mem_cons] at absent
      intro object
      rw [foldl_cons, ih absent.2, get_insert, if_neg absent.1]
  exact (kept _).trans ((get_insert _ _ _).trans (if_pos rfl))

/-- Fields in the order of their keys stay as they are. -/
theorem foldl_insert {object : Object} {rest : List (String × Field)}
    (sorted : (object.fields ++ rest).Pairwise fun first second => first.1 < second.1) :
    (rest.foldl insert object).fields = object.fields ++ rest := by
  induction rest generalizing object with
  | nil => exact (append_nil _).symm
  | cons field rest ih =>
    have last : ∀ fields : List (String × Field), (∀ before ∈ fields, before.1 < field.1) →
        put field.1 field.2 fields = fields ++ [field] := by
      intro fields below
      induction fields with
      | nil => rfl
      | cons head fields ih =>
        rw [forall_mem_cons] at below
        rw [put, if_neg below.1.not_gt, if_neg below.1.ne', ih below.2, cons_append]
    have grown : (object.insert field).fields = object.fields ++ [field] :=
      last _ fun before mem => (pairwise_append.mp sorted).2.2 before mem field mem_cons_self
    rw [foldl_cons, ih (by rwa [grown, append_assoc]), grown, append_assoc, singleton_append]

theorem ofFields_fields (object : Object) : ofFields object.fields = object := by
  have same := @foldl_insert ⟨[], .nil⟩ object.fields object.sorted
  rcases object with ⟨fields, sorted⟩
  exact congrArg (fun list : { list // _ } => Object.mk list.1 list.2)
    (Subtype.ext same : (⟨_, (ofFields fields).sorted⟩ : { list : List (String × Field) //
      list.Pairwise fun first second => first.1 < second.1 }) = ⟨fields, sorted⟩)

end Object

def Json.get : Json → String → Option Field
  | .object fields, key => fields.get key
  | .other, _ => none

/-! ## Texts -/

def hexDigit (value : Nat) : UInt8 :=
  if value < 10 then .ofNat (48 + value) else .ofNat (87 + value)

def hexValue (digit : UInt8) : Nat :=
  if digit < 58 then digit.toNat - 48 else digit.toNat - 87

def escape (byte : UInt8) : Bytes :=
  if byte = 34 ∨ byte = 92 then [92, byte]
  else if byte < 32 then [92, 117, 48, 48, hexDigit (byte.toNat / 16), hexDigit (byte.toNat % 16)]
  else [byte]

/-- The rest of a string after its opening quote. -/
def writeText (bytes : Bytes) : Bytes :=
  bytes.flatMap escape ++ [34]

def readText : Bytes → Option (Bytes × Bytes)
  | [] => none
  | 34 :: rest => some ([], rest)
  | 92 :: 117 :: 48 :: 48 :: high :: low :: rest => (readText rest).map fun read =>
    (.ofNat (hexValue high * 16 + hexValue low) :: read.1, read.2)
  | 92 :: byte :: rest => (readText rest).map fun read => (byte :: read.1, read.2)
  | byte :: rest => (readText rest).map fun read => (byte :: read.1, read.2)

def utf8 (value : String) : Bytes :=
  value.toUTF8.data.toList

def readString (text : Bytes) : Option (String × Bytes) := do
  let (bytes, rest) ← readText text
  let value ← String.fromUTF8? ⟨bytes.toArray⟩
  some (value, rest)

def decimal (value : Nat) : Bytes :=
  if value = 0 then [48] else ((Nat.digits 10 value).map fun digit => .ofNat (48 + digit)).reverse

def isDigit (byte : UInt8) : Bool :=
  48 ≤ byte && byte ≤ 57

def utf8Head : Bytes :=
  utf8 "\"encoding\":\"utf-8\",\"value\":\""

def base64Head : Bytes :=
  utf8 "\"encoding\":\"base64\",\"value\":\""

/-- A path after the opening brace. -/
def writeTagged (path : Bytes) : Bytes :=
  if isUtf8 path then utf8Head ++ writeText path ++ [125]
  else base64Head ++ writeText (Base64.encode path) ++ [125]

def Field.write : Field → Bytes
  | .text value => 34 :: writeText (utf8 value)
  | .number value => decimal value
  | .tagged path => 123 :: writeTagged path

/-- The rest of a string and the brace after it. -/
def readClosed (text : Bytes) : Option (Bytes × Bytes) :=
  match readText text with
  | some (bytes, 125 :: rest) => some (bytes, rest)
  | _ => none

def readTagged (text : Bytes) : Option (Bytes × Bytes) :=
  if utf8Head <+: text then readClosed (text.drop utf8Head.length)
  else if base64Head <+: text then do
    let (bytes, rest) ← readClosed (text.drop base64Head.length)
    let path ← Base64.decode bytes
    some (path, rest)
  else none

def readNumber (text : Bytes) : Option (Nat × Bytes) :=
  let digits := text.takeWhile isDigit
  if digits = [] then none
  else some (Nat.ofDigits 10 (digits.reverse.map fun digit => digit.toNat - 48),
    text.dropWhile isDigit)

def Field.read : Bytes → Option (Field × Bytes)
  | 34 :: rest => (readString rest).map fun read => (.text read.1, read.2)
  | 123 :: rest => (readTagged rest).map fun read => (.tagged read.1, read.2)
  | bytes => (readNumber bytes).map fun read => (.number read.1, read.2)

/-- The fields of an object after the opening brace. -/
def writeFields : List (String × Field) → Bytes
  | [] => [125]
  | [field] => 34 :: (writeText (utf8 field.1) ++ 58 :: (field.2.write ++ [125]))
  | field :: rest =>
    34 :: (writeText (utf8 field.1) ++ 58 :: (field.2.write ++ 44 :: writeFields rest))

def readField : Bytes → Option ((String × Field) × Bytes)
  | 34 :: text => do
      let (key, rest) ← readString text
      match rest with
      | 58 :: rest => (Field.read rest).map fun read => ((key, read.1), read.2)
      | _ => none
  | _ => none

def readFields : Nat → Bytes → Option (List (String × Field))
  | 0, _ => none
  | fuel + 1, text =>
    match readField text with
    | some (field, [125]) => some [field]
    | some (field, 44 :: rest) => (readFields fuel rest).map (field :: ·)
    | _ => none

def Json.write : Json → Bytes
  | .object fields => 123 :: writeFields fields.fields
  | .other => utf8 "null"

def Json.parse (line : Bytes) : Option Json :=
  if line = [123, 125] then some (.object (.ofFields []))
  else if line = utf8 "null" then some .other
  else match line with
    | 123 :: text => (readFields line.length text).map fun fields => .object (.ofFields fields)
    | _ => none

/-! ## Reading what was written -/

theorem hexValue_hexDigit : ∀ value < 16, hexValue (hexDigit value) = value := by
  decide

theorem readText_escape (byte : UInt8) (rest : Bytes) :
    readText (escape byte ++ rest) =
      (readText rest).map fun read => (byte :: read.1, read.2) := by
  unfold escape
  split_ifs with quoted control
  · rcases quoted with rfl | rfl <;> simp [readText]
  · have small : byte.toNat < 32 := control
    have joined : UInt8.ofNat (hexValue (hexDigit (byte.toNat / 16)) * 16 +
        hexValue (hexDigit (byte.toNat % 16))) = byte := by
      rw [hexValue_hexDigit _ (by omega), hexValue_hexDigit _ (by omega), Nat.div_add_mod']
      exact UInt8.ofNat_toNat
    simp only [cons_append, nil_append, readText, joined]
  · rw [not_or] at quoted
    rw [singleton_append, readText.eq_def]
    grind

theorem readText_write (bytes rest : Bytes) :
    readText (writeText bytes ++ rest) = some (bytes, rest) := by
  unfold writeText
  induction bytes with
  | nil => rfl
  | cons byte bytes ih =>
    rw [flatMap_cons, append_assoc, append_assoc, readText_escape, ← append_assoc, ih]
    rfl

theorem readString_write (value : String) (rest : Bytes) :
    readString (writeText (utf8 value) ++ rest) = some (value, rest) := by
  unfold readString
  rw [readText_write]
  simp only [Option.bind_eq_bind, Option.bind_some, utf8, Codec.fromUTF8?_toUTF8]

/-- The text goes on with something that is no digit. -/
def Ends (rest : Bytes) : Prop :=
  ∃ byte more, rest = byte :: more ∧ isDigit byte = false

theorem digits_decimal (value : Nat) : (∀ byte ∈ decimal value, isDigit byte = true) ∧
    decimal value ≠ [] ∧
    Nat.ofDigits 10 ((decimal value).reverse.map fun digit => digit.toNat - 48) = value := by
  unfold decimal
  split_ifs with zero
  · subst zero
    exact ⟨forall_mem_singleton.mpr rfl, by decide, rfl⟩
  · have small : ∀ digit ∈ Nat.digits 10 value, digit < 10 :=
      fun digit => Nat.digits_lt_base (by decide)
    have digit : ∀ digit < 10, isDigit (.ofNat (48 + digit)) = true ∧
        (UInt8.ofNat (48 + digit)).toNat - 48 = digit := by decide
    have same : (Nat.digits 10 value).map
        ((fun byte => byte.toNat - 48) ∘ fun digit => UInt8.ofNat (48 + digit)) =
          Nat.digits 10 value :=
      (map_congr_left fun place mem => (digit place (small place mem)).2).trans (map_id _)
    refine ⟨?_, by simpa [Nat.digits_eq_nil_iff_eq_zero] using zero, ?_⟩
    · intro byte mem
      rcases mem_map.mp (mem_reverse.mp mem) with ⟨place, placeMem, rfl⟩
      exact (digit place (small place placeMem)).1
    · rw [reverse_reverse, map_map, same, Nat.ofDigits_digits]

theorem readNumber_decimal (value : Nat) {rest : Bytes} (ends : Ends rest) :
    readNumber (decimal value ++ rest) = some (value, rest) := by
  rcases digits_decimal value with ⟨digits, ne, same⟩
  rcases ends with ⟨byte, more, rfl, stops⟩
  have taken : (decimal value ++ byte :: more).takeWhile isDigit = decimal value := by
    rw [takeWhile_append_of_pos digits, takeWhile_cons_of_neg (by simp [stops]), append_nil]
  have left : (decimal value ++ byte :: more).dropWhile isDigit = byte :: more := by
    rw [dropWhile_append_of_pos digits, dropWhile_cons_of_neg (by simp [stops])]
  rw [readNumber, taken, if_neg ne, left, same]

theorem readTagged_write (path rest : Bytes) :
    readTagged (writeTagged path ++ rest) = some (path, rest) := by
  have closed : ∀ bytes, readClosed (writeText bytes ++ 125 :: rest) = some (bytes, rest) := by
    intro bytes
    rw [readClosed, readText_write]
    rfl
  unfold writeTagged
  split_ifs
  · rw [append_assoc, append_assoc, singleton_append, readTagged, if_pos (prefix_append _ _),
      drop_left, closed]
  · rw [append_assoc, append_assoc, singleton_append, readTagged, if_neg,
      if_pos (prefix_append _ _), drop_left, closed]
    · simp [Base64.decode_encode]
    · intro start
      have long : utf8Head.length ≤ base64Head.length := by decide +kernel
      have inside := prefix_of_prefix_length_le start (prefix_append base64Head _) long
      exact absurd inside (by decide +kernel)

theorem Field.read_write (field : Field) {rest : Bytes} (ends : Ends rest) :
    Field.read (field.write ++ rest) = some (field, rest) := by
  cases field with
  | text value =>
    rw [Field.write, cons_append, Field.read, readString_write]
    rfl
  | tagged path =>
    rw [Field.write, cons_append, Field.read, readTagged_write]
    rfl
  | number value =>
    rcases digits_decimal value with ⟨digits, ne, -⟩
    have noHead : ∀ head, isDigit head = false → ∀ text, decimal value ++ rest ≠ head :: text := by
      intro head other text split
      rcases ne_nil_iff_exists_cons.mp ne with ⟨first, more, whole⟩
      rw [whole, cons_append, cons.injEq] at split
      rw [← split.1, digits first (by simp [whole])] at other
      cases other
    rw [Field.write, Field.read, readNumber_decimal value ends]
    · rfl
    · exact noHead 34 rfl
    · exact noHead 123 rfl

theorem readField_write (field : String × Field) {rest : Bytes} (ends : Ends rest) :
    readField (34 :: (writeText (utf8 field.1) ++ 58 :: (field.2.write ++ rest))) =
      some (field, rest) := by
  rw [readField, readString_write]
  simp [Field.read_write field.2 ends]

theorem readFields_write {fields : List (String × Field)} (ne : fields ≠ []) {fuel : Nat}
    (enough : fields.length ≤ fuel) : readFields fuel (writeFields fields) = some fields := by
  induction fields generalizing fuel with
  | nil => exact absurd rfl ne
  | cons field rest ih =>
    rcases fuel with - | fuel
    · cases enough
    · cases rest with
      | nil =>
        rw [writeFields, readFields, readField_write field ⟨125, [], rfl, rfl⟩]
        rfl
      | cons second rest =>
        rw [writeFields, readFields, readField_write field ⟨44, _, rfl, rfl⟩]
        · simp only [ih (by simp) (Nat.le_of_succ_le_succ enough), Option.map_some]
        · simp

theorem length_le_writeFields (fields : List (String × Field)) :
    fields.length ≤ (writeFields fields).length := by
  fun_induction writeFields fields with
  | case1 => simp
  | case2 field => simp
  | case3 field rest _ ih =>
    simp only [length_cons, length_append]
    omega

theorem Json.parse_write (json : Json) : Json.parse json.write = some json := by
  cases json with
  | other => rfl
  | object object =>
    rcases whole : object.fields with - | ⟨field, rest⟩
    · have empty := object.ofFields_fields
      rw [whole] at empty
      rw [Json.write, whole, writeFields, Json.parse, if_pos rfl, empty]
    · have ne : object.fields ≠ [] := by simp [whole]
      have enough : object.fields.length ≤ (123 :: writeFields object.fields).length :=
        (length_le_writeFields _).trans (Nat.le_succ _)
      rw [Json.write, Json.parse, if_neg, if_neg]
      · rw [readFields_write ne enough, Option.map_some, Object.ofFields_fields]
      · rw [show utf8 "null" = 110 :: utf8 "ull" from rfl]
        simp
      · rw [whole]
        cases rest <;> simp [writeFields]

/-! ## One line -/

theorem escape_printable (byte : UInt8) : ∀ written ∈ escape byte, 32 ≤ written := by
  have digit : ∀ value < 16, 32 ≤ hexDigit value := by decide
  have small := byte.toNat_lt
  unfold escape
  split_ifs with quoted control
  · simp only [forall_mem_cons]
    rcases quoted with rfl | rfl <;> exact ⟨by decide, by decide, by simp⟩
  · simp only [forall_mem_cons]
    exact ⟨by decide, by decide, by decide, by decide, digit _ (by omega), digit _ (by omega),
      by simp⟩
  · rw [forall_mem_singleton]
    exact UInt8.not_lt.mp control

theorem writeText_printable (bytes : Bytes) : ∀ byte ∈ writeText bytes, 32 ≤ byte := by
  unfold writeText
  rw [forall_mem_append, forall_mem_singleton]
  refine ⟨fun byte mem => ?_, by decide⟩
  rcases mem_flatMap.mp mem with ⟨source, -, mem⟩
  exact escape_printable source byte mem

theorem Field.write_printable (field : Field) : ∀ byte ∈ field.write, 32 ≤ byte := by
  cases field with
  | text value => exact forall_mem_cons.mpr ⟨by decide, writeText_printable _⟩
  | number value =>
    intro byte mem
    have digit := (digits_decimal value).1 byte mem
    rw [isDigit, Bool.and_eq_true, decide_eq_true_eq] at digit
    exact UInt8.le_trans (by decide) digit.1
  | tagged path =>
    rw [Field.write, forall_mem_cons]
    refine ⟨by decide, ?_⟩
    unfold writeTagged
    split_ifs
    all_goals
      simp only [forall_mem_append, forall_mem_singleton]
      exact ⟨⟨by decide +kernel, writeText_printable _⟩, by decide⟩

theorem writeFields_printable (fields : List (String × Field)) :
    ∀ byte ∈ writeFields fields, 32 ≤ byte := by
  fun_induction writeFields fields with
  | case1 => exact forall_mem_singleton.mpr (by decide)
  | case2 field =>
    simp only [forall_mem_cons, forall_mem_append]
    exact ⟨by decide, writeText_printable _, by decide, field.2.write_printable, by decide, by simp⟩
  | case3 field rest _ ih =>
    simp only [forall_mem_cons, forall_mem_append]
    exact ⟨by decide, writeText_printable _, by decide, field.2.write_printable, by decide, ih⟩

theorem Json.isLine_write (json : Json) : IsLine 10 json.write := by
  have printable : ∀ byte ∈ json.write, 32 ≤ byte := by
    cases json with
    | other => decide +kernel
    | object object => exact forall_mem_cons.mpr ⟨by decide, writeFields_printable _⟩
  refine ⟨by cases json <;> simp [Json.write]; decide +kernel, fun mem => ?_⟩
  exact absurd (printable 10 mem) (by decide)

end Syq.Results
