import Syq.Lib.Encodings

/-!
# Self-delimiting codes

A code writes a value as bytes and reads it back from the front of a text, leaving what
follows.  Codes of parts make the code of the whole.
-/

namespace Syq.Lib

/-- A code whose reader finds what its writer wrote, whatever follows. -/
structure Codec (α : Type) where
  encode : α → List UInt8
  decode : List UInt8 → Option (α × List UInt8)
  decode_encode : ∀ value rest, decode (encode value ++ rest) = some (value, rest)

namespace Codec

variable {α β : Type}

/-- The code of a type that is another one in disguise. -/
def ofEquiv (code : Codec α) (equiv : α ≃ β) : Codec β where
  encode value := code.encode (equiv.symm value)
  decode text := (code.decode text).map fun read => (equiv read.1, read.2)
  decode_encode value rest := by simp [code.decode_encode]

def pair (first : Codec α) (second : Codec β) : Codec (α × β) where
  encode value := first.encode value.1 ++ second.encode value.2
  decode text := do
    let (left, text) ← first.decode text
    let (right, text) ← second.decode text
    some ((left, right), text)
  decode_encode value rest := by
    simp [first.decode_encode, second.decode_encode]

/-- Values that meet a condition; others are not read. -/
def subtype (code : Codec α) (good : α → Prop) [DecidablePred good] :
    Codec { value : α // good value } where
  encode value := code.encode value.1
  decode text := do
    let (value, text) ← code.decode text
    if isGood : good value then some (⟨value, isGood⟩, text) else none
  decode_encode value rest := by
    simp [code.decode_encode, value.2]

/-! ## Numbers -/

/-- Seven bits a byte, the low ones first, with the high bit where more follow. -/
def writeVarint (value : Nat) : List UInt8 :=
  go value value
where
  go : Nat → Nat → List UInt8
    | 0, value => [UInt8.ofNat value]
    | fuel + 1, value =>
      if value < 128 then [UInt8.ofNat value]
      else UInt8.ofNat (value % 128 + 128) :: go fuel (value / 128)

def readVarint : List UInt8 → Option (Nat × List UInt8)
  | [] => none
  | byte :: rest =>
    if byte < 128 then some (byte.toNat, rest)
    else (readVarint rest).map fun read => (read.1 * 128 + (byte.toNat - 128), read.2)

theorem readVarint_last {value : Nat} (small : value < 128) (rest : List UInt8) :
    readVarint ([UInt8.ofNat value] ++ rest) = some (value, rest) := by
  have exact : (UInt8.ofNat value).toNat = value := by
    rw [UInt8.toNat_ofNat']
    omega
  have isSmall : UInt8.ofNat value < 128 := by
    rw [UInt8.lt_iff_toNat_lt, exact]
    exact small
  rw [List.singleton_append, readVarint, if_pos isSmall, exact]

theorem readVarint_go {fuel value : Nat} (enough : value ≤ fuel) (rest : List UInt8) :
    readVarint (writeVarint.go fuel value ++ rest) = some (value, rest) := by
  induction fuel generalizing value with
  | zero => exact readVarint_last (by omega) rest
  | succ fuel ih =>
    rw [writeVarint.go]
    by_cases small : value < 128
    · rw [if_pos small]
      exact readVarint_last small rest
    · have exact : (UInt8.ofNat (value % 128 + 128)).toNat = value % 128 + 128 := by
        rw [UInt8.toNat_ofNat']
        omega
      have isLarge : ¬ UInt8.ofNat (value % 128 + 128) < 128 := by
        rw [UInt8.lt_iff_toNat_lt, exact]
        simp
      have later : readVarint (writeVarint.go fuel (value / 128) ++ rest) =
          some (value / 128, rest) := ih (by omega)
      rw [if_neg small, List.cons_append, readVarint, if_neg isLarge, later]
      simp
      omega

def varint : Codec Nat where
  encode := writeVarint
  decode := readVarint
  decode_encode value := readVarint_go (Nat.le_refl value)

/-- Signed numbers, with small absolute values first. -/
def zigzag : Codec Int where
  encode value := varint.encode (if 0 ≤ value then 2 * value.toNat else 2 * (-value - 1).toNat + 1)
  decode text := (varint.decode text).map fun read =>
    (if read.1 % 2 = 0 then (read.1 / 2 : Nat) else -((read.1 / 2 : Nat) : Int) - 1, read.2)
  decode_encode value rest := by
    rw [varint.decode_encode]
    by_cases nonneg : 0 ≤ value
    · simp [nonneg]
    · simp only [nonneg, if_false, Option.map_some, Option.some.injEq, Prod.mk.injEq, and_true]
      omega

/-! ## Bytes and collections -/

/-- A fixed number of bytes. -/
def block (size : Nat) : Codec { bytes : List UInt8 // bytes.length = size } where
  encode value := value.1
  decode text :=
    if enough : size ≤ text.length then
      some (⟨text.take size, by simp [enough]⟩, text.drop size)
    else none
  decode_encode value rest := by
    rcases value with ⟨bytes, rfl⟩
    simp

/-- Bytes behind their number. -/
def bytes : Codec (List UInt8) where
  encode value := varint.encode value.length ++ value
  decode text := do
    let (size, text) ← varint.decode text
    if size ≤ text.length then some (text.take size, text.drop size) else none
  decode_encode value rest := by
    rw [List.append_assoc, varint.decode_encode]
    simp

def readMany (code : Codec α) : Nat → List UInt8 → Option (List α × List UInt8)
  | 0, text => some ([], text)
  | count + 1, text => do
      let (value, text) ← code.decode text
      let (values, text) ← readMany code count text
      some (value :: values, text)

theorem readMany_flatMap (code : Codec α) (values : List α) (rest : List UInt8) :
    readMany code values.length (values.flatMap code.encode ++ rest) = some (values, rest) := by
  induction values with
  | nil => rfl
  | cons value values ih =>
    rw [List.flatMap_cons, List.append_assoc, List.length_cons, readMany, code.decode_encode]
    simp [ih]

/-- Values behind their number. -/
def list (code : Codec α) : Codec (List α) where
  encode values := varint.encode values.length ++ values.flatMap code.encode
  decode text := do
    let (count, text) ← varint.decode text
    readMany code count text
  decode_encode values rest := by
    rw [List.append_assoc, varint.decode_encode]
    exact readMany_flatMap code values rest

/-- A value behind whether there is one. -/
def option (code : Codec α) : Codec (Option α) where
  encode
    | none => [0]
    | some value => 1 :: code.encode value
  decode
    | 0 :: text => some (none, text)
    | 1 :: text => (code.decode text).map fun read => (some read.1, read.2)
    | _ => none
  decode_encode value rest := by
    cases value with
    | none => rfl
    | some value => simp [code.decode_encode]

def bool : Codec Bool where
  encode value := [if value then 1 else 0]
  decode
    | 0 :: text => some (false, text)
    | 1 :: text => some (true, text)
    | _ => none
  decode_encode value rest := by cases value <;> rfl

/-- What was written is read when nothing follows. -/
theorem decode_whole (code : Codec α) (value : α) :
    code.decode (code.encode value) = some (value, []) := by
  simpa using code.decode_encode value []

theorem fromUTF8?_toUTF8 (value : String) :
    String.fromUTF8? ⟨value.toUTF8.data.toList.toArray⟩ = some value := by
  simp only [Array.toArray_toList, String.fromUTF8?]
  exact dif_pos value.isValidUTF8

/-- Text behind the number of its bytes. -/
def string : Codec String where
  encode value := bytes.encode value.toUTF8.data.toList
  decode text := do
    let (read, text) ← bytes.decode text
    let value ← String.fromUTF8? ⟨read.toArray⟩
    some (value, text)
  decode_encode value rest := by
    rw [bytes.decode_encode]
    simp only [Option.bind_eq_bind, Option.bind_some, fromUTF8?_toUTF8]

end Codec

end Syq.Lib
