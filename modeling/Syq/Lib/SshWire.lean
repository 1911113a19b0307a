import Syq.Lib.Encodings
import Syq.Lib.Guards

/-!
# Fields of the SSH wire format

Messages are bytes, fixed fields and strings, a string being a length in four bytes and so many
bytes.  Each reader takes a field from the front of its input and leaves the rest; what it accepts
is exactly the encoding of what it returns.
-/

namespace Syq.Lib.SshWire

variable {input rest : List UInt8}

def byte : List UInt8 → Except String (UInt8 × List UInt8)
  | [] => .error "truncated SSH signing data"
  | value :: rest => .ok (value, rest)

def fixed (length : Nat) (input : List UInt8) : Except String (List UInt8 × List UInt8) :=
  if input.length < length then .error "truncated SSH field"
  else .ok (input.take length, input.drop length)

def string (input : List UInt8) : Except String (List UInt8 × List UInt8) :=
  if input.length < 4 then .error "truncated SSH string length"
  else
    let length := fromBigEndian (input.take 4)
    let rest := input.drop 4
    if rest.length < length then .error "truncated SSH string"
    else .ok (rest.take length, rest.drop length)

def writeString (value : List UInt8) : List UInt8 :=
  toBigEndian 4 value.length ++ value

theorem byte_eq_ok_iff {value : UInt8} :
    byte input = .ok (value, rest) ↔ input = value :: rest := by
  cases input <;> simp [byte]

theorem fixed_eq_ok_iff {length : Nat} {value : List UInt8} :
    fixed length input = .ok (value, rest) ↔ value.length = length ∧ input = value ++ rest := by
  unfold fixed
  constructor
  · intro read
    split_ifs at read with short
    cases read
    refine ⟨?_, (List.take_append_drop length input).symm⟩
    rw [List.length_take]
    omega
  · rintro ⟨rfl, rfl⟩
    rw [if_neg (by rw [List.length_append]; omega), List.take_left, List.drop_left]

/-- A string is read from exactly its encoding. -/
theorem string_eq_ok_iff {value : List UInt8} :
    string input = .ok (value, rest) ↔
      value.length < 256 ^ 4 ∧ input = writeString value ++ rest := by
  unfold string
  constructor
  · intro read
    split_ifs at read with short
    dsimp only at read
    split_ifs at read with truncated
    cases read
    have width : (input.take 4).length = 4 := by
      rw [List.length_take]
      omega
    have length : ((input.drop 4).take (fromBigEndian (input.take 4))).length =
        fromBigEndian (input.take 4) := by
      rw [List.length_take]
      omega
    have lengthBytes : toBigEndian 4 (fromBigEndian (input.take 4)) = input.take 4 := by
      have same := toBigEndian_fromBigEndian (input.take 4)
      rwa [width] at same
    constructor
    · have small := fromBigEndian_lt (input.take 4)
      rwa [width, ← length] at small
    · rw [writeString, length, lengthBytes, List.append_assoc, List.take_append_drop,
        List.take_append_drop]
  · rintro ⟨small, rfl⟩
    have width := length_toBigEndian 4 value.length
    rw [writeString, List.append_assoc, if_neg (by rw [List.length_append]; omega),
      List.take_left' width, List.drop_left' width]
    rw [fromBigEndian_toBigEndian small, if_neg (by rw [List.length_append]; omega),
      List.take_left, List.drop_left]

end Syq.Lib.SshWire
