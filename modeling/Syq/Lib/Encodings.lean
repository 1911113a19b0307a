import Mathlib

/-!
# Bytes as numbers and as text

Big-endian numbers, UTF-8, base64 with padding, and text wrapped to lines of one width.
-/

namespace Syq.Lib

open List

universe u

/-! ## Big-endian numbers -/

/-- The low bytes of a number, most significant first. -/
def toBigEndian : Nat → Nat → List UInt8
  | 0, _ => []
  | width + 1, value => toBigEndian width (value / 256) ++ [UInt8.ofNat value]

/-- The number that bytes spell, most significant first. -/
def fromBigEndian (bytes : List UInt8) : Nat :=
  bytes.foldl (fun value byte => value * 256 + byte.toNat) 0

@[simp]
theorem length_toBigEndian (width value : Nat) : (toBigEndian width value).length = width := by
  induction width generalizing value with
  | zero => rfl
  | succ width ih => simp [toBigEndian, ih]

theorem fromBigEndian_concat (bytes : List UInt8) (byte : UInt8) :
    fromBigEndian (bytes ++ [byte]) = fromBigEndian bytes * 256 + byte.toNat := by
  simp [fromBigEndian, foldl_append]

theorem fromBigEndian_lt (bytes : List UInt8) : fromBigEndian bytes < 256 ^ bytes.length := by
  induction bytes using reverseRecOn with
  | nil => decide
  | append_singleton bytes byte ih =>
    have small : byte.toNat < 256 := byte.toNat_lt
    rw [fromBigEndian_concat, length_append, length_singleton]
    omega

/-- A number is read back when it fits the width. -/
theorem fromBigEndian_toBigEndian {width value : Nat} (fits : value < 256 ^ width) :
    fromBigEndian (toBigEndian width value) = value := by
  induction width generalizing value with
  | zero =>
    rw [Nat.pow_zero, Nat.lt_one_iff] at fits
    rw [fits]
    rfl
  | succ width ih =>
    have smaller : value / 256 < 256 ^ width := Nat.div_lt_of_lt_mul (by omega)
    rw [toBigEndian, fromBigEndian_concat, ih smaller]
    simp
    omega

/-- Bytes are spelled again by their number. -/
theorem toBigEndian_fromBigEndian (bytes : List UInt8) :
    toBigEndian bytes.length (fromBigEndian bytes) = bytes := by
  induction bytes using reverseRecOn with
  | nil => rfl
  | append_singleton bytes byte ih =>
    have small : byte.toNat < 256 := byte.toNat_lt
    have high : (fromBigEndian bytes * 256 + byte.toNat) / 256 = fromBigEndian bytes := by omega
    have low : UInt8.ofNat (fromBigEndian bytes * 256 + byte.toNat) = byte := by
      apply UInt8.toNat.inj
      rw [UInt8.toNat_ofNat']
      omega
    rw [length_append, length_singleton, toBigEndian, fromBigEndian_concat, high, low, ih]

/-! ## UTF-8 -/

/-- A byte that continues a character. -/
def continues (byte : UInt8) : Bool :=
  128 ≤ byte && byte < 192

/-- Well-formed UTF-8: no overlong forms, no surrogates, nothing past the last plane. -/
def isUtf8 : List UInt8 → Bool
  | [] => true
  | first :: rest =>
    if first < 128 then isUtf8 rest
    else if first < 194 then false
    else
      match rest with
      | [] => false
      | second :: rest =>
        if first < 224 then continues second && isUtf8 rest
        else
          match rest with
          | [] => false
          | third :: rest =>
            if first < 240 then
              (if first = 224 then 160 ≤ second && second < 192
                else if first = 237 then 128 ≤ second && second < 160
                else continues second) &&
                continues third && isUtf8 rest
            else
              match rest with
              | [] => false
              | fourth :: rest =>
                (if first = 240 then 144 ≤ second && second < 192
                  else if first = 244 then 128 ≤ second && second < 144
                  else first < 244 && continues second) &&
                  continues third && continues fourth && isUtf8 rest

theorem isUtf8_of_ascii {bytes : List UInt8} (ascii : ∀ byte ∈ bytes, byte < 128) :
    isUtf8 bytes = true := by
  induction bytes with
  | nil => rfl
  | cons first rest ih =>
    rw [forall_mem_cons] at ascii
    rw [isUtf8.eq_def]
    simp [ascii.1, ih ascii.2]

/-! ## Base64 -/

namespace Base64

variable {value : Nat}

/-- The character of a digit. -/
def digit (value : Nat) : UInt8 :=
  if value < 26 then UInt8.ofNat (65 + value)
  else if value < 52 then UInt8.ofNat (97 + (value - 26))
  else if value < 62 then UInt8.ofNat (48 + (value - 52))
  else if value = 62 then 43
  else 47

/-- The digit of a character. -/
def digitValue (byte : UInt8) : Option Nat :=
  if 65 ≤ byte ∧ byte ≤ 90 then some (byte.toNat - 65)
  else if 97 ≤ byte ∧ byte ≤ 122 then some (byte.toNat - 97 + 26)
  else if 48 ≤ byte ∧ byte ≤ 57 then some (byte.toNat - 48 + 52)
  else if byte = 43 then some 62
  else if byte = 47 then some 63
  else none

def padding : UInt8 := 61

/-- Four characters for three bytes, the last ones padded. -/
def encode : List UInt8 → List UInt8
  | [] => []
  | [a] => [digit (a.toNat / 4), digit (a.toNat % 4 * 16), padding, padding]
  | [a, b] =>
    [digit (a.toNat / 4), digit (a.toNat % 4 * 16 + b.toNat / 16),
      digit (b.toNat % 16 * 4), padding]
  | a :: b :: c :: rest =>
    digit (a.toNat / 4) :: digit (a.toNat % 4 * 16 + b.toNat / 16) ::
      digit (b.toNat % 16 * 4 + c.toNat / 64) :: digit (c.toNat % 64) :: encode rest

/-- Padding is required, only at the end, and the bits it leaves over are zero. -/
def decode : List UInt8 → Option (List UInt8)
  | [] => some []
  | w :: x :: y :: z :: rest => do
      let w ← digitValue w
      let x ← digitValue x
      if z = padding then
        guard (rest = [])
        if y = padding then
          guard (x % 16 = 0)
          some [UInt8.ofNat (w * 4 + x / 16)]
        else
          let y ← digitValue y
          guard (y % 4 = 0)
          some [UInt8.ofNat (w * 4 + x / 16), UInt8.ofNat (x % 16 * 16 + y / 4)]
      else
        let y ← digitValue y
        let z ← digitValue z
        let rest ← decode rest
        some (UInt8.ofNat (w * 4 + x / 16) :: UInt8.ofNat (x % 16 * 16 + y / 4) ::
          UInt8.ofNat (y % 4 * 64 + z) :: rest)
  | _ => none

theorem digitValue_digit (small : value < 64) : digitValue (digit value) = some value := by
  have all : ∀ value : Fin 64, digitValue (digit value) = some value.val := by decide
  exact all ⟨value, small⟩

/-- Digits are printable characters other than the padding. -/
theorem digit_printable (small : value < 64) :
    32 < digit value ∧ digit value < 128 ∧ digit value ≠ padding := by
  have all : ∀ value : Fin 64, 32 < digit value ∧ digit value < 128 ∧ digit value ≠ padding := by
    decide
  exact all ⟨value, small⟩

/-- The bits of a byte put together again. -/
theorem ofNat_join (byte : UInt8) (same : value = byte.toNat) : UInt8.ofNat value = byte := by
  rw [same, UInt8.ofNat_toNat]

/-- What is encoded is decoded. -/
theorem decode_encode (bytes : List UInt8) : decode (encode bytes) = some bytes := by
  induction bytes using encode.induct with
  | case1 => rfl
  | case2 a =>
    have smallA := a.toNat_lt
    rw [encode, decode, digitValue_digit (by omega), digitValue_digit (by omega)]
    simp only [Option.bind_eq_bind, Option.bind_some, guard_true, Option.pure_def]
    rw [ofNat_join a (by omega)]
    simp [guard]
  | case3 a b =>
    have smallA := a.toNat_lt
    have smallB := b.toNat_lt
    have unpadded : digit (b.toNat % 16 * 4) ≠ padding := (digit_printable (by omega)).2.2
    rw [encode, decode, digitValue_digit (by omega), digitValue_digit (by omega)]
    simp only [Option.bind_eq_bind, ↓reduceIte, guard_true, Option.pure_def, if_neg unpadded]
    rw [digitValue_digit (by omega)]
    simp only [Option.bind_some]
    rw [ofNat_join a (by omega), ofNat_join b (by omega)]
    simp [guard]
  | case4 a b c rest ih =>
    have smallA := a.toNat_lt
    have smallB := b.toNat_lt
    have smallC := c.toNat_lt
    have unpadded : digit (c.toNat % 64) ≠ padding := (digit_printable (by omega)).2.2
    rw [encode, decode, digitValue_digit (by omega), digitValue_digit (by omega)]
    simp only [Option.bind_eq_bind, if_neg unpadded]
    rw [digitValue_digit (by omega), digitValue_digit (by omega), ih]
    simp only [Option.bind_some]
    rw [ofNat_join a (by omega), ofNat_join b (by omega), ofNat_join c (by omega)]

/-- Encoded text is printable ASCII. -/
theorem encode_printable (bytes : List UInt8) : ∀ byte ∈ encode bytes, 32 < byte ∧ byte < 128 := by
  have ofDigit {value : Nat} (small : value < 64) : 32 < digit value ∧ digit value < 128 :=
    ⟨(digit_printable small).1, (digit_printable small).2.1⟩
  have ofPadding : 32 < padding ∧ padding < 128 := by decide
  induction bytes using encode.induct with
  | case1 => simp [encode]
  | case2 a =>
    have smallA := a.toNat_lt
    simp only [encode, forall_mem_cons, not_mem_nil, false_imp_iff, implies_true, and_true]
    exact ⟨ofDigit (by omega), ofDigit (by omega), ofPadding, ofPadding⟩
  | case3 a b =>
    have smallA := a.toNat_lt
    have smallB := b.toNat_lt
    simp only [encode, forall_mem_cons, not_mem_nil, false_imp_iff, implies_true, and_true]
    exact ⟨ofDigit (by omega), ofDigit (by omega), ofDigit (by omega), ofPadding⟩
  | case4 a b c rest ih =>
    have smallA := a.toNat_lt
    have smallB := b.toNat_lt
    have smallC := c.toNat_lt
    simp only [encode, forall_mem_cons]
    exact ⟨ofDigit (by omega), ofDigit (by omega), ofDigit (by omega), ofDigit (by omega),
      ih⟩

theorem encode_ne_nil {bytes : List UInt8} (ne : bytes ≠ []) : encode bytes ≠ [] := by
  cases bytes using encode.fun_cases <;> simp_all [encode]

end Base64

/-! ## Wrapped text -/

section Wrap

variable {α : Type u}

/-- Cut a list into pieces of one width, the last one perhaps shorter. -/
def chunks (width : Nat) (items : List α) : List (List α) :=
  go items.length items
where
  go : Nat → List α → List (List α)
    | 0, _ => []
    | fuel + 1, items =>
      if items.isEmpty then [] else items.take width :: go fuel (items.drop width)

variable {width : Nat}

@[simp]
theorem chunks_nil : chunks width ([] : List α) = [] :=
  rfl

/-- Any fuel that covers the list cuts it alike. -/
theorem chunks_go_eq (positive : 0 < width) {items : List α} {fuel more : Nat}
    (enough : items.length ≤ fuel) (alsoEnough : items.length ≤ more) :
    chunks.go width fuel items = chunks.go width more items := by
  induction fuel generalizing items more with
  | zero =>
    have nothing : items = [] := eq_nil_of_length_eq_zero (Nat.le_zero.mp enough)
    cases more <;> simp [chunks.go, nothing]
  | succ fuel ih =>
    cases more with
    | zero =>
      have nothing : items = [] := eq_nil_of_length_eq_zero (Nat.le_zero.mp alsoEnough)
      simp [chunks.go, nothing]
    | succ more =>
      by_cases nothing : items = []
      · simp [chunks.go, nothing]
      · have longer := length_pos_of_ne_nil nothing
        have rest := length_drop (i := width) (l := items)
        have same : chunks.go width fuel (items.drop width) =
            chunks.go width more (items.drop width) :=
          ih (by omega) (by omega)
        rw [chunks.go, chunks.go, same]

theorem chunks_eq (positive : 0 < width) {items : List α} (ne : items ≠ []) :
    chunks width items = items.take width :: chunks width (items.drop width) := by
  have longer := length_pos_of_ne_nil ne
  have rest := length_drop (i := width) (l := items)
  rcases Nat.exists_eq_succ_of_ne_zero (Nat.ne_of_gt longer) with ⟨fuel, lengthEq⟩
  rw [chunks, lengthEq, chunks.go, if_neg (by simpa using ne), chunks,
    chunks_go_eq positive (by omega) (Nat.le_refl _)]

/-- Pieces are taken from the front of a list. -/
theorem chunks_induction {motive : List α → List (List α) → Prop} (positive : 0 < width)
    (nil : motive [] [])
    (cons : ∀ items, items ≠ [] → motive (items.drop width) (chunks width (items.drop width)) →
      motive items (items.take width :: chunks width (items.drop width)))
    (items : List α) : motive items (chunks width items) := by
  by_cases nothing : items = []
  · rw [nothing]
    exact nil
  · rw [chunks_eq positive nothing]
    exact cons items nothing (chunks_induction positive nil cons (items.drop width))
termination_by items.length
decreasing_by
  have longer := length_pos_of_ne_nil nothing
  rw [length_drop]
  omega

theorem flatten_chunks (positive : 0 < width) (items : List α) :
    (chunks width items).flatten = items := by
  apply chunks_induction positive (motive := fun items pieces => pieces.flatten = items)
  · rfl
  · intro items ne ih
    rw [flatten_cons, ih, take_append_drop]

theorem ne_nil_of_mem_chunks (positive : 0 < width) (items : List α) :
    ∀ piece ∈ chunks width items, piece ≠ [] := by
  apply chunks_induction positive (motive := fun _ pieces => ∀ piece ∈ pieces, piece ≠ [])
  · simp
  · intro items ne ih
    rw [forall_mem_cons]
    refine ⟨?_, ih⟩
    rw [Ne, take_eq_nil_iff, not_or]
    exact ⟨Nat.ne_of_gt positive, ne⟩

end Wrap

end Syq.Lib
