import Syq.Lib.Guards
import Syq.Selection.Lexer

/-!
# String and number literals

What a quoted string should stand for is a relation between its text, its bytes and what follows
it.  The lexer agrees with it on the literals it accepts, but for a byte escape whose first digit
is a plus sign: the general number parser takes the sign and one digit for two digits.  A number
stands for the rational number that its digits and its unit spell, where the lexer can hold its
digits without the point.
-/

namespace Syq.Selection

open Syq.Lib

/-- The escapes of one letter and their bytes. -/
def letterEscapes : List (Char × UInt8) :=
  [('\\', 92), ('\'', 39), ('"', 34), ('n', 10), ('r', 13), ('t', 9)]

/-- A quoted string from behind its opening quote: escapes stand for their bytes, and every other
character is copied. -/
inductive Literal (quote : Char) : List Char → Bytes → List Char → Prop where
  | close (rest : List Char) : Literal quote (quote :: rest) [] rest
  | copy {c : Char} {rest after : List Char} {value : Bytes} (inner : c ≠ quote) (plain : c ≠ '\\')
      (later : Literal quote rest value after) :
      Literal quote (c :: rest) (String.utf8EncodeChar c ++ value) after
  | letter {c : Char} {byte : UInt8} {rest after : List Char} {value : Bytes}
      (escape : (c, byte) ∈ letterEscapes) (later : Literal quote rest value after) :
      Literal quote ('\\' :: c :: rest) (byte :: value) after
  | hex {first second : Char} {high low : Nat} {rest after : List Char} {value : Bytes}
      (firstDigit : digitValue 16 first = some high) (secondDigit : digitValue 16 second = some low)
      (later : Literal quote rest value after) :
      Literal quote ('\\' :: 'x' :: first :: second :: rest)
        (UInt8.ofNat (high * 16 + low) :: value) after

/-- A byte escape of the string has a plus sign for its first digit. -/
def plusEscape (quote : Char) : List Char → Bool
  | '\\' :: 'x' :: first :: _ :: rest => first == '+' || plusEscape quote rest
  | '\\' :: _ :: rest => plusEscape quote rest
  | c :: rest => if c = quote then false else plusEscape quote rest
  | [] => false

variable {byte : UInt8}

theorem mem_letterEscapes_iff {c : Char} :
    (c, byte) ∈ letterEscapes ↔ escapedByte c = some byte := by
  unfold escapedByte
  split <;> simp_all [letterEscapes, eq_comm]

theorem hexByte_of_ne {first second : Char} (unsigned : first ≠ '+') :
    hexByte first second = some byte ↔ ∃ high low, digitValue 16 first = some high ∧
      digitValue 16 second = some low ∧ UInt8.ofNat (high * 16 + low) = byte := by
  unfold hexByte
  split
  · exact absurd rfl unsigned
  · simp [Option.bind_eq_some_iff]

section Inversion

variable {quote c : Char} {rest after : List Char} {value : Bytes}

theorem literal_copy_iff (inner : c ≠ quote) (plain : c ≠ '\\') :
    Literal quote (c :: rest) (String.utf8EncodeChar c ++ value) after ↔
      Literal quote rest value after := by
  constructor
  · intro literal
    generalize whole : String.utf8EncodeChar c ++ value = bytes at literal
    cases literal with
    | close => exact absurd rfl inner
    | copy _ _ later => rwa [List.append_cancel_left whole]
    | letter => exact absurd rfl plain
    | hex => exact absurd rfl plain
  · exact .copy inner plain

theorem literal_letter_iff (escape : (c, byte) ∈ letterEscapes) :
    Literal quote ('\\' :: c :: rest) (byte :: value) after ↔ Literal quote rest value after := by
  constructor
  · intro literal
    cases literal with
    | copy _ plain => exact absurd rfl plain
    | letter _ later => exact later
    | hex => simp [letterEscapes] at escape
  · exact .letter escape

theorem literal_hex_iff {first second : Char} :
    Literal quote ('\\' :: 'x' :: first :: second :: rest) (byte :: value) after ↔
      (∃ high low, digitValue 16 first = some high ∧ digitValue 16 second = some low ∧
        UInt8.ofNat (high * 16 + low) = byte) ∧ Literal quote rest value after := by
  constructor
  · intro literal
    cases literal with
    | copy _ plain => exact absurd rfl plain
    | letter escape => simp [letterEscapes] at escape
    | hex firstDigit secondDigit later => exact ⟨⟨_, _, firstDigit, secondDigit, rfl⟩, later⟩
  · rintro ⟨⟨high, low, firstDigit, secondDigit, rfl⟩, later⟩
    exact .hex firstDigit secondDigit later

end Inversion

/-- The lexer reads an accepted literal as it should exactly if no byte escape has a sign. -/
theorem lexString_literal_iff {quote : Char} {text after : List Char} {value : Bytes}
    (accepted : lexString quote text = .ok (value, after)) :
    Literal quote text value after ↔ plusEscape quote text = false := by
  fun_induction lexString quote text generalizing value with
  | case1 | case2 | case3 | case5 | case6 | case7 => cases accepted
  | case4 first second rest _ byte found ih =>
    rcases bind_eq_ok_iff.mp accepted with ⟨⟨later, behind⟩, lexed, done⟩
    cases done
    rw [literal_hex_iff, ih lexed, plusEscape, Bool.or_eq_false_iff]
    refine and_congr_left fun _ => ?_
    by_cases signed : first = '+'
    · subst signed
      simp [digitValue, isDigit]
    · rw [← hexByte_of_ne signed]
      simpa [signed] using found
  | case8 c rest _ diff byte found ih =>
    rcases bind_eq_ok_iff.mp accepted with ⟨⟨later, behind⟩, lexed, done⟩
    cases done
    rw [literal_letter_iff (mem_letterEscapes_iff.mpr found), ih lexed, plusEscape]
    exact fun _ _ _ same => absurd same diff
  | case9 =>
    cases accepted
    refine iff_of_true (.close _) ?_
    unfold plusEscape
    split <;> simp_all
  | case10 c rest _ _ _ _ inner ih =>
    rcases bind_eq_ok_iff.mp accepted with ⟨⟨later, behind⟩, lexed, done⟩
    cases done
    have plain : c ≠ '\\' := by
      rintro rfl
      cases rest <;> simp_all
    rw [literal_copy_iff inner plain, ih lexed, plusEscape, if_neg inner]
    all_goals simp [plain]

/-- Every string literal that the lexer accepts stands for its bytes exactly if no byte escape in
it has a plus sign for its first digit. -/
theorem string_literals_decode_iff {position : Nat} {quote : Char} {rest after : List Char}
    {value : Bytes} (accepted : lexToken position quote rest = .ok (.string value, after)) :
    Literal quote rest value after ↔ plusEscape quote rest = false := by
  unfold lexToken at accepted
  split at accepted
  · rcases bind_eq_ok_iff.mp accepted with ⟨⟨bytes, behind⟩, lexed, done⟩
    cases done
    exact lexString_literal_iff lexed
  · split at accepted
    · cases accepted
    · split at accepted
      · cases accepted
      · split at accepted <;> cases accepted

theorem string_literals_decode_newline :
    Literal '\'' ['a', '\\', 'x', '0', 'A', '\'', ')'] [97, 10] [')'] :=
  (@string_literals_decode_iff 0 _ _ _ _ (by rfl)).mpr (by rfl)

/-- A sign and one digit are taken for two digits. -/
theorem signed_escape_is_accepted :
    lexToken 0 '"' ['\\', 'x', '+', 'f', '"'] = .ok (.string [15], []) ∧
      ¬ Literal '"' ['\\', 'x', '+', 'f', '"'] [15] [] := by
  refine ⟨by rfl, ?_⟩
  rw [literal_hex_iff]
  simp [digitValue, isDigit]

/-! ## Numbers -/

/-- The text of a number: its digits, a point and its places where it has one, and its unit. -/
def literal (whole : List Char) (fraction : Option (List Char)) (suffix : List Char) : List Char :=
  whole ++ fraction.elim [] ('.' :: ·) ++ suffix

theorem digitValue_of_isDigit {c : Char} (digit : isDigit c) :
    digitValue 10 c = some (c.toNat - '0'.toNat) ∧ c.toNat - '0'.toNat < 10 := by
  have small : c.toNat - '0'.toNat < 10 := by
    have bound : c ≤ '9' := by simp_all [isDigit]
    have : c.toNat ≤ 57 := bound
    simp only [Char.reduceToNat]
    omega
  simp only [digitValue, digit, if_true, small, and_self]

theorem digitsValue_eq {digits : List Char} (decimal : ∀ c ∈ digits, isDigit c) :
    digitsValue 10 digits = some (Nat.ofDigitChars 10 digits 0) ∧
      Nat.ofDigitChars 10 digits 0 < 10 ^ digits.length := by
  have fold : ∀ value, digits.foldlM
      (fun value c => (digitValue 10 c).map fun digit => value * 10 + digit) value =
        some (Nat.ofDigitChars 10 digits value) ∧
      Nat.ofDigitChars 10 digits 0 < 10 ^ digits.length := by
    induction digits with
    | nil => simp
    | cons c rest ih =>
      intro value
      have first := digitValue_of_isDigit (decimal c (by simp))
      have later := ih fun c member => decimal c (by simp [member])
      refine ⟨?_, ?_⟩
      · simpa [first.1, Nat.ofDigitChars_cons, mul_comm] using (later _).1
      · rw [Nat.ofDigitChars_cons, Nat.ofDigitChars_eq_ofDigitChars_zero, List.length_cons,
          pow_succ]
        nlinarith [first.2, (later 0).2]
  exact fold 0

theorem checkedI128_of_nonneg {amount result : Int} (nonneg : 0 ≤ amount) :
    checkedI128 amount = some result ↔ amount < 2 ^ 127 ∧ amount = result := by
  have lower : -2 ^ 127 ≤ amount := (neg_nonpos.mpr (by positivity)).trans nonneg
  simp only [checkedI128, lower, true_and, Option.ite_none_right_eq_some, Option.some.injEq]

theorem parseI128_eq_some_iff {digits : List Char} {amount : Int} (ne : digits ≠ [])
    (decimal : ∀ c ∈ digits, isDigit c) :
    parseI128 10 digits = some amount ↔
      (Nat.ofDigitChars 10 digits 0 : Int) < 2 ^ 127 ∧ Nat.ofDigitChars 10 digits 0 = amount := by
  have unsigned : splitSign digits = (1, digits) := by
    unfold splitSign
    split
    · exact absurd (decimal '+' List.mem_cons_self) (by decide)
    · exact absurd (decimal '-' List.mem_cons_self) (by decide)
    · rfl
  rw [parseI128, unsigned]
  dsimp only
  rw [if_neg (by simpa using ne), (digitsValue_eq decimal).1, Option.bind_some, one_mul]
  exact checkedI128_of_nonneg (Int.natCast_nonneg _)

/-- A scaled amount is held if its last step is: each number on the way is at most the next. -/
theorem scaled_eq_some_iff {shifted places multiplier result : Int} (shiftedNonneg : 0 ≤ shifted)
    (placesNonneg : 0 ≤ places) (positive : 0 < multiplier) :
    ((checkedI128 shifted).bind fun amount => (checkedI128 (amount + places)).bind fun amount =>
      checkedI128 (amount * multiplier)) = some result ↔
      (shifted + places) * multiplier < 2 ^ 127 ∧ (shifted + places) * multiplier = result := by
  have sum : 0 ≤ shifted + places := add_nonneg shiftedNonneg placesNonneg
  have product : shifted + places ≤ (shifted + places) * multiplier :=
    le_mul_of_one_le_right sum positive
  simp only [Option.bind_eq_some_iff]
  constructor
  · rintro ⟨_, first, _, second, third⟩
    rcases (checkedI128_of_nonneg shiftedNonneg).mp first with ⟨-, rfl⟩
    rcases (checkedI128_of_nonneg sum).mp second with ⟨-, rfl⟩
    exact (checkedI128_of_nonneg (sum.trans product)).mp third
  · intro held
    have fits := product.trans_lt held.1
    exact ⟨_, (checkedI128_of_nonneg shiftedNonneg).mpr
        ⟨(le_add_of_nonneg_right placesNonneg).trans_lt fits, rfl⟩,
      _, (checkedI128_of_nonneg sum).mpr ⟨fits, rfl⟩,
      (checkedI128_of_nonneg (sum.trans product)).mpr held⟩

/-- The places of a fraction that is not too long are parsed. -/
theorem parseI128_places {places : List Char} (ne : places ≠ [])
    (decimal : ∀ c ∈ places, isDigit c) (short : places.length ≤ 18) :
    parseI128 10 places = some (Nat.ofDigitChars 10 places 0 : Int) := by
  refine (parseI128_eq_some_iff ne decimal).mpr ⟨?_, rfl⟩
  exact_mod_cast calc
    Nat.ofDigitChars 10 places 0 < 10 ^ places.length := (digitsValue_eq decimal).2
    _ ≤ 10 ^ 18 := Nat.pow_le_pow_right (by norm_num) short
    _ < 2 ^ 127 := by norm_num

theorem scaledQuantity_eq_ok_iff {whole places : List Char} {multiplier amount : Int}
    (ne : whole ≠ []) (decimal : ∀ c ∈ whole ++ places, isDigit c)
    (short : places.length ≤ 18) (positive : 0 < multiplier) :
    scaledQuantity whole places multiplier = .ok amount ↔
      Nat.ofDigitChars 10 (whole ++ places) 0 * multiplier < 2 ^ 127 ∧
        amount = Nat.ofDigitChars 10 (whole ++ places) 0 * multiplier := by
  have parts := List.forall_mem_append.mp decimal
  have fraction : (if places.isEmpty then 0 else (parseI128 10 places).getD (-1)) =
      (Nat.ofDigitChars 10 places 0 : Int) := by
    by_cases none : places = []
    · simp [none]
    · simp [none, parseI128_places none parts.2 short]
  have total : (Nat.ofDigitChars 10 (whole ++ places) 0 : Int) =
      Nat.ofDigitChars 10 whole 0 * 10 ^ places.length + Nat.ofDigitChars 10 places 0 := by
    rw [Nat.ofDigitChars_append, Nat.ofDigitChars_eq_ofDigitChars_zero]
    push_cast
    ring
  have held := fun result => @scaled_eq_some_iff (Nat.ofDigitChars 10 whole 0 * 10 ^ places.length)
    (Nat.ofDigitChars 10 places 0) multiplier result (by positivity) (by positivity) positive
  rw [← total] at held
  unfold scaledQuantity
  rw [fraction]
  split
  next parsed =>
    have large := mt (fun fits => (parseI128_eq_some_iff ne parts.1).mpr ⟨fits, rfl⟩)
      (by rw [parsed]; nofun)
    have scale : (1 : Int) ≤ 10 ^ places.length := one_le_pow₀ (by norm_num)
    refine iff_of_false nofun fun fits => large ?_
    nlinarith [Int.natCast_nonneg (Nat.ofDigitChars 10 whole 0)]
  next value parsed =>
    rcases (parseI128_eq_some_iff ne parts.1).mp parsed with ⟨-, rfl⟩
    dsimp only
    split
    next result found =>
      rcases (held result).mp found with ⟨fits, rfl⟩
      exact ⟨fun same => ⟨fits, (Except.ok.inj same).symm⟩, fun same => congrArg _ same.2.symm⟩
    next found =>
      exact iff_of_false nofun fun fits => nomatch ((held _).mpr ⟨fits.1, rfl⟩).symm.trans found

theorem unit_eq_some {suffix : List Char} {multiplier : Int} {ty : Ty}
    (known : unit suffix = some (multiplier, ty)) :
    0 < multiplier ∧ ∀ c ∈ suffix.head?, ¬ (isDigit c || c == '.') ∧ c ≠ 'o' ∧ c ≠ 'x' := by
  unfold unit at known
  split at known
  all_goals first
    | cases known
      rename_i same
      obtain rfl := String.ofList_injective same
      exact ⟨by norm_num, by simp [isDigit]⟩
    | cases known

/-- What a literal is taken apart into. -/
theorem literal_parts {whole suffix : List Char} {fraction : Option (List Char)} {multiplier : Int}
    {ty : Ty} (decimal : ∀ c ∈ whole ++ fraction.getD [], isDigit c)
    (known : unit suffix = some (multiplier, ty)) :
    let text := literal whole fraction suffix
    splitPoint (text.takeWhile fun c => isDigit c || c == '.') = (whole, fraction.getD []) ∧
      text.dropWhile (fun c => isDigit c || c == '.') = suffix := by
  have parts := List.forall_mem_append.mp decimal
  have numeral : ∀ c ∈ whole ++ fraction.elim [] ('.' :: ·), (isDigit c || c == '.') = true := by
    cases fraction <;> grind
  have stop : suffix.takeWhile (fun c => isDigit c || c == '.') = [] ∧
      suffix.dropWhile (fun c => isDigit c || c == '.') = suffix := by
    cases suffix with
    | nil => simp
    | cons c rest => simpa using ((unit_eq_some known).2 c (by simp)).1
  refine ⟨?_, ?_⟩
  · rw [literal, List.takeWhile_append_of_pos numeral, stop.1, List.append_nil]
    unfold splitPoint
    have noPoint : ∀ c ∈ whole, (c != '.') = true := by
      intro c member
      have digit := parts.1 c member
      rw [bne_iff_ne]
      rintro rfl
      cases digit
    cases fraction with
    | none =>
      rw [Option.elim_none, List.append_nil, List.takeWhile_eq_self_iff.mpr noPoint,
        List.dropWhile_eq_nil_iff.mpr noPoint]
      rfl
    | some places => simp_all
  · rw [literal, List.dropWhile_append_of_pos numeral, stop.2]

/-- A number literal stands for the number that its digits and its unit spell, where that is an
integer; the places must be at most eighteen, and the digits without the point, times the unit,
must fit the type.  The places are always read. -/
theorem number_literals_exact {whole suffix : List Char} {fraction : Option (List Char)}
    {multiplier : Int} {ty : Ty} (nonempty : whole ≠ [])
    (decimal : ∀ c ∈ whole ++ fraction.getD [], isDigit c)
    (known : unit suffix = some (multiplier, ty)) :
    let places := fraction.getD []
    let digits := Nat.ofDigitChars 10 (whole ++ places) 0
    (∀ value, number (literal whole fraction suffix) = .ok value ↔
      places.length ≤ 18 ∧ digits * multiplier < 2 ^ 127 ∧
        ∃ amount : Int, (amount : ℚ) = digits / 10 ^ places.length * multiplier ∧
          value = .quantity amount ty) ∧
    (places ≠ [] → places.length ≤ 18 → (parseI128 10 places).isSome) := by
  have parts := literal_parts decimal known
  have fractional := (List.forall_mem_append.mp decimal).2
  have unbased : ∀ c rest, literal whole fraction suffix = '0' :: c :: rest →
      c ≠ 'o' ∧ c ≠ 'x' := by
    intro c rest same
    by_cases numeral : (isDigit c || c == '.') = true
    · constructor <;> rintro rfl <;> simp [isDigit] at numeral
    · have behind := parts.2
      rw [same] at behind
      have suffixed : c :: rest = suffix := by
        rwa [List.dropWhile_cons_of_pos (by rfl), List.dropWhile_cons_of_neg (by exact numeral)]
          at behind
      exact ((unit_eq_some known).2 c (by simp [← suffixed])).2
  have read : number (literal whole fraction suffix) =
      Syq.Selection.decimal (literal whole fraction suffix) := by
    unfold number
    split
    next same => exact absurd rfl (unbased _ _ same).1
    next same => exact absurd rfl (unbased _ _ same).2
    next => rfl
  refine ⟨fun value => ?_, fun some short => ?_⟩
  · rw [read, Syq.Selection.decimal, parts.2, known, parts.1]
    generalize fraction.getD [] = places at *
    have noPoint : '.' ∉ places := fun member => nomatch fractional _ member
    have integral : ∀ amount : Int,
        (amount : ℚ) = Nat.ofDigitChars 10 (whole ++ places) 0 / 10 ^ places.length * multiplier ↔
          amount * 10 ^ places.length = Nat.ofDigitChars 10 (whole ++ places) 0 * multiplier := by
      intro amount
      rw [div_mul_eq_mul_div, eq_div_iff (by positivity)]
      exact_mod_cast Iff.rfl
    simp only [bind_eq_ok_iff, require_eq_ok_iff, pure_eq_ok_iff, integral,
      Bool.and_eq_true, decide_eq_true_eq, Bool.not_eq_true', List.contains_eq_mem,
      decide_eq_false_iff_not, noPoint, not_false_eq_true, and_true, beq_iff_eq]
    have positive := (unit_eq_some known).1
    constructor
    · rintro ⟨_, short, amount, scaled, _, integer, rfl⟩
      rcases (scaledQuantity_eq_ok_iff nonempty decimal short positive).mp scaled with ⟨fits, rfl⟩
      exact ⟨short, fits, _, Int.tdiv_mul_cancel (Int.dvd_of_tmod_eq_zero integer), rfl⟩
    · rintro ⟨short, fits, amount, same, rfl⟩
      refine ⟨(), short, _, (scaledQuantity_eq_ok_iff nonempty decimal short positive).mpr
        ⟨fits, same⟩, (), Int.mul_tmod_left _ _, ?_⟩
      rw [Int.mul_tdiv_cancel _ (by positivity)]
  · rw [parseI128_places some fractional short]
    rfl

/-- One byte and a half is no integer, but one and a half kilobytes are. -/
theorem number_literals_exact_kilobytes :
    number (literal ['1'] (some ['5']) ['k', 'B']) = .ok (.quantity 1500 .size) := by
  have digits : Nat.ofDigitChars 10 ['1', '5'] 0 = 15 := rfl
  refine ((@number_literals_exact ['1'] ['k', 'B'] (some ['5']) 1000 .size (by simp)
    (by simp [isDigit]) (by rfl)).1 _).mpr ⟨by decide, ?_, 1500, ?_, rfl⟩
  all_goals norm_num [digits]

/-- Nineteen places are refused, and so is the greatest number with a place. -/
theorem long_fraction_is_refused :
    number (literal ['1'] (some (List.replicate 19 '0')) []) = .error "invalid decimal quantity" ∧
      number (literal "170141183460469231731687303715884105727".toList (some ['0']) []) =
        .error "quantity overflow" := by
  decide +kernel

end Syq.Selection
