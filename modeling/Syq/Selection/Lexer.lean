import Syq.Selection.Eval

/-!
# Tokens of selection expressions

The text of an expression is cut into words, quoted strings, numbers with an optional
unit, and symbols.
-/

namespace Syq.Selection

inductive Token where
  | word (text : String)
  | string (value : Bytes)
  | number (text : List Char)
  | symbol (text : String)
  | finish
  deriving DecidableEq

/-! ## Characters -/

def isWhitespace (c : Char) : Bool :=
  c == ' ' || c == '\t' || c == '\n' || c == '\x0c' || c == '\r'

def isDigit (c : Char) : Bool :=
  '0' ≤ c && c ≤ '9'

def isAlpha (c : Char) : Bool :=
  ('a' ≤ c && c ≤ 'z') || ('A' ≤ c && c ≤ 'Z')

/-- A character of a number after its first digit. -/
def inNumber (c : Char) : Bool :=
  isDigit c || isAlpha c || c == '.'

/-- A character of a word after its first letter. -/
def inWord (c : Char) : Bool :=
  isDigit c || isAlpha c || c == '_' || c == '.'

/-- The value of a digit in some base up to sixteen. -/
def digitValue (base : Nat) (c : Char) : Option Nat :=
  let value :=
    if isDigit c then c.toNat - '0'.toNat
    else if 'a' ≤ c && c ≤ 'f' then c.toNat - 'a'.toNat + 10
    else if 'A' ≤ c && c ≤ 'F' then c.toNat - 'A'.toNat + 10
    else base
  if value < base then some value else none

/-- The number some digits stand for. -/
def digitsValue (base : Nat) (digits : List Char) : Option Nat :=
  digits.foldlM (fun value c => (digitValue base c).map fun digit => value * base + digit) 0

/-- A sign and what follows it. -/
def splitSign : List Char → Int × List Char
  | '+' :: digits => (1, digits)
  | '-' :: digits => (-1, digits)
  | digits => (1, digits)

/-- A 128-bit number written in some base, with or without a sign. -/
def parseI128 (base : Nat) (text : List Char) : Option Int :=
  let (sign, digits) := splitSign text
  if digits.isEmpty then none
  else (digitsValue base digits).bind fun value => checkedI128 (sign * value)

/-! ## Strings -/

/-- The byte of two hexadecimal digits; a plus sign may stand for the first. -/
def hexByte : Char → Char → Option UInt8
  | '+', second => (digitValue 16 second).map UInt8.ofNat
  | first, second => do
      let high ← digitValue 16 first
      let low ← digitValue 16 second
      pure (UInt8.ofNat (high * 16 + low))

/-- The byte of a one-letter escape. -/
def escapedByte : Char → Option UInt8
  | '\\' => some 92
  | '\'' => some 39
  | '"' => some 34
  | 'n' => some 10
  | 'r' => some 13
  | 't' => some 9
  | _ => none

/-- The failure of a byte escape whose digits are not two characters of one byte.  A
two-byte character is taken for the digits. -/
def hexFailure (rest : List Char) : String :=
  if (rest.head?.map Char.utf8Size) = some 2 then "invalid byte escape"
  else "expected two hexadecimal digits after \\x"

/-- A quoted string up to its closing quote, and what follows it. -/
def lexString (quote : Char) : List Char → Except String (Bytes × List Char)
  | [] => .error "unterminated string"
  | ['\\'] => .error "unfinished escape"
  | '\\' :: 'x' :: first :: second :: rest =>
    if first.utf8Size = 1 ∧ second.utf8Size = 1 then
      match hexByte first second with
      | none => .error "invalid byte escape"
      | some byte => do
          let (value, after) ← lexString quote rest
          pure (byte :: value, after)
    else .error (hexFailure (first :: second :: rest))
  | '\\' :: 'x' :: rest => .error (hexFailure rest)
  | '\\' :: c :: rest =>
    match escapedByte c with
    | none => .error "unknown string escape; escape a backslash as \\\\"
    | some byte => do
        let (value, after) ← lexString quote rest
        pure (byte :: value, after)
  | c :: rest =>
    if c = quote then .ok ([], rest)
    else do
      let (value, after) ← lexString quote rest
      pure (String.utf8EncodeChar c ++ value, after)

/-! ## Tokens -/

/-- The symbols, longer ones before those they begin with. -/
def symbols : List String :=
  ["==", "!=", "<=", ">=", "<>", "=~", "=", "<", ">", "+", "-", "*", "/", "%", "&", "|", "^",
    "(", ")", "[", "]", ","]

/-- The token a text begins with, and what follows it. -/
def lexToken (position : Nat) (c : Char) (rest : List Char) :
    Except String (Token × List Char) :=
  if c = '\'' ∨ c = '"' then do
    let (value, after) ← lexString c rest
    pure (.string value, after)
  else if isDigit c then
    .ok (.number (c :: rest.takeWhile inNumber), rest.dropWhile inNumber)
  else if isAlpha c ∨ c = '_' then
    .ok (.word (String.ofList (c :: rest.takeWhile inWord)), rest.dropWhile inWord)
  else
    match symbols.find? fun symbol => symbol.toList.isPrefixOf (c :: rest) with
    | some symbol => .ok (.symbol symbol, (c :: rest).drop symbol.toList.length)
    | none => .error s!"unexpected character at byte {position + 1}"

/-- The bytes of a text. -/
def byteLength (text : List Char) : Nat :=
  (text.map Char.utf8Size).sum

/-- The tokens of a text from a position on, with their positions.  Every token takes a
character, so `fuel` is the length of the text. -/
def lexFrom : Nat → Nat → Nat → List Char → Except String (List (Token × Nat))
  | _, _, _, [] => .ok []
  | 0, _, _, _ => .ok []
  | fuel + 1, count, position, c :: rest =>
    if isWhitespace c then lexFrom fuel count (position + 1) rest
    else do
      let (token, after) ← lexToken position c rest
      require (count + 1 ≤ 512) "expression exceeds 512 tokens"
      let next := position + (byteLength (c :: rest) - byteLength after)
      let later ← lexFrom fuel (count + 1) next after
      pure ((token, position) :: later)

def lex (text : List Char) : Except String (List (Token × Nat)) :=
  lexFrom text.length 0 0 text

/-! ## Numbers -/

/-- What a unit stands for. -/
def unit (suffix : List Char) : Option (Int × Ty) :=
  match String.ofList suffix with
  | "" => some (1, .number)
  | "B" => some (1, .size)
  | "kB" | "KB" => some (1000, .size)
  | "MB" => some (1000000, .size)
  | "GB" => some (1000000000, .size)
  | "TB" => some (1000000000000, .size)
  | "KiB" => some (2 ^ 10, .size)
  | "MiB" => some (2 ^ 20, .size)
  | "GiB" => some (2 ^ 30, .size)
  | "TiB" => some (2 ^ 40, .size)
  | "ns" => some (1, .duration)
  | "us" => some (1000, .duration)
  | "ms" => some (1000000, .duration)
  | "s" => some (1000000000, .duration)
  | "m" => some (60000000000, .duration)
  | "h" => some (3600000000000, .duration)
  | "d" => some (86400000000000, .duration)
  | "w" => some (604800000000000, .duration)
  | _ => none

/-- The digits of a decimal quantity before and after its point. -/
def splitPoint (digits : List Char) : List Char × List Char :=
  (digits.takeWhile (· != '.'), (digits.dropWhile (· != '.')).drop 1)

/-- A decimal quantity times its unit, in units of the last decimal place. -/
def scaledQuantity (whole fraction : List Char) (multiplier : Int) : Except String Int :=
  match parseI128 10 whole with
  | none => .error "number too large to fit in target type"
  | some amount =>
    let scaled := checkedI128 (amount * 10 ^ fraction.length) |>.bind fun amount =>
      checkedI128 (amount +
        if fraction.isEmpty then 0 else (parseI128 10 fraction).getD (-1)) |>.bind fun amount =>
        checkedI128 (amount * multiplier)
    match scaled with
    | some amount => .ok amount
    | none => .error "quantity overflow"

def decimal (text : List Char) : Except String Value :=
  let digits := text.takeWhile fun c => isDigit c || c == '.'
  let suffix := text.dropWhile fun c => isDigit c || c == '.'
  match unit suffix with
  | none => .error (s!"unknown quantity suffix \"{String.ofList suffix}\"; " ++
      "use B/KiB/MiB/GB or ns/ms/s/m/h/d/w")
  | some (multiplier, ty) => do
      let (whole, fraction) := splitPoint digits
      require (fraction.length ≤ 18 && !fraction.contains '.') "invalid decimal quantity"
      let amount ← scaledQuantity whole fraction multiplier
      require (amount.tmod (10 ^ fraction.length) == 0)
        "quantity must resolve to whole bytes, nanoseconds, or integers"
      pure (.quantity (amount.tdiv (10 ^ fraction.length)) ty)

def number : List Char → Except String Value
  | '0' :: 'o' :: octal =>
    match parseI128 8 octal with
    | some amount => .ok (.quantity amount .number)
    | none => .error "invalid octal number"
  | '0' :: 'x' :: hex =>
    match parseI128 16 hex with
    | some amount => .ok (.quantity amount .number)
    | none => .error "invalid hexadecimal number"
  | text => decimal text

end Syq.Selection
