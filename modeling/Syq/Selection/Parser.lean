import Syq.Selection.Lexer

/-!
# Parsing selection expressions

A precedence-climbing parser over the tokens of a text, and the compiler that also asks
for a boolean.
-/

namespace Syq.Selection

/-- The tokens ahead, with their positions.  The end of the text is the empty list. -/
abbrev Tokens := List (Token × Nat)

/-- A failure and the tokens ahead of it. -/
abbrev Failing := String × Tokens

/-- A parser: what it reads, and the tokens after it. -/
abbrev Parse (α : Type) := Tokens → Except Failing (α × Tokens)

/-- Patterns and times, which other libraries read. -/
structure Engine where
  fromUtf8 : Bytes → Except String Unit
  /-- The regular expression of a glob. -/
  glob : Bytes → Except String Bytes
  /-- Whether a regular expression is one. -/
  buildRegex : Bytes → Except String Unit
  /-- The time of an RFC 3339 text, in nanoseconds. -/
  parseTimestamp : Bytes → Except String Int

namespace Parser

def peek : Tokens → Token
  | [] => .finish
  | (token, _) :: _ => token

/-- The next token; the end of the text stays ahead. -/
def take : Tokens → Token × Tokens
  | [] => (.finish, [])
  | (token, _) :: rest => (token, rest)

def is (text : String) (tokens : Tokens) : Bool :=
  peek tokens == .word text || peek tokens == .symbol text

def expect (text : String) (tokens : Tokens) : Except Failing Tokens :=
  if is text tokens then .ok tokens.tail else .error (s!"expected \"{text}\"", tokens)

/-- A failure found before the given tokens. -/
def failing {α : Type} (tokens : Tokens) (result : Except String α) : Except Failing α :=
  result.mapError fun message => (message, tokens)

/-- The precedence of a token that may follow an operand, and its operator.  Forms that
are no plain operator have none. -/
def precedence : Token → Nat × Option Op
  | .word "or" => (1, some .or)
  | .word "and" => (2, some .and)
  | .word "in" | .word "between" | .word "glob" | .word "matches" | .word "is"
  | .word "not" => (3, none)
  | .symbol "=" | .symbol "==" => (3, some .eq)
  | .symbol "!=" | .symbol "<>" => (3, some .ne)
  | .symbol "<" => (3, some .lt)
  | .symbol "<=" => (3, some .le)
  | .symbol ">" => (3, some .gt)
  | .symbol ">=" => (3, some .ge)
  | .symbol "=~" => (3, none)
  | .symbol "|" => (4, some .bitOr)
  | .symbol "^" => (5, some .bitXor)
  | .symbol "&" => (6, some .bitAnd)
  | .symbol "+" => (7, some .add)
  | .symbol "-" => (7, some .sub)
  | .symbol "*" => (8, some .mul)
  | .symbol "/" => (8, some .div)
  | .symbol "%" => (8, some .rem)
  | _ => (0, none)

variable (engine : Engine) (destination : Bool)

/-- The regular expression a pattern stands for. -/
def regexOf (pattern : Bytes) (isGlob : Bool) : Except String Bytes := do
  (engine.fromUtf8 pattern).mapError fun _ => "pattern must be UTF-8"
  let regex ← if isGlob then engine.glob pattern else .ok pattern
  (engine.buildRegex regex).mapError fun _ => "invalid pattern"
  pure regex

def pattern (left : Node) (isGlob : Bool) : Parse Node := fun tokens =>
  match take tokens with
  | (.string text, rest) => do
      let regex ← failing rest (regexOf engine text isGlob)
      pure (.pattern left regex, rest)
  | (_, rest) => .error ("pattern must be a quoted literal", rest)

/-- The field a word names. -/
def fieldOf (word : String) : Except String Node :=
  if !word.toList.contains '.' then .error "expected src.FIELD, dst.FIELD, or a quoted string"
  else
    let side := String.ofList (word.toList.takeWhile (· != '.'))
    let name := String.ofList ((word.toList.dropWhile (· != '.')).drop 1)
    if side ≠ "src" ∧ side ≠ "dst" then .error "field must start with src. or dst."
    else if side = "dst" ∧ destination = false then
      .error ("--where accepts source fields only; " ++
        "use --copy-if for destination conditions")
    else
      match Field.parse name with
      | some field => .ok (.field (side == "dst") field)
      | none => .error s!"unknown field \"{name}\""

def timestampOf (text : Bytes) : Except String Node := do
  engine.fromUtf8 text
  let time ← (engine.parseTimestamp text).mapError fun _ =>
    "invalid RFC 3339 timestamp (include a timezone)"
  pure (.literal (.quantity time .timestamp))

section Step

variable (sub : Nat → Parse Node)

def timestamp : Parse Node := fun tokens => do
  let rest ← expect "(" tokens
  match take rest with
  | (.string text, rest) => do
      let rest ← expect ")" rest
      let node ← failing rest (timestampOf engine text)
      pure (node, rest)
  | (_, rest) => .error ("timestamp requires a quoted RFC 3339 literal", rest)

/-- The two or three arguments of `coalesce` or `if`. -/
def arguments (three : Bool) : Parse Node := fun tokens => do
  let rest ← expect "(" tokens
  let (a, rest) ← sub 0 rest
  let rest ← expect "," rest
  let (b, rest) ← sub 0 rest
  if three then do
    let rest ← expect "," rest
    let (c, rest) ← sub 0 rest
    let rest ← expect ")" rest
    pure (.ifElse a b c, rest)
  else do
    let rest ← expect ")" rest
    pure (.coalesce a b, rest)

/-- An operand: what stands before the first operator. -/
def prefixed : Parse Node := fun tokens =>
  match take tokens with
  | (.string text, rest) => .ok (.literal (.string text), rest)
  | (.number text, rest) => do
      let value ← failing rest (number text)
      pure (.literal value, rest)
  | (.symbol "(", rest) => do
      let (node, rest) ← sub 0 rest
      let rest ← expect ")" rest
      pure (node, rest)
  | (.symbol "-", rest) => do
      let (node, rest) ← sub 9 rest
      pure (.negative node, rest)
  | (.word "not", rest) => do
      let (node, rest) ← sub 3 rest
      pure (.not node, rest)
  | (.word "true", rest) => .ok (.literal (.bool true), rest)
  | (.word "false", rest) => .ok (.literal (.bool false), rest)
  | (.word "null", rest) => .ok (.literal .null, rest)
  | (.word "now", rest) => .ok (.now, rest)
  | (.word "timestamp", rest) => timestamp engine rest
  | (.word "if", rest) => arguments sub true rest
  | (.word "coalesce", rest) => arguments sub false rest
  | (.word word, rest) => do
      let node ← failing rest (fieldOf destination word)
      pure (node, rest)
  | (_, rest) => .error ("expected a value, field, or parenthesized expression", rest)

/-- The items of a list up to its closing symbol.  Every item takes a token, so `fuel` is
the number of tokens ahead. -/
def items (close : String) : Nat → Parse (List Node)
  | 0, tokens => .error (s!"expected \"{close}\"", tokens)
  | fuel + 1, tokens => do
      let (item, rest) ← sub 0 tokens
      if is close rest then pure ([item], rest.tail)
      else do
        let rest ← expect "," rest
        let (later, rest) ← items close fuel rest
        pure (item :: later, rest)

/-- The symbol that closes a list, and the tokens after the one that opens it. -/
def openList (tokens : Tokens) : Except Failing (String × Tokens) :=
  if is "[" tokens then .ok ("]", tokens.tail)
  else do
    let rest ← expect "(" tokens
    pure (")", rest)

def membership (left : Node) : Parse Node := fun tokens => do
  let (close, rest) ← openList tokens
  if is close rest then pure (.inList left [], rest.tail)
  else do
    let (items, rest) ← items sub close rest.length rest
    pure (.inList left items, rest)

def range (left : Node) : Parse Node := fun tokens => do
  let (low, rest) ← sub 4 tokens
  let rest ← expect "and" rest
  let (high, rest) ← sub 4 rest
  pure (.between left low high, rest)

def nullTest (left : Node) : Parse Node := fun tokens => do
  let negated := is "not" tokens
  let rest ← expect "null" (if negated then tokens.tail else tokens)
  pure (.binary (if negated then .ne else .eq) left (.literal .null), rest)

/-- A form that follows its operand, without its negation. -/
def form (left : Node) (negate : Bool) (special : Token) : Parse Node := fun tokens =>
  match special with
  | .word "in" => membership sub left tokens
  | .word "between" => range sub left tokens
  | .word "glob" => pattern engine left true tokens
  | .word "matches" => pattern engine left false tokens
  | special =>
    if special = .word "is" ∧ negate = false then nullTest left tokens
    else if special = .symbol "=~" ∧ negate = false then pattern engine left false tokens
    else .error ("expected in, between, glob, or matches after not", tokens)

/-- A form that follows its operand. -/
def postfixed (left : Node) (token : Token) : Parse Node := fun tokens =>
  if token = .word "not" then do
    let (node, rest) ← form engine sub left true (take tokens).1 (take tokens).2
    pure (.not node, rest)
  else form engine sub left false token tokens

/-- The operators after an operand, as long as they bind at least as tight as `min`.
Every operator takes a token, so `fuel` is the number of tokens ahead. -/
def operators (min : Nat) : Nat → Node → Parse Node
  | 0, left, tokens => .ok (left, tokens)
  | fuel + 1, left, tokens =>
    let (level, op) := precedence (peek tokens)
    if level = 0 ∨ level < min then .ok (left, tokens)
    else
      match op with
      | some op => do
          let (right, rest) ← sub (level + 1) (take tokens).2
          operators min fuel (.binary op left right) rest
      | none => do
          let (next, rest) ← postfixed engine sub left (take tokens).1 (take tokens).2
          operators min fuel next rest

end Step

/-- An expression of operators that bind at least as tight as `min`, at most `levels` deep. -/
def expression : Nat → Nat → Parse Node
  | 0, _, tokens => .error ("expression nesting exceeds 64 levels", tokens)
  | levels + 1, min, tokens => do
      let (left, rest) ← prefixed engine destination (expression levels) tokens
      operators engine (expression levels) min rest.length left rest

end Parser

variable (engine : Engine)

/-- Where the tokens ahead begin. -/
def positionOf (text : List Char) : Tokens → Nat
  | [] => byteLength text
  | (_, position) :: _ => position

def parse (text : List Char) (destination : Bool) : Except String Node := do
  require (byteLength text ≤ 65536) "expression exceeds 64 KiB"
  let tokens ← lex text
  let (node, rest) ← (Parser.expression engine destination 64 0 tokens).mapError
    fun (message, rest) => s!"at byte {positionOf text rest + 1}: {message}"
  require rest.isEmpty "unexpected tokens after expression"
  pure node

def Expression.compile (text : List Char) (destination : Bool) : Except String Expression := do
  let root ← parse engine text destination
  let ty ← root.ty
  require (ty == .bool) "expression must produce a boolean"
  pure ⟨root⟩

/-- The compiled expression of an option, where it is given. -/
def compileOption (option : String) (destination : Bool) :
    Option (List Char) → Except String (Option Expression)
  | none => .ok none
  | some text => do
      let expression ← (Expression.compile engine text destination).mapError fun message =>
        s!"{option}: {message}"
      pure (some expression)

def Policy.compile (selection update : Option (List Char)) (now : Int) :
    Except String Policy := do
  let selection ← compileOption engine "--where" false selection
  let update ← compileOption engine "--copy-if" true update
  pure ⟨selection, update, now⟩

end Syq.Selection
