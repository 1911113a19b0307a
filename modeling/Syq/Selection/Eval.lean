import Syq.Selection.Syntax

/-!
# Typing and evaluating selection expressions

Types are found once, when an expression is compiled; evaluation performs no I/O and
stops at the first field that is not known yet.
-/

namespace Syq.Selection

open Syq.Results (Kind)

/-! ## Types -/

def require (ok : Bool) (message : String) : Except String Unit :=
  if ok then .ok () else .error message

theorem require_eq_ok_iff {ok : Bool} {msg : String} {result : Unit} :
    require ok msg = .ok result ↔ ok = true := by
  cases ok <;> simp [require]

def commonType (a b : Ty) : Except String Ty :=
  if a = .null then .ok b
  else if b = .null ∨ a = b then .ok a
  else .error s!"incompatible types: {a.debug} and {b.debug}"

/-- A number, a size or a duration. -/
def Ty.isAmount : Ty → Bool
  | number | size | duration => true
  | _ => false

/-- A type whose values are ordered. -/
def Ty.isOrdered : Ty → Bool
  | number | size | duration | timestamp | string => true
  | _ => false

def invalidArithmetic (a b : Ty) : Except String Ty :=
  .error s!"invalid arithmetic between {a.debug} and {b.debug}"

def binaryType (op : Op) (a b : Ty) : Except String Ty :=
  match op with
  | .and | .or => do
      require (a == .bool && b == .bool) "and/or require booleans"
      pure .bool
  | .eq | .ne => do
      let _ ← commonType a b
      pure .bool
  | .lt | .le | .gt | .ge => do
      require (a == b && a.isOrdered) ("ordered comparisons require matching numbers, sizes, " ++
        "durations, timestamps, or strings")
      pure .bool
  | .bitAnd | .bitOr | .bitXor =>
    if a = .number ∧ b = .number then .ok .number else invalidArithmetic a b
  | .add =>
    if a = .timestamp ∧ b = .duration ∨ a = .duration ∧ b = .timestamp then .ok .timestamp
    else if a = b ∧ a.isAmount then .ok a
    else invalidArithmetic a b
  | .sub =>
    if a = .timestamp ∧ b = .duration then .ok .timestamp
    else if a = .timestamp ∧ b = .timestamp then .ok .duration
    else if a = b ∧ a.isAmount then .ok a
    else invalidArithmetic a b
  | .mul =>
    if a = .number ∧ b.isAmount then .ok b
    else if b = .number ∧ a.isAmount then .ok a
    else invalidArithmetic a b
  | .div =>
    if b = .number ∧ a.isAmount then .ok a
    else if a = b ∧ (a = .size ∨ a = .duration) then .ok .number
    else invalidArithmetic a b
  | .rem => if a = b ∧ a.isAmount then .ok a else invalidArithmetic a b

namespace Node

mutual

def ty : Node → Except String Ty
  | literal value => .ok value.ty
  | field _ which => .ok which.ty
  | now => .ok .timestamp
  | not operand => do
      let t ← operand.ty
      require (t == .bool) "not requires a boolean"
      pure .bool
  | negative operand => do
      let t ← operand.ty
      require t.isAmount "unary minus requires a number, size, or duration"
      pure t
  | binary op left right => do
      let a ← left.ty
      let b ← right.ty
      binaryType op a b
  | between operand low high => do
      let a ← operand.ty
      let b ← low.ty
      let _ ← binaryType .ge a b
      let c ← high.ty
      let _ ← binaryType .le a c
      pure .bool
  | inList operand items => do
      itemTypes operand.ty items
      pure .bool
  | pattern operand _ => do
      let t ← operand.ty
      require (t == .string) "pattern matching requires a string"
      pure .bool
  | ifElse condition left right => do
      let t ← condition.ty
      require (t == .bool) "if requires a boolean condition"
      let a ← left.ty
      let b ← right.ty
      commonType a b
  | coalesce left right => do
      let a ← left.ty
      let b ← right.ty
      commonType a b

/-- Each item of a list is compared with the operand, whose type is asked for each time. -/
def itemTypes (operand : Except String Ty) : List Node → Except String Unit
  | [] => .ok ()
  | item :: rest => do
      let a ← operand
      let b ← item.ty
      let _ ← binaryType .eq a b
      itemTypes operand rest

end

end Node

/-! ## Values -/

/-- Why an evaluation failed.  A failure about a value carries the value. -/
inductive EvalError where
  /-- A field is read that is not known yet. -/
  | needMetadata
  | notBoolean (value : Value)
  | cannotNegate (value : Value)
  | cannotMatch (value : Value)
  | unavailable
  | overflow
  | overflowOrZero
  | notQuantities
  | illTyped (message : String)
  deriving DecidableEq

def EvalError.message : EvalError → String
  | needMetadata => "expression needs metadata"
  | notBoolean _ => "expected a boolean value"
  | cannotNegate _ => "cannot negate an unavailable value"
  | cannotMatch _ => "cannot match an unavailable value; test it against null first"
  | unavailable => "field is unavailable; test it against null or use coalesce first"
  | overflow => "arithmetic overflow"
  | overflowOrZero => "arithmetic overflow or division by zero"
  | notQuantities => "arithmetic requires quantities"
  | illTyped message => message

def Value.boolean : Value → Except EvalError Bool
  | bool value => .ok value
  | value => .error (.notBoolean value)

/-- A result that a signed 128-bit number holds. -/
def checkedI128 (amount : Int) : Option Int :=
  if -2 ^ 127 ≤ amount ∧ amount < 2 ^ 127 then some amount else none

def Value.negate : Value → Except EvalError Value
  | quantity amount ty =>
    match checkedI128 (-amount) with
    | some amount => .ok (.quantity amount ty)
    | none => .error .overflow
  | value => .error (.cannotNegate value)

/-- Whether a string matches a pattern. -/
def Value.matchedBy (isMatch : Bytes → Bool) : Value → Except EvalError Value
  | string text => .ok (.bool (isMatch text))
  | value => .error (.cannotMatch value)

/-- A bitwise operation on signed 128-bit numbers. -/
def bitwise (operation : BitVec 128 → BitVec 128 → BitVec 128) (a b : Int) : Int :=
  (operation (BitVec.ofInt 128 a) (BitVec.ofInt 128 b)).toInt

def arithmetic (op : Op) (a b : Int) : Option Int :=
  match op with
  | .add => checkedI128 (a + b)
  | .sub => checkedI128 (a - b)
  | .mul => checkedI128 (a * b)
  | .div => if b = 0 then none else checkedI128 (a.tdiv b)
  -- The remainder overflows where the quotient does.
  | .rem => if b = 0 then none else (checkedI128 (a.tdiv b)).map fun _ => a.tmod b
  | .bitAnd => some (bitwise (· &&& ·) a b)
  | .bitOr => some (bitwise (· ||| ·) a b)
  | .bitXor => some (bitwise (· ^^^ ·) a b)
  | _ => none

/-- The order of two quantities or of two strings. -/
def Value.order : Value → Value → Option Ordering
  | quantity a _, quantity b _ => some (compare a b)
  | string a, string b => some (compare a b)
  | _, _ => none

/-- Whether an order is what a comparison asks for. -/
def Op.holds (op : Op) (order : Ordering) : Option Bool :=
  match op with
  | .lt => some order.isLT
  | .le => some order.isLE
  | .gt => some order.isGT
  | .ge => some order.isGE
  | _ => none

/-- The result of a comparison or of arithmetic between values that are there. -/
def combine (op : Op) (a b : Value) (ty : Ty) : Except EvalError Value :=
  match (a.order b).bind op.holds with
  | some result => .ok (.bool result)
  | none =>
    match a, b with
    | .quantity a _, .quantity b _ =>
      match arithmetic op a b with
      | some amount => .ok (.quantity amount ty)
      | none => .error .overflowOrZero
    | _, _ => .error .notQuantities

def binary (op : Op) (a b : Value) : Except EvalError Value :=
  if op = .eq then .ok (.bool (a == b))
  else if op = .ne then .ok (.bool (a != b))
  else if a = .null ∨ b = .null then .error .unavailable
  else
    match binaryType op a.ty b.ty with
    | .error message => .error (.illTyped message)
    | .ok ty => combine op a b ty

/-! ## Evaluation -/

namespace Node

variable (isMatch : Bytes → Bytes → Bool) (lookup : Bool → Field → Except EvalError Value)
  (time : Int)

mutual

/-- Evaluate an expression, given what is known of each field. -/
def eval : Node → Except EvalError Value
  | literal value => .ok value
  | now => .ok (.quantity time .timestamp)
  | field destination which => lookup destination which
  | not operand => do
      let value ← operand.eval
      let b ← value.boolean
      pure (.bool !b)
  | negative operand => do
      let value ← operand.eval
      value.negate
  | binary .and left right => do
      let a ← left.eval
      let a ← a.boolean
      if a then do
        let b ← right.eval
        let b ← b.boolean
        pure (.bool b)
      else pure (.bool false)
  | binary .or left right => do
      let a ← left.eval
      let a ← a.boolean
      if a then pure (.bool true)
      else do
        let b ← right.eval
        let b ← b.boolean
        pure (.bool b)
  | binary op left right => do
      let a ← left.eval
      let b ← right.eval
      Selection.binary op a b
  | between operand low high => do
      let value ← operand.eval
      let b ← low.eval
      let above ← Selection.binary .ge value b
      let above ← above.boolean
      if above then do
        let d ← high.eval
        let below ← Selection.binary .le value d
        let below ← below.boolean
        pure (.bool below)
      else pure (.bool false)
  | inList operand items => do
      let value ← operand.eval
      let found ← evalItems value items
      pure (.bool found)
  | pattern operand regex => do
      let value ← operand.eval
      value.matchedBy (isMatch regex)
  | ifElse condition left right => do
      let c ← condition.eval
      let c ← c.boolean
      if c then left.eval else right.eval
  | coalesce left right => do
      let value ← left.eval
      if value = .null then right.eval else pure value

/-- Whether a value equals an item of a list; the items after it are not evaluated. -/
def evalItems (value : Value) : List Node → Except EvalError Bool
  | [] => .ok false
  | item :: rest => do
      let b ← item.eval
      let same ← Selection.binary .eq value b
      let same ← same.boolean
      if same then pure true else evalItems value rest

end

end Node

/-! ## Facts -/

/-- What is known of a file without another metadata request. -/
inductive Facts where
  | complete (file : File)
  | s3Listing (size : Nat) (directoryMarker : Bool) (lastModified : Option (Int × Nat))
  | unread
  deriving DecidableEq

def Facts.field (facts : Facts) (path : Bytes) (field : Field) : Except EvalError Value :=
  match facts with
  | .complete file => .ok (file.field path field)
  | facts =>
    match field with
    | .path | .name | .extension => .ok (File.field {} path field)
    | field =>
      match facts with
      | .s3Listing size _ lastModified =>
        match field with
        | .exist => .ok (.bool true)
        | .size => .ok (.quantity size .size)
        | .s3LastModified => .ok (quantity (lastModified.map nanoseconds) .timestamp)
        -- The service never has these fields.
        | .ctime | .device | .inode | .links | .linkTarget => .ok .null
        -- Stored metadata determines kind, times and ownership.
        | _ => .error .needMetadata
      | _ => .error .needMetadata

structure ContextValues where
  src : Facts
  dst : Facts
  srcPath : Bytes
  dstPath : Bytes
  now : Int

/-- What a context knows of a field of the source or the destination. -/
def ContextValues.field (context : ContextValues) (destination : Bool) (field : Field) :
    Except EvalError Value :=
  if destination then context.dst.field context.dstPath field
  else context.src.field context.srcPath field

/-- A compiled expression. -/
structure Expression where
  root : Node

namespace Expression

variable (isMatch : Bytes → Bytes → Bool) (expression : Expression)

def evaluateIn (context : ContextValues) : Except EvalError Bool := do
  let value ← expression.root.eval isMatch context.field context.now
  value.boolean

def evaluate (src : File) (srcPath : Bytes) (dst : File) (dstPath : Bytes) (now : Int) :
    Except EvalError Bool :=
  expression.evaluateIn isMatch ⟨.complete src, .complete dst, srcPath, dstPath, now⟩

/-- The value, where what is known decides it. -/
def evaluateKnown (src : Facts) (srcPath : Bytes) (dst : Facts) (dstPath : Bytes) (now : Int) :
    Except EvalError (Option Bool) :=
  let context : ContextValues := ⟨src, dst, srcPath, dstPath, now⟩
  match expression.root.eval isMatch context.field now with
  | .ok value => value.boolean.map some
  | .error .needMetadata => .ok none
  | .error error => .error error

end Expression

/-! ## Policies -/

structure Policy where
  selection : Option Expression
  update : Option Expression
  now : Int

namespace Policy

variable (isMatch : Bytes → Bytes → Bool) (policy : Policy)

/-- An evaluation failure, with what was evaluated. -/
structure Failure where
  context : String
  error : EvalError
  deriving DecidableEq

/-- Name the option whose expression failed. -/
def withContext {α : Type} (context : String) (result : Except EvalError α) : Except Failure α :=
  result.mapError fun error => ⟨context, error⟩

def selects (src : File) (path : Bytes) : Except Failure Bool :=
  if src.kind = some .dir then .ok true
  else
    withContext "--where" <|
      match policy.selection with
      | none => .ok true
      | some expression => expression.evaluate isMatch src path {} [] policy.now

/-- Whether a file is selected, where what is known decides it. -/
def selectsKnown (src : Facts) (path : Bytes) : Except Failure (Option Bool) :=
  match src with
  | .complete file => (policy.selects isMatch file path).map some
  | src =>
    match policy.selection with
    | none => .ok (some true)
    | some expression =>
      match src with
      -- The listing identifies a directory, and directories bypass the selection.
      | .s3Listing _ true _ => .ok (some true)
      | src => withContext "--where" (expression.evaluateKnown isMatch src path .unread []
          policy.now)

def permitsKnown (src : Facts) (srcPath : Bytes) (dst : Facts) (dstPath : Bytes) :
    Except Failure (Option Bool) :=
  withContext "--copy-if" <|
    match policy.update with
    | none => .ok (some true)
    | some expression => expression.evaluateKnown isMatch src srcPath dst dstPath policy.now

def permits (src : File) (srcPath : Bytes) (dst : File) (dstPath : Bytes) :
    Except Failure Bool :=
  withContext "--copy-if" <|
    match policy.update with
    | none => .ok true
    | some expression => expression.evaluate isMatch src srcPath dst dstPath policy.now

end Policy

end Syq.Selection
