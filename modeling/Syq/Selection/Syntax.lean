import Syq.Results.Change

/-!
# The selection language

Types, values and expressions of the predicates that choose what is copied, and the
metadata of the files they are about.
-/

namespace Syq.Selection

open Syq.Results (Kind)

abbrev Bytes := List UInt8

inductive Ty where
  | bool
  | string
  | number
  | size
  | duration
  | timestamp
  | null
  deriving DecidableEq

/-- A type as messages show it. -/
def Ty.debug : Ty → String
  | bool => "Bool"
  | string => "String"
  | number => "Number"
  | size => "Size"
  | duration => "Duration"
  | timestamp => "Timestamp"
  | null => "Null"

inductive Value where
  | bool (value : Bool)
  | string (bytes : Bytes)
  | quantity (amount : Int) (ty : Ty)
  | null
  deriving DecidableEq

def Value.ty : Value → Ty
  | bool _ => .bool
  | string _ => .string
  | quantity _ ty => ty
  | null => .null

inductive Field where
  | path
  | name
  | extension
  | kind
  | exist
  | size
  | mtime
  | s3LastModified
  | ctime
  | mode
  | uid
  | gid
  | device
  | inode
  | links
  | linkTarget
  deriving DecidableEq

/-- The field a name stands for. -/
def Field.parse : String → Option Field
  | "path" => some path
  | "name" => some name
  | "extension" => some extension
  | "kind" => some kind
  | "exists" => some exist
  | "size" => some size
  | "mtime" => some mtime
  | "s3_last_modified" => some s3LastModified
  | "ctime" => some ctime
  | "mode" => some mode
  | "uid" => some uid
  | "gid" => some gid
  | "device" => some device
  | "inode" => some inode
  | "nlink" => some links
  | "link_target" => some linkTarget
  | _ => none

def Field.ty : Field → Ty
  | path | name | extension | kind | linkTarget => .string
  | exist => .bool
  | size => .size
  | mtime | ctime | s3LastModified => .timestamp
  | mode | uid | gid | device | inode | links => .number

inductive Op where
  | and
  | or
  | eq
  | ne
  | lt
  | le
  | gt
  | ge
  | add
  | sub
  | mul
  | div
  | rem
  | bitAnd
  | bitOr
  | bitXor
  deriving DecidableEq

/-- An expression.  A compiled regular expression is its pattern. -/
inductive Node where
  | literal (value : Value)
  | field (destination : Bool) (field : Field)
  | now
  | not (operand : Node)
  | negative (operand : Node)
  | binary (op : Op) (left right : Node)
  | inList (operand : Node) (items : List Node)
  | between (operand low high : Node)
  | pattern (operand : Node) (regex : Bytes)
  | ifElse (condition left right : Node)
  | coalesce (left right : Node)

namespace Node

/-- What holds of an expression whenever it holds of its parts holds of every expression. -/
theorem induction {motive : Node → Prop}
    (literal : ∀ value, motive (literal value))
    (field : ∀ dest which, motive (field dest which)) (now : motive now)
    (not : ∀ operand, motive operand → motive (not operand))
    (negative : ∀ operand, motive operand → motive (negative operand))
    (binary : ∀ op left right, motive left → motive right → motive (binary op left right))
    (inList : ∀ operand items, motive operand → (∀ item ∈ items, motive item) →
      motive (inList operand items))
    (between : ∀ operand low high, motive operand → motive low → motive high →
      motive (between operand low high))
    (pattern : ∀ operand regex, motive operand → motive (pattern operand regex))
    (ifElse : ∀ condition left right, motive condition → motive left → motive right →
      motive (ifElse condition left right))
    (coalesce : ∀ left right, motive left → motive right → motive (coalesce left right))
    (node : Node) : motive node :=
  @Node.rec motive (fun items => ∀ item ∈ items, motive item)
    literal field now not negative binary inList between pattern ifElse coalesce
    (by simp) (fun _ _ head tail => List.forall_mem_cons.mpr ⟨head, tail⟩) node

mutual

/-- An expression and the expressions within it. -/
def subexpressions : Node → List Node
  | literal value => [literal value]
  | field destination which => [field destination which]
  | now => [now]
  | not operand => not operand :: operand.subexpressions
  | negative operand => negative operand :: operand.subexpressions
  | binary op left right =>
    binary op left right :: (left.subexpressions ++ right.subexpressions)
  | inList operand items =>
    inList operand items :: (operand.subexpressions ++ subexpressionsOf items)
  | between operand low high => between operand low high ::
      (operand.subexpressions ++ low.subexpressions ++ high.subexpressions)
  | pattern operand regex => pattern operand regex :: operand.subexpressions
  | ifElse condition left right => ifElse condition left right ::
      (condition.subexpressions ++ left.subexpressions ++ right.subexpressions)
  | coalesce left right => coalesce left right :: (left.subexpressions ++ right.subexpressions)

def subexpressionsOf : List Node → List Node
  | [] => []
  | item :: rest => item.subexpressions ++ subexpressionsOf rest

end

end Node

/-! ## Files -/

/-- Metadata of a file; a missing field is not known to be anything. -/
structure File where
  exist : Bool := false
  kind : Option Kind := none
  size : Option Nat := none
  mtime : Option (Int × Nat) := none
  ctime : Option (Int × Nat) := none
  s3LastModified : Option (Int × Nat) := none
  mode : Option Nat := none
  uid : Option Nat := none
  gid : Option Nat := none
  device : Option Nat := none
  inode : Option Nat := none
  nlink : Option Nat := none
  linkTarget : Option Bytes := none
  deriving DecidableEq

/-- A kind as expressions compare it. -/
def kindText : Kind → Bytes
  | .file => [102, 105, 108, 101]
  | .dir => [100, 105, 114]
  | .symlink => [115, 121, 109, 108, 105, 110, 107]
  | .fifo => [102, 105, 102, 111]
  | .socket => [115, 111, 99, 107, 101, 116]
  | .charDev => [99, 104, 97, 114]
  | .blockDev => [98, 108, 111, 99, 107]
  | .other => [111, 116, 104, 101, 114]

/-- The last component of a path. -/
def fileName (path : Bytes) : Bytes :=
  (path.splitOn 47).getLastD path

/-- What follows the last dot of a name, unless the dot begins it. -/
def fileExtension (name : Bytes) : Bytes :=
  match name.reverse.findIdx? (· == 46) with
  | none => []
  | some after => if after + 1 = name.length then [] else name.drop (name.length - after)

/-- A time in nanoseconds. -/
def nanoseconds (time : Int × Nat) : Int :=
  time.1 * 1000000000 + time.2

def quantity (amount : Option Int) (ty : Ty) : Value :=
  amount.elim .null fun amount => .quantity amount ty

def File.field (file : File) (path : Bytes) (field : Field) : Value :=
  match field with
  -- Placement is known even if the file does not exist.
  | .path => .string path
  | .name => .string (fileName path)
  | .extension => .string (fileExtension (fileName path))
  | .exist => .bool file.exist
  | field =>
    if !file.exist then .null
    else
      match field with
      | .kind => file.kind.elim .null fun kind => .string (kindText kind)
      | .size => quantity (file.size.map Int.ofNat) .size
      | .mtime => quantity (file.mtime.map nanoseconds) .timestamp
      | .ctime => quantity (file.ctime.map nanoseconds) .timestamp
      | .s3LastModified => quantity (file.s3LastModified.map nanoseconds) .timestamp
      | .mode => quantity (file.mode.map Int.ofNat) .number
      | .uid => quantity (file.uid.map Int.ofNat) .number
      | .gid => quantity (file.gid.map Int.ofNat) .number
      | .device => quantity (file.device.map Int.ofNat) .number
      | .inode => quantity (file.inode.map Int.ofNat) .number
      | .links => quantity (file.nlink.map Int.ofNat) .number
      | .linkTarget => file.linkTarget.elim .null .string
      | _ => .null

end Syq.Selection
