import Syq.Lib.Guards
import Syq.Selection.Eval

/-!
# Type soundness of selection expressions

An expression whose parts all have a type evaluates to a value of its type or to null, or
fails because an operand is null or a result overflows.
-/

namespace Syq.Selection

open Syq.Lib

variable {α : Type} {value : Value} {ty a b : Ty} {op : Op}

/-! ## Values of a type -/

/-- A type of quantities. -/
def Ty.isQuantity : Ty → Bool
  | number | size | duration | timestamp => true
  | _ => false

/-- A quantity has a type of quantities. -/
def Value.Valid : Value → Prop
  | quantity _ ty => ty.isQuantity = true
  | _ => True

/-- A value of a type, or null. -/
def Value.HasTy (value : Value) (ty : Ty) : Prop :=
  value = .null ∨ (value.ty = ty ∧ value.Valid)

/-- A field is of its type or missing. -/
theorem File.field_hasTy (file : File) (path : Bytes) (field : Field) :
    (file.field path field).HasTy field.ty := by
  have ofQuantity (amount : Option Int) {ty : Ty} (valid : ty.isQuantity = true) :
      (quantity amount ty).HasTy ty := by
    cases amount with
    | none => exact .inl rfl
    | some amount => exact .inr ⟨rfl, valid⟩
  cases there : file.exist with
  | false => cases field <;> simp [File.field, there, Value.HasTy, Value.ty, Field.ty, Value.Valid]
  | true =>
    cases field <;> simp only [File.field, there, Bool.not_true, Bool.false_eq_true, if_false]
    case kind =>
      cases file.kind with
      | none => exact .inl rfl
      | some kind => exact .inr ⟨rfl, trivial⟩
    case linkTarget =>
      cases file.linkTarget with
      | none => exact .inl rfl
      | some target => exact .inr ⟨rfl, trivial⟩
    case path | name | extension | exist => exact .inr ⟨rfl, trivial⟩
    all_goals exact ofQuantity _ rfl

/-- A failure for want of a value, or because a result is not a number. -/
def EvalError.Benign : EvalError → Prop
  | notBoolean value | cannotNegate value | cannotMatch value => value = .null
  | unavailable | overflow | overflowOrZero => True
  | needMetadata | notQuantities | illTyped _ => False

/-- The result is good or the failure is benign. -/
def Allowed {α : Type} (result : Except EvalError α) (good : α → Prop) : Prop :=
  match result with
  | .ok value => good value
  | .error error => error.Benign

theorem Allowed.bind {β : Type} {first : Except EvalError α} {next : α → Except EvalError β}
    {middle : α → Prop} {good : β → Prop} (allowed : Allowed first middle)
    (later : ∀ value, middle value → Allowed (next value) good) :
    Allowed (first >>= next) good := by
  cases first with
  | error error => exact allowed
  | ok value => exact later value allowed

theorem Allowed.mono {result : Except EvalError α} {good weaker : α → Prop}
    (allowed : Allowed result good) (weaken : ∀ value, good value → weaker value) :
    Allowed result weaker := by
  cases result with
  | ok value => exact weaken value allowed
  | error error => exact allowed

theorem Value.HasTy.bool (value : Bool) : (Value.bool value).HasTy .bool :=
  .inr ⟨rfl, trivial⟩

theorem Value.HasTy.boolean (typed : value.HasTy .bool) : Allowed value.boolean fun _ => True := by
  rcases typed with rfl | ⟨same, valid⟩
  · exact rfl
  · cases value with
    | bool value => trivial
    | string bytes => cases same
    | null => cases same
    | quantity amount ty =>
      cases same
      cases valid

theorem Value.HasTy.negate (typed : value.HasTy ty) (amount : ty.isAmount = true) :
    Allowed value.negate fun value => value.HasTy ty := by
  rcases typed with rfl | ⟨rfl, valid⟩
  · exact rfl
  · cases value with
    | quantity value ty =>
      rw [Value.negate]
      cases checkedI128 (-value) with
      | none => trivial
      | some negated => exact .inr ⟨rfl, valid⟩
    | bool value => cases amount
    | string bytes => cases amount
    | null => cases amount

theorem Value.HasTy.matchedBy (typed : value.HasTy .string) (isMatch : Bytes → Bool) :
    Allowed (value.matchedBy isMatch) fun value => value.HasTy .bool := by
  rcases typed with rfl | ⟨same, valid⟩
  · exact rfl
  · cases value with
    | string bytes => exact .bool _
    | quantity amount ty => cases same; cases valid
    | bool value => cases same
    | null => cases same

/-- A branch on an allowed boolean is allowed when both branches are. -/
theorem Allowed.branch {condition : Except EvalError Value} {yes no : Except EvalError α}
    {good : α → Prop} (allowed : Allowed condition fun value => value.HasTy .bool)
    (ofYes : Allowed yes good) (ofNo : Allowed no good) :
    Allowed (do
      let value ← condition
      let b ← value.boolean
      if b then yes else no) good := by
  apply allowed.bind
  intro value valueTyped
  apply valueTyped.boolean.bind
  intro b _
  cases b with
  | true => exact ofYes
  | false => exact ofNo

theorem Allowed.toBool {result : Except EvalError Value}
    (allowed : Allowed result fun value => value.HasTy .bool) :
    Allowed (do
      let value ← result
      let b ← value.boolean
      pure (Value.bool b)) fun value => value.HasTy .bool := by
  apply allowed.bind
  intro value valueTyped
  apply valueTyped.boolean.bind
  intro b _
  exact .bool b

/-- Null is of a type of which some other type is the common one. -/
theorem Value.HasTy.common (common : commonType a b = .ok ty)
    (typed : value.HasTy a ∨ value.HasTy b) : value.HasTy ty := by
  unfold commonType at common
  have null_of_null {value : Value} (typed : value.HasTy .null) : value = .null := by
    rcases typed with null | ⟨same, valid⟩
    · exact null
    · cases value with
      | null => rfl
      | quantity amount ty => cases same; cases valid
      | bool value => cases same
      | string bytes => cases same
  split_ifs at common with aNull bNull
  · cases common
    rcases typed with typed | typed
    · rw [aNull] at typed
      exact .inl (null_of_null typed)
    · exact typed
  · cases common
    rcases typed with typed | typed
    · exact typed
    · rcases bNull with bNull | same
      · rw [bNull] at typed
        exact .inl (null_of_null typed)
      · rw [same]
        exact typed

/-! ## Binary operators -/

/-- An operator of arithmetic. -/
def Op.isArithmetic : Op → Bool
  | add | sub | mul | div | rem | bitAnd | bitOr | bitXor => true
  | _ => false

/-- A comparison by order. -/
def Op.isOrder : Op → Bool
  | lt | le | gt | ge => true
  | _ => false

theorem binaryType_arithmetic (arithmetic : op.isArithmetic = true)
    (typed : binaryType op a b = .ok ty) :
    a.isQuantity = true ∧ b.isQuantity = true ∧ ty.isQuantity = true := by
  cases op <;> cases arithmetic <;> cases a <;> cases b <;>
    simp [binaryType, invalidArithmetic, Ty.isAmount] at typed <;> subst typed <;> decide

theorem binaryType_order (order : op.isOrder = true) (typed : binaryType op a b = .ok ty) :
    a = b ∧ a.isOrdered = true ∧ ty = .bool := by
  cases op <;> cases order <;>
    simp only [binaryType, require_eq_ok_iff, bind_eq_ok_iff, pure_eq_ok_iff] at typed <;>
    rcases typed with ⟨⟨⟩, ordered, rfl⟩ <;> simpa using ordered

theorem binaryType_bool (boolean : op = .and ∨ op = .or) (typed : binaryType op a b = .ok ty) :
    a = .bool ∧ b = .bool ∧ ty = .bool := by
  rcases boolean with rfl | rfl <;>
    simp only [binaryType, bind_eq_ok_iff, require_eq_ok_iff, pure_eq_ok_iff,
      Bool.and_eq_true, beq_iff_eq] at typed <;>
    rcases typed with ⟨⟨⟩, ⟨rfl, rfl⟩, rfl⟩ <;> exact ⟨rfl, rfl, rfl⟩

theorem Value.exists_quantity (quantities : value.ty.isQuantity = true) :
    ∃ amount, value = .quantity amount value.ty := by
  cases value with
  | quantity amount ty => exact ⟨amount, rfl⟩
  | bool value => cases quantities
  | string bytes => cases quantities
  | null => cases quantities

/-- Two values of one ordered type have an order. -/
theorem Value.exists_order {a b : Value} (same : a.ty = b.ty) (ordered : a.ty.isOrdered = true)
    (aValid : a.Valid) (bValid : b.Valid) : ∃ order, a.order b = some order := by
  cases a with
  | bool value => cases ordered
  | null => cases ordered
  | string first =>
    cases b with
    | string second => exact ⟨_, rfl⟩
    | quantity amount ty => cases same; cases bValid
    | bool value => cases same
    | null => cases same
  | quantity first ty =>
    cases b with
    | quantity second other => exact ⟨_, rfl⟩
    | string bytes => cases same; cases aValid
    | bool value => cases same; cases aValid
    | null => cases same; cases aValid

theorem combine_arithmetic {a b : Int} {aTy bTy : Ty} (arithmetic : op.isArithmetic = true) :
    (∃ amount, combine op (.quantity a aTy) (.quantity b bTy) ty = .ok (.quantity amount ty)) ∨
      combine op (.quantity a aTy) (.quantity b bTy) ty = .error .overflowOrZero := by
  have noOrder : ((Value.quantity a aTy).order (.quantity b bTy)).bind op.holds = none := by
    cases op <;> cases arithmetic <;> rfl
  rw [combine, noOrder]
  cases Selection.arithmetic op a b with
  | some amount => exact .inl ⟨amount, rfl⟩
  | none => exact .inr rfl

/-- A typed operator gives a value of its type. -/
theorem Value.HasTy.binary {left right : Value} (leftTyped : left.HasTy a)
    (rightTyped : right.HasTy b) (notAnd : op ≠ .and) (notOr : op ≠ .or)
    (typed : binaryType op a b = .ok ty) :
    Allowed (binary op left right) fun value => value.HasTy ty := by
  rw [Selection.binary]
  split_ifs with isEq isNe null
  · rw [isEq] at typed
    simp only [binaryType, bind_eq_ok_iff, pure_eq_ok_iff] at typed
    rcases typed with ⟨-, -, rfl⟩
    exact .bool _
  · rw [isNe] at typed
    simp only [binaryType, bind_eq_ok_iff, pure_eq_ok_iff] at typed
    rcases typed with ⟨-, -, rfl⟩
    exact .bool _
  · trivial
  -- Both values are there, so they are of the types the operator was typed with.
  · rw [not_or] at null
    rcases leftTyped.resolve_left null.1 with ⟨rfl, leftValid⟩
    rcases rightTyped.resolve_left null.2 with ⟨rfl, rightValid⟩
    rw [typed]
    dsimp only
    by_cases order : op.isOrder = true
    · rcases binaryType_order order typed with ⟨same, ordered, rfl⟩
      rcases Value.exists_order same ordered leftValid rightValid with ⟨found, orderEq⟩
      have compared : ∃ result, combine op left right .bool = .ok (.bool result) := by
        cases op <;> cases order <;> simp [combine, orderEq, Op.holds]
      rcases compared with ⟨result, resultEq⟩
      rw [resultEq]
      exact .bool result
    · have arithmetic : op.isArithmetic = true := by
        cases op <;> simp_all [Op.isOrder, Op.isArithmetic]
      rcases binaryType_arithmetic arithmetic typed with ⟨leftQuantity, rightQuantity, valid⟩
      rcases left.exists_quantity leftQuantity with ⟨first, leftEq⟩
      rcases right.exists_quantity rightQuantity with ⟨second, rightEq⟩
      rw [leftEq, rightEq]
      rcases combine_arithmetic arithmetic with ⟨amount, amountEq⟩ | fails
      · rw [amountEq]
        exact .inr ⟨rfl, valid⟩
      · rw [fails]
        trivial

/-! ## Parts of an expression -/

namespace Node

variable {sub node : Node}

theorem mem_subexpressionsOf {items : List Node} :
    sub ∈ subexpressionsOf items ↔ ∃ item ∈ items, sub ∈ item.subexpressions := by
  induction items with
  | nil => simp [subexpressionsOf]
  | cons item rest ih => simp [subexpressionsOf, ih]

/-- The expressions an expression is made of. -/
def parts : Node → List Node
  | literal _ | field _ _ | now => []
  | not operand | negative operand | pattern operand _ => [operand]
  | binary _ left right | coalesce left right => [left, right]
  | inList operand items => operand :: items
  | between operand low high => [operand, low, high]
  | ifElse condition left right => [condition, left, right]

theorem mem_subexpressions :
    sub ∈ node.subexpressions ↔
      sub = node ∨ ∃ part ∈ node.parts, sub ∈ part.subexpressions := by
  cases node <;> simp [subexpressions, parts, mem_subexpressionsOf]

theorem self_mem_subexpressions (node : Node) : node ∈ node.subexpressions :=
  mem_subexpressions.mpr (.inl rfl)

theorem part_subset {part : Node} (mem : part ∈ node.parts) :
    part.subexpressions ⊆ node.subexpressions := fun _ sub =>
  mem_subexpressions.mpr (.inr ⟨part, mem, sub⟩)

/-- What holds of an expression whenever it holds of its parts holds of every expression. -/
theorem induction_parts {motive : Node → Prop}
    (step : ∀ node, (∀ part ∈ node.parts, motive part) → motive node) (node : Node) :
    motive node := by
  induction node using Node.induction <;> apply step <;> simp_all [parts]

/-- The parts of a part are parts. -/
theorem subexpressions_subset (mem : sub ∈ node.subexpressions) :
    sub.subexpressions ⊆ node.subexpressions := by
  induction node using Node.induction_parts with
  | step node ofParts =>
    rcases mem_subexpressions.mp mem with rfl | ⟨part, isPart, mem⟩
    · exact List.Subset.refl _
    · exact List.Subset.trans (ofParts part isPart mem) (part_subset isPart)

/-! ## Typed expressions -/

/-- Every expression within has a type. -/
def AllTyped (node : Node) : Prop :=
  ∀ sub ∈ node.subexpressions, ∃ ty, sub.ty = .ok ty

/-- Every literal within is a value. -/
def AllValid (node : Node) : Prop :=
  ∀ value, literal value ∈ node.subexpressions → value.Valid

/-- The operand of every `in` with an empty list has a type. -/
def EmptyTyped (node : Node) : Prop :=
  ∀ operand, inList operand [] ∈ node.subexpressions → ∃ ty, operand.ty = .ok ty

theorem itemTypes_eq_ok {operand : Except String Ty} {items : List Node} {result : Unit}
    (typed : itemTypes operand items = .ok result) :
    (items ≠ [] → ∃ a, operand = .ok a) ∧ ∀ item ∈ items, ∃ b, item.ty = .ok b := by
  induction items with
  | nil => simp
  | cons item rest ih =>
    simp only [itemTypes, bind_eq_ok_iff] at typed
    rcases typed with ⟨a, operandTyped, b, itemTyped, -, -, later⟩
    refine ⟨fun _ => ⟨a, operandTyped⟩, ?_⟩
    rw [List.forall_mem_cons]
    exact ⟨⟨b, itemTyped⟩, (ih later).2⟩

/-- The parts of a typed expression have types, but for the operand of an empty list. -/
theorem parts_typed (typed : node.ty = .ok ty) (emptyTyped : node.EmptyTyped) :
    ∀ part ∈ node.parts, ∃ ty, part.ty = .ok ty := by
  cases node with
  | inList operand items =>
    simp only [Node.ty, bind_eq_ok_iff] at typed
    rcases typed with ⟨⟨⟩, itemsTyped, -⟩
    rcases itemTypes_eq_ok itemsTyped with ⟨operandTyped, eachTyped⟩
    rw [parts, List.forall_mem_cons]
    refine ⟨?_, eachTyped⟩
    by_cases empty : items = []
    · rw [empty] at emptyTyped
      exact emptyTyped operand (self_mem_subexpressions _)
    · exact operandTyped empty
  | literal value | field dest which | now => simp [parts]
  | not operand | negative operand | pattern operand regex | binary op left right
  | coalesce left right | between operand low high | ifElse condition left right =>
    simp only [Node.ty, bind_eq_ok_iff] at typed
    simp only [parts]
    grind

theorem AllTyped.of_mem (typed : node.AllTyped) (mem : sub ∈ node.subexpressions) :
    sub.AllTyped := fun part inside =>
  typed part (subexpressions_subset mem inside)

theorem AllValid.of_mem (valid : node.AllValid) (mem : sub ∈ node.subexpressions) :
    sub.AllValid := fun value inside =>
  valid value (subexpressions_subset mem inside)

/-- A typed expression has types throughout when the operands of its empty lists do. -/
theorem allTyped_of_emptyTyped (typed : node.ty = .ok ty) (emptyTyped : node.EmptyTyped) :
    node.AllTyped := by
  induction node using Node.induction_parts generalizing ty with
  | step node ofParts =>
    intro sub mem
    rcases mem_subexpressions.mp mem with rfl | ⟨part, isPart, mem⟩
    · exact ⟨ty, typed⟩
    · rcases parts_typed typed emptyTyped part isPart with ⟨partTy, partTyped⟩
      have within := part_subset isPart (self_mem_subexpressions part)
      exact ofParts part isPart partTyped (fun operand inside =>
        emptyTyped operand (subexpressions_subset within inside)) sub mem

/-! ## Soundness -/

section Eval

variable {isMatch : Bytes → Bytes → Bool} {lookup : Bool → Field → Except EvalError Value}
  {time : Int}

/-- Comparing a value with items whose evaluation is allowed is allowed. -/
theorem evalItems_allowed {items : List Node}
    (each : ∀ item ∈ items, ∃ ty : Ty, Allowed (item.eval isMatch lookup time) fun value =>
      value.HasTy ty) : Allowed (evalItems isMatch lookup time value items) fun _ => True := by
  induction items with
  | nil => trivial
  | cons item rest ih =>
    rw [List.forall_mem_cons] at each
    rcases each with ⟨⟨ty, first⟩, later⟩
    apply first.bind
    intro other _
    change Allowed (if (value == other) = true then pure true else _) _
    split
    · trivial
    · exact ih later

/-- An operator evaluates allowed when its operands do. -/
theorem binary_allowed {left right : Node}
    (ofLeft : Allowed (left.eval isMatch lookup time) fun value => value.HasTy a)
    (ofRight : Allowed (right.eval isMatch lookup time) fun value => value.HasTy b)
    (typed : binaryType op a b = .ok ty) :
    Allowed ((binary op left right).eval isMatch lookup time) fun value => value.HasTy ty := by
  by_cases isAnd : op = .and
  · subst isAnd
    rcases binaryType_bool (.inl rfl) typed with ⟨rfl, rfl, rfl⟩
    exact ofLeft.branch ofRight.toBool (.bool _)
  by_cases isOr : op = .or
  · subst isOr
    rcases binaryType_bool (.inr rfl) typed with ⟨rfl, rfl, rfl⟩
    rw [eval]
    exact ofLeft.branch (.bool _) ofRight.toBool
  rw [eval]
  · apply ofLeft.bind
    intro first firstTyped
    apply ofRight.bind
    intro second secondTyped
    exact firstTyped.binary secondTyped isAnd isOr typed
  · exact isAnd
  · exact isOr

theorem between_allowed {operand low high : Node} {c : Ty} {first second : Ty}
    (ofOperand : Allowed (operand.eval isMatch lookup time) fun value => value.HasTy a)
    (ofLow : Allowed (low.eval isMatch lookup time) fun value => value.HasTy b)
    (ofHigh : Allowed (high.eval isMatch lookup time) fun value => value.HasTy c)
    (lowTyped : binaryType .ge a b = .ok first) (highTyped : binaryType .le a c = .ok second) :
    Allowed ((between operand low high).eval isMatch lookup time) fun value =>
      value.HasTy .bool := by
  obtain rfl : first = .bool := (binaryType_order rfl lowTyped).2.2
  obtain rfl : second = .bool := (binaryType_order rfl highTyped).2.2
  apply ofOperand.bind
  intro value valueTyped
  apply ofLow.bind
  intro lowest lowestTyped
  apply (valueTyped.binary lowestTyped (by decide) (by decide) lowTyped).branch
  · apply ofHigh.bind
    intro highest highestTyped
    exact (valueTyped.binary highestTyped (by decide) (by decide) highTyped).toBool
  · exact .bool _

/-- An expression with types throughout evaluates to a value of its type or null, or
fails for want of a value or by overflow. -/
theorem eval_allowed (known : ∀ dest which, Allowed (lookup dest which) fun value =>
      value.HasTy which.ty) (typed : node.AllTyped) (valid : node.AllValid)
    (nodeTy : node.ty = .ok ty) :
    Allowed (node.eval isMatch lookup time) fun value => value.HasTy ty := by
  induction node using Node.induction_parts generalizing ty with
  | step node ofParts =>
    have ofPart : node.parts.Forall fun part => (∃ ty, part.ty = .ok ty) ∧
        ∀ {ty}, part.ty = .ok ty →
          Allowed (part.eval isMatch lookup time) fun value => value.HasTy ty := by
      refine List.forall_iff_forall_mem.mpr fun part isPart => ?_
      have within := part_subset isPart (self_mem_subexpressions part)
      exact ⟨typed part within, ofParts part isPart (typed.of_mem within) (valid.of_mem within)⟩
    cases node with
    | literal value =>
      cases nodeTy
      exact .inr ⟨rfl, valid value (self_mem_subexpressions _)⟩
    | field dest which =>
      cases nodeTy
      exact known dest which
    | now =>
      cases nodeTy
      exact .inr ⟨rfl, rfl⟩
    | not operand =>
      simp only [Node.ty, bind_eq_ok_iff, require_eq_ok_iff, pure_eq_ok_iff, beq_iff_eq] at nodeTy
      rcases nodeTy with ⟨_, operandTy, ⟨⟩, rfl, rfl⟩
      apply (ofPart.2 operandTy).bind
      intro value valueTyped
      apply valueTyped.boolean.bind
      intro b _
      exact .bool _
    | negative operand =>
      simp only [Node.ty, bind_eq_ok_iff, require_eq_ok_iff, pure_eq_ok_iff] at nodeTy
      rcases nodeTy with ⟨_, operandTy, ⟨⟩, amount, rfl⟩
      apply (ofPart.2 operandTy).bind
      intro value valueTyped
      exact valueTyped.negate amount
    | binary op left right =>
      simp only [Node.ty, bind_eq_ok_iff] at nodeTy
      rcases nodeTy with ⟨a, leftTy, b, rightTy, opTy⟩
      rcases ofPart with ⟨⟨-, ofLeft⟩, -, ofRight⟩
      exact binary_allowed (ofLeft leftTy) (ofRight rightTy) opTy
    | inList operand items =>
      simp only [Node.ty, bind_eq_ok_iff, pure_eq_ok_iff] at nodeTy
      rcases nodeTy with ⟨⟨⟩, -, rfl⟩
      rcases (List.forall_cons ..).mp ofPart with ⟨⟨⟨_, operandTyped⟩, ofOperand⟩, ofItems⟩
      apply (ofOperand operandTyped).bind
      intro value _
      have each : ∀ item ∈ items, ∃ ty : Ty, Allowed (item.eval isMatch lookup time)
          fun value => value.HasTy ty := by
        intro item mem
        rcases List.forall_iff_forall_mem.mp ofItems item mem with ⟨⟨itemTy, itemTyped⟩, ofItem⟩
        exact ⟨itemTy, ofItem itemTyped⟩
      apply (evalItems_allowed each).bind
      intro found _
      exact .bool found
    | between operand low high =>
      simp only [Node.ty, bind_eq_ok_iff, pure_eq_ok_iff] at nodeTy
      rcases nodeTy with
        ⟨a, operandTy, b, lowTy, _, lowTyped, c, highTy, _, highTyped, rfl⟩
      rcases ofPart with ⟨⟨-, ofOperand⟩, ⟨-, ofLow⟩, -, ofHigh⟩
      exact between_allowed (ofOperand operandTy) (ofLow lowTy) (ofHigh highTy) lowTyped highTyped
    | pattern operand regex =>
      simp only [Node.ty, bind_eq_ok_iff, require_eq_ok_iff, pure_eq_ok_iff, beq_iff_eq] at nodeTy
      rcases nodeTy with ⟨_, operandTy, ⟨⟩, rfl, rfl⟩
      apply (ofPart.2 operandTy).bind
      intro value valueTyped
      exact valueTyped.matchedBy _
    | ifElse condition left right =>
      simp only [Node.ty, bind_eq_ok_iff, require_eq_ok_iff, beq_iff_eq] at nodeTy
      rcases nodeTy with ⟨_, conditionTy, ⟨⟩, rfl, a, leftTy, b, rightTy, common⟩
      rcases ofPart with ⟨⟨-, ofCondition⟩, ⟨-, ofLeft⟩, -, ofRight⟩
      apply (ofCondition conditionTy).branch
      · exact (ofLeft leftTy).mono fun value valueTyped => .common common (.inl valueTyped)
      · exact (ofRight rightTy).mono fun value valueTyped => .common common (.inr valueTyped)
    | coalesce left right =>
      simp only [Node.ty, bind_eq_ok_iff] at nodeTy
      rcases nodeTy with ⟨a, leftTy, b, rightTy, common⟩
      rcases ofPart with ⟨⟨-, ofLeft⟩, -, ofRight⟩
      apply (ofLeft leftTy).bind
      intro value valueTyped
      split
      · exact (ofRight rightTy).mono fun value valueTyped => .common common (.inr valueTyped)
      · exact .common common (.inl valueTyped)

end Eval

end Node

end Syq.Selection
