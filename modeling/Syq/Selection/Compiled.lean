import Syq.Selection.Parser
import Syq.Selection.Soundness

/-!
# Compiled expressions

The parser builds only literals that are values and, for a selection, only fields of the
source.  A compiled expression is sound when the operands of its empty lists have types,
which the compiler does not ask.
-/

namespace Syq.Selection

open Syq.Lib Node

namespace Node

/-- What the parser makes sure of at one expression. -/
def FineHere (destination : Bool) : Node → Prop
  | literal value => value.Valid
  | field onDestination _ => onDestination = true → destination = true
  | _ => True

/-- What the parser makes sure of throughout an expression. -/
def Fine (destination : Bool) (node : Node) : Prop :=
  ∀ sub ∈ node.subexpressions, sub.FineHere destination

theorem Fine.of_parts {destination : Bool} {node : Node} (here : node.FineHere destination)
    (ofParts : node.parts.Forall (Fine destination)) : node.Fine destination := by
  intro sub mem
  rcases mem_subexpressions.mp mem with rfl | ⟨part, isPart, mem⟩
  · exact here
  · exact List.forall_iff_forall_mem.mp ofParts part isPart sub mem

theorem Fine.allValid {dest : Bool} {node : Node} (fine : node.Fine dest) :
    node.AllValid := fun value mem => fine (literal value) mem

end Node

/-! ## Numbers -/

theorem decimal_valid {text : List Char} {value : Value} (reads : decimal text = .ok value) :
    value.Valid := by
  unfold decimal at reads
  dsimp only at reads
  split at reads
  · cases reads
  · rename_i found
    simp only [bind_eq_ok_iff, pure_eq_ok_iff] at reads
    rcases reads with ⟨_, _, amount, _, _, _, rfl⟩
    unfold unit at found
    split at found <;> first
      | (cases found; rfl)
      | cases found

theorem number_valid {text : List Char} {value : Value} (reads : number text = .ok value) :
    value.Valid := by
  unfold number at reads
  split at reads
  · split at reads
    · cases reads
      rfl
    · cases reads
  · split at reads
    · cases reads
      rfl
    · cases reads
  · exact decimal_valid reads

/-! ## What the parser builds -/

namespace Parser

/-- Everything a parser reads meets a condition. -/
def Yields {α : Type} (parser : Parse α) (good : α → Prop) : Prop :=
  ∀ tokens result rest, parser tokens = .ok (result, rest) → good result

variable {engine : Engine} {destination : Bool} {sub : Nat → Parse Node} {left : Node}

theorem failing_eq_ok_iff {α : Type} {tokens : Tokens} {result : Except String α} {value : α} :
    failing tokens result = .ok value ↔ result = .ok value :=
  mapError_eq_ok_iff

theorem pattern_yields {isGlob : Bool} (ofLeft : left.Fine destination) :
    Yields (pattern engine left isGlob) (Node.Fine destination) := by
  intro tokens node rest reads
  unfold pattern at reads
  split at reads
  · simp only [bind_eq_ok_iff, pure_eq_ok_iff] at reads
    rcases reads with ⟨regex, _, rfl, _⟩
    exact .of_parts trivial ofLeft
  · cases reads

theorem fieldOf_fine {word : String} {node : Node} (reads : fieldOf destination word = .ok node) :
    node.Fine destination := by
  unfold fieldOf at reads
  dsimp only at reads
  split_ifs at reads with word side other
  split at reads
  · cases reads
    refine .of_parts (fun onDest => ?_) trivial
    simpa [beq_iff_eq.mp onDest] using other
  · cases reads

theorem timestamp_yields : Yields (timestamp engine) (Node.Fine destination) := by
  intro tokens node rest reads
  simp only [timestamp, bind_eq_ok_iff] at reads
  rcases reads with ⟨opened, _, reads⟩
  split at reads
  · simp only [bind_eq_ok_iff, pure_eq_ok_iff, failing_eq_ok_iff, timestampOf] at reads
    rcases reads with ⟨_, _, _, ⟨_, _, time, _, rfl⟩, rfl, _⟩
    exact .of_parts rfl trivial
  · cases reads

section Step

variable (ofSub : ∀ min, Yields (sub min) (Node.Fine destination))
include ofSub

theorem arguments_yields (three : Bool) :
    Yields (arguments sub three) (Node.Fine destination) := by
  intro tokens node rest reads
  simp only [arguments, bind_eq_ok_iff, Prod.exists] at reads
  rcases reads with ⟨_, _, a, _, readsA, _, _, b, _, readsB, reads⟩
  cases three with
  | true =>
    simp only [if_true, bind_eq_ok_iff, Prod.exists, pure_eq_ok_iff] at reads
    rcases reads with ⟨_, _, c, _, readsC, _, _, rfl, _⟩
    exact .of_parts trivial
      ⟨ofSub _ _ _ _ readsA, ofSub _ _ _ _ readsB, ofSub _ _ _ _ readsC⟩
  | false =>
    simp only [Bool.false_eq_true, if_false, bind_eq_ok_iff, pure_eq_ok_iff] at reads
    rcases reads with ⟨_, _, rfl, _⟩
    exact .of_parts trivial ⟨ofSub _ _ _ _ readsA, ofSub _ _ _ _ readsB⟩

theorem prefixed_yields : Yields (prefixed engine destination sub) (Node.Fine destination) := by
  intro tokens node rest reads
  unfold prefixed at reads
  split at reads
  · cases reads
    exact .of_parts trivial trivial
  · simp only [bind_eq_ok_iff, pure_eq_ok_iff, failing_eq_ok_iff] at reads
    rcases reads with ⟨value, readsValue, rfl, _⟩
    exact .of_parts (number_valid readsValue) trivial
  · simp only [bind_eq_ok_iff, pure_eq_ok_iff, Prod.exists] at reads
    rcases reads with ⟨inner, _, readsInner, _, _, rfl, _⟩
    exact ofSub _ _ _ _ readsInner
  · simp only [bind_eq_ok_iff, pure_eq_ok_iff, Prod.exists] at reads
    rcases reads with ⟨inner, _, readsInner, rfl, _⟩
    exact .of_parts trivial (ofSub _ _ _ _ readsInner)
  · simp only [bind_eq_ok_iff, pure_eq_ok_iff, Prod.exists] at reads
    rcases reads with ⟨inner, _, readsInner, rfl, _⟩
    exact .of_parts trivial (ofSub _ _ _ _ readsInner)
  · cases reads
    exact .of_parts trivial trivial
  · cases reads
    exact .of_parts trivial trivial
  · cases reads
    exact .of_parts trivial trivial
  · cases reads
    exact .of_parts trivial trivial
  · exact timestamp_yields _ _ _ reads
  · exact arguments_yields ofSub true _ _ _ reads
  · exact arguments_yields ofSub false _ _ _ reads
  · simp only [bind_eq_ok_iff, pure_eq_ok_iff, failing_eq_ok_iff] at reads
    rcases reads with ⟨inner, readsField, rfl, _⟩
    exact fieldOf_fine readsField
  · cases reads

theorem items_yields (close : String) (fuel : Nat) :
    Yields (items sub close fuel) fun nodes => ∀ node ∈ nodes, node.Fine destination := by
  induction fuel with
  | zero =>
    intro tokens nodes rest reads
    cases reads
  | succ fuel ih =>
    intro tokens nodes rest reads
    simp only [items, bind_eq_ok_iff, Prod.exists] at reads
    rcases reads with ⟨item, after, readsItem, reads⟩
    split at reads
    · cases reads
      simpa using ofSub _ _ _ _ readsItem
    · simp only [bind_eq_ok_iff, pure_eq_ok_iff, Prod.exists] at reads
      rcases reads with ⟨_, _, later, _, readsLater, rfl, _⟩
      rw [List.forall_mem_cons]
      exact ⟨ofSub _ _ _ _ readsItem, ih _ _ _ readsLater⟩

section

variable (ofLeft : left.Fine destination)

include ofLeft

theorem membership_yields : Yields (membership sub left) (Node.Fine destination) := by
  intro tokens node rest reads
  simp only [membership, bind_eq_ok_iff, Prod.exists] at reads
  rcases reads with ⟨close, opened, _, reads⟩
  split at reads
  · cases reads
    exact .of_parts trivial ofLeft
  · simp only [bind_eq_ok_iff, pure_eq_ok_iff, Prod.exists] at reads
    rcases reads with ⟨nodes, _, readsItems, rfl, _⟩
    refine .of_parts trivial (List.forall_iff_forall_mem.mpr ?_)
    rw [parts, List.forall_mem_cons]
    exact ⟨ofLeft, items_yields ofSub _ _ _ _ _ readsItems⟩

theorem range_yields : Yields (range sub left) (Node.Fine destination) := by
  intro tokens node rest reads
  simp only [range, bind_eq_ok_iff, pure_eq_ok_iff, Prod.exists] at reads
  rcases reads with ⟨low, _, readsLow, _, _, high, _, readsHigh, rfl, _⟩
  exact .of_parts trivial ⟨ofLeft, ofSub _ _ _ _ readsLow, ofSub _ _ _ _ readsHigh⟩

omit ofSub in
theorem nullTest_yields : Yields (nullTest left) (Node.Fine destination) := by
  intro tokens node rest reads
  simp only [nullTest, bind_eq_ok_iff, pure_eq_ok_iff] at reads
  rcases reads with ⟨_, _, rfl, _⟩
  have null : (Node.literal .null).Fine destination := .of_parts trivial trivial
  exact .of_parts trivial ⟨ofLeft, null⟩

theorem form_yields (negate : Bool) (special : Token) :
    Yields (form engine sub left negate special) (Node.Fine destination) := by
  intro tokens node rest reads
  unfold form at reads
  split at reads
  · exact membership_yields ofSub ofLeft _ _ _ reads
  · exact range_yields ofSub ofLeft _ _ _ reads
  · exact pattern_yields ofLeft _ _ _ reads
  · exact pattern_yields ofLeft _ _ _ reads
  · split_ifs at reads
    · exact nullTest_yields ofLeft _ _ _ reads
    · exact pattern_yields ofLeft _ _ _ reads

theorem postfixed_yields (token : Token) :
    Yields (postfixed engine sub left token) (Node.Fine destination) := by
  intro tokens node rest reads
  unfold postfixed at reads
  split_ifs at reads
  · simp only [bind_eq_ok_iff, pure_eq_ok_iff, Prod.exists] at reads
    rcases reads with ⟨inner, _, readsInner, rfl, _⟩
    exact .of_parts trivial (form_yields ofSub ofLeft _ _ _ _ _ readsInner)
  · exact form_yields ofSub ofLeft _ _ _ _ _ reads

end

theorem operators_yields (min fuel : Nat) (ofLeft : left.Fine destination) :
    Yields (operators engine sub min fuel left) (Node.Fine destination) := by
  induction fuel generalizing left with
  | zero =>
    intro tokens node rest reads
    cases reads
    exact ofLeft
  | succ fuel ih =>
    intro tokens node rest reads
    simp only [operators] at reads
    split_ifs at reads
    · cases reads
      exact ofLeft
    · split at reads
      · simp only [bind_eq_ok_iff, Prod.exists] at reads
        rcases reads with ⟨right, after, readsRight, reads⟩
        refine ih ?_ _ _ _ reads
        exact .of_parts trivial ⟨ofLeft, ofSub _ _ _ _ readsRight⟩
      · simp only [bind_eq_ok_iff, Prod.exists] at reads
        rcases reads with ⟨next, after, readsNext, reads⟩
        exact ih (postfixed_yields ofSub ofLeft _ _ _ _ readsNext) _ _ _ reads

end Step

/-- The parser builds fine expressions. -/
theorem expression_yields (levels min : Nat) :
    Yields (expression engine destination levels min) (Node.Fine destination) := by
  induction levels generalizing min with
  | zero =>
    intro tokens node rest reads
    cases reads
  | succ levels ih =>
    intro tokens node rest reads
    simp only [expression, bind_eq_ok_iff, Prod.exists] at reads
    rcases reads with ⟨left, after, readsLeft, reads⟩
    exact operators_yields ih _ _
      (prefixed_yields ih _ _ _ readsLeft) _ _ _ reads

end Parser

/-! ## Soundness of compiled expressions -/

section Compile

variable {engine : Engine} {text : List Char} {destination : Bool}

theorem parse_fine {node : Node} (parses : parse engine text destination = .ok node) :
    node.Fine destination := by
  simp only [parse, bind_eq_ok_iff, mapError_eq_ok_iff, Prod.exists, pure_eq_ok_iff] at parses
  rcases parses with ⟨_, _, tokens, _, _, rest, reads, _, _, rfl⟩
  exact Parser.expression_yields _ _ _ _ _ reads

/-- A compiled expression is a fine boolean. -/
theorem compile_eq_ok {expr : Expression}
    (compiles : Expression.compile engine text destination = .ok expr) :
    expr.root.ty = .ok .bool ∧ expr.root.Fine destination := by
  simp only [Expression.compile, bind_eq_ok_iff, pure_eq_ok_iff,
    require_eq_ok_iff, beq_iff_eq] at compiles
  rcases compiles with ⟨root, parses, ty, typed, _, rfl, rfl⟩
  exact ⟨typed, parse_fine parses⟩

end Compile

/-- Each part of the expression has a type and, whatever the files are, evaluates to a
value of it or to null, or fails for want of a value or by overflow. -/
def Expression.Sound (isMatch : Bytes → Bytes → Bool) (expression : Expression) : Prop :=
  ∀ sub ∈ expression.root.subexpressions, ∃ ty, sub.ty = .ok ty ∧
    ∀ (src dst : File) (srcPath dstPath : Bytes) (now : Int),
      let context : ContextValues := ⟨.complete src, .complete dst, srcPath, dstPath, now⟩
      Allowed (sub.eval isMatch context.field now) fun value => value.HasTy ty

/-- A compiled expression is sound exactly when the operand of each of its empty lists has
a type. -/
theorem compiled_sound_iff (engine : Engine) (isMatch : Bytes → Bytes → Bool)
    (text : List Char) (destination : Bool) (expression : Expression)
    (compiles : Expression.compile engine text destination = .ok expression) :
    expression.Sound isMatch ↔ expression.root.EmptyTyped := by
  rcases compile_eq_ok compiles with ⟨typed, fine⟩
  constructor
  · intro sound operand mem
    have part : operand ∈ expression.root.subexpressions :=
      subexpressions_subset mem
        (part_subset (by simp [parts]) (self_mem_subexpressions operand))
    rcases sound operand part with ⟨ty, operandTyped, -⟩
    exact ⟨ty, operandTyped⟩
  · intro emptyTyped sub mem
    have allTyped := allTyped_of_emptyTyped typed emptyTyped
    rcases allTyped sub mem with ⟨ty, subTyped⟩
    refine ⟨ty, subTyped, fun src dst srcPath dstPath now => ?_⟩
    refine eval_allowed (fun dest which => ?_) (allTyped.of_mem mem) (fine.allValid.of_mem mem)
      subTyped
    -- A complete context knows every field.
    cases dest with
    | true => exact dst.field_hasTy dstPath which
    | false => exact src.field_hasTy srcPath which

/-- Libraries that take every pattern and no time. -/
def Engine.plain : Engine where
  fromUtf8 := fun _ => .ok ()
  glob := .ok
  buildRegex := fun _ => .ok ()
  parseTimestamp := fun _ => .error "invalid"

theorem compiled_sound_for_empty_list :
    ∃ expression, Expression.compile .plain "src.name in []".toList false = .ok expression ∧
      expression.Sound fun _ _ => true := by
  refine ⟨⟨.inList (.field false .name) []⟩, rfl, ?_⟩
  apply (compiled_sound_iff .plain (fun _ _ => true) "src.name in []".toList false _ rfl).mpr
  intro operand mem
  simp only [subexpressions, subexpressionsOf, List.append_nil, List.mem_cons,
    inList.injEq, and_true, reduceCtorEq, List.not_mem_nil, or_false] at mem
  exact ⟨.string, by rw [mem]; rfl⟩

/-- The operand of an empty list is not typed, and its type error is met at run time. -/
theorem empty_list_hides_type_error :
    ∃ expression, Expression.compile .plain "1 + 'x' in []".toList false = .ok expression ∧
      expression.evaluate (fun _ _ => true) {} [] {} [] 0 =
        .error (.illTyped "invalid arithmetic between Number and String") :=
  ⟨⟨.inList (.binary .add (.literal (.quantity 1 .number)) (.literal (.string [120]))) []⟩,
    rfl, rfl⟩

end Syq.Selection
