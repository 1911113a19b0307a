import Syq.Selection.Compiled

/-!
# Deciding from partial facts

An evaluation that does not ask for more metadata gives what every evaluation with more
metadata gives.  An evaluation that does ask stops at a field the facts do not have, and
every fuller evaluation reads that field.
-/

namespace Syq.Selection

open Syq.Lib Policy

/-! ## Lazy evaluations -/

/-- What is known of each field. -/
abbrev Lookup := Bool → Field → Except EvalError Value

/-- A fuller lookup agrees with every field that is known. -/
def Refines (known full : Lookup) : Prop :=
  ∀ destination which, known destination which = .error .needMetadata ∨
    known destination which = full destination which

/-- A lookup without one field. -/
def withheld (full : Lookup) (destination : Bool) (which : Field) : Lookup :=
  fun side other =>
    if side = destination ∧ other = which then .error .needMetadata else full side other

theorem Refines.withheld {known full : Lookup} (refines : Refines known full)
    {dest : Bool} {which : Field}
    (unknown : known dest which = .error .needMetadata) :
    Refines known (withheld full dest which) := by
  intro side other
  by_cases same : side = dest ∧ other = which
  · rw [same.1, same.2]
    exact .inl unknown
  · rw [Selection.withheld, if_neg same]
    exact refines side other

/-- An evaluation that keeps its result under fuller lookups, and that asks for metadata
only at one of some fields, which it reads under every fuller lookup too. -/
structure Lazy {α : Type} (fields : Bool → Field → Prop)
    (evaluation : Lookup → Except EvalError α) : Prop where
  settles : ∀ known full, Refines known full →
    evaluation known = .error .needMetadata ∨ evaluation known = evaluation full
  stops : ∀ known, evaluation known = .error .needMetadata →
    ∃ destination which, fields destination which ∧
      known destination which = .error .needMetadata ∧
      ∀ full, Refines known full →
        evaluation (withheld full destination which) = .error .needMetadata

namespace Lazy

variable {α β : Type} {fields : Bool → Field → Prop}

theorem const {result : Except EvalError α} (answered : result ≠ .error .needMetadata) :
    Lazy fields fun _ => result where
  settles _ _ _ := .inr rfl
  stops _ asks := absurd asks answered

theorem answer (value : α) : Lazy fields fun _ => .ok value :=
  .const (by simp)

theorem lookup {dest : Bool} {which : Field} (mem : fields dest which) :
    Lazy fields fun known => known dest which where
  settles _ _ refines := refines dest which
  stops known asks := ⟨dest, which, mem, asks, fun full _ => by simp [withheld]⟩

/-- Going on from a lazy evaluation lazily is lazy. -/
theorem bind {first : Lookup → Except EvalError α} {next : α → Lookup → Except EvalError β}
    (ofFirst : Lazy fields first) (ofNext : ∀ value, Lazy fields (next value)) :
    Lazy fields fun known => first known >>= fun value => next value known where
  settles known full refines := by
    rcases ofFirst.settles known full refines with asks | same
    · rw [asks]
      exact .inl rfl
    · rw [same]
      cases first full with
      | error error => exact .inr rfl
      | ok value => exact (ofNext value).settles known full refines
  stops known asks := by
    cases found : first known with
    | error error =>
      rw [found] at asks
      cases asks
      rcases ofFirst.stops known found with ⟨dest, which, mem, unknown, later⟩
      refine ⟨dest, which, mem, unknown, fun full refines => ?_⟩
      rw [later full refines]
      rfl
    | ok value =>
      rw [found] at asks
      rcases (ofNext value).stops known asks with ⟨dest, which, mem, unknown, later⟩
      refine ⟨dest, which, mem, unknown, fun full refines => ?_⟩
      -- The field is not known yet, so withholding it refines what is known.
      have same : first known = first (withheld full dest which) := by
        rcases ofFirst.settles known _ (refines.withheld unknown) with asks | same
        · rw [found] at asks
          cases asks
        · exact same
      rw [← same, found]
      exact later full refines

theorem ite {condition : Prop} [Decidable condition] {yes no : Lookup → Except EvalError α}
    (ofYes : Lazy fields yes) (ofNo : Lazy fields no) :
    Lazy fields fun known => if condition then yes known else no known := by
  by_cases holds : condition
  · simpa [holds] using ofYes
  · simpa [holds] using ofNo

theorem mono {evaluation : Lookup → Except EvalError α} {more : Bool → Field → Prop}
    (ofEvaluation : Lazy fields evaluation)
    (sub : ∀ dest which, fields dest which → more dest which) :
    Lazy more evaluation where
  settles := ofEvaluation.settles
  stops known asks := by
    rcases ofEvaluation.stops known asks with ⟨dest, which, mem, rest⟩
    exact ⟨dest, which, sub dest which mem, rest⟩

end Lazy

/-! ## Expressions are lazy -/

section Answered

theorem boolean_answered (value : Value) : value.boolean ≠ .error .needMetadata := by
  cases value <;> simp [Value.boolean]

theorem negate_answered (value : Value) : value.negate ≠ .error .needMetadata := by
  cases value with
  | quantity amount ty =>
    rw [Value.negate]
    cases checkedI128 (-amount) <;> simp
  | bool value => simp [Value.negate]
  | string bytes => simp [Value.negate]
  | null => simp [Value.negate]

theorem binary_answered (op : Op) (a b : Value) : binary op a b ≠ .error .needMetadata := by
  unfold binary combine
  split_ifs
  · simp
  · simp
  · simp
  · cases binaryType op a.ty b.ty with
    | error msg => simp
    | ok ty =>
      dsimp only
      split
      · simp
      · split
        · split <;> simp
        · simp

end Answered

namespace Node

variable (isMatch : Bytes → Bytes → Bool) (time : Int)

variable {fields : Bool → Field → Prop}

/-- Reading a boolean from a lazy evaluation is lazy. -/
theorem lazy_boolean {evaluation : Lookup → Except EvalError Value}
    (ofEvaluation : Lazy fields evaluation) {α : Type} {next : Bool → Lookup → Except EvalError α}
    (ofNext : ∀ b, Lazy fields (next b)) :
    Lazy fields fun known => evaluation known >>= fun value =>
      value.boolean >>= fun b => next b known :=
  ofEvaluation.bind fun value => (Lazy.const (boolean_answered value)).bind ofNext

theorem lazy_toBool {evaluation : Lookup → Except EvalError Value}
    (ofEvaluation : Lazy fields evaluation) :
    Lazy fields fun known => evaluation known >>= fun value =>
      value.boolean >>= fun b => pure (Value.bool b) :=
  lazy_boolean ofEvaluation fun _ => .answer _

theorem lazy_evalItems {items : List Node} (value : Value)
    (ofItems : ∀ item ∈ items, Lazy fields fun known => item.eval isMatch known time) :
    Lazy fields fun known => evalItems isMatch known time value items := by
  induction items with
  | nil => exact .answer false
  | cons item rest ih =>
    rw [List.forall_mem_cons] at ofItems
    apply ofItems.1.bind
    intro other
    apply lazy_boolean (.const (binary_answered .eq value other))
    intro same
    exact .ite (.answer true) (ih ofItems.2)

/-- Evaluating an expression is lazy in the fields it names. -/
theorem lazy_eval (node : Node) :
    Lazy (fun dest which => field dest which ∈ node.subexpressions)
      fun known => node.eval isMatch known time := by
  induction node using Node.induction_parts with
  | step node ofParts =>
    have ofPart : node.parts.Forall fun part =>
        Lazy (fun dest which => field dest which ∈ node.subexpressions)
          fun known => part.eval isMatch known time :=
      List.forall_iff_forall_mem.mpr fun part isPart =>
        (ofParts part isPart).mono fun _ _ mem => part_subset isPart mem
    cases node with
    | literal value => exact .answer value
    | field dest which => exact .lookup (self_mem_subexpressions _)
    | now => exact .answer _
    | not operand => exact lazy_boolean ofPart fun b => .answer _
    | negative operand =>
      exact Lazy.bind ofPart fun value => .const (negate_answered value)
    | binary op left right =>
      rcases ofPart with ⟨ofLeft, ofRight⟩
      by_cases isAnd : op = .and
      · subst isAnd
        exact lazy_boolean ofLeft fun b => .ite (lazy_toBool ofRight) (.answer _)
      by_cases isOr : op = .or
      · subst isOr
        exact lazy_boolean ofLeft fun b => .ite (.answer _) (lazy_toBool ofRight)
      · simp only [eval]
        exact ofLeft.bind fun a => ofRight.bind fun b => .const (binary_answered op a b)
    | inList operand items =>
      rcases (List.forall_cons ..).mp ofPart with ⟨ofOperand, ofItems⟩
      apply ofOperand.bind
      intro value
      have found := lazy_evalItems isMatch time value (List.forall_iff_forall_mem.mp ofItems)
      exact found.bind fun found => .answer _
    | between operand low high =>
      rcases ofPart with ⟨ofOperand, ofLow, ofHigh⟩
      apply ofOperand.bind
      intro value
      apply ofLow.bind
      intro lowest
      apply lazy_boolean (.const (binary_answered .ge value lowest))
      intro above
      refine .ite ?_ (.answer _)
      apply ofHigh.bind
      intro highest
      exact lazy_toBool (.const (binary_answered .le value highest))
    | pattern operand regex =>
      exact Lazy.bind ofPart fun value => .const (by cases value <;> simp [Value.matchedBy])
    | ifElse condition left right =>
      rcases ofPart with ⟨ofCondition, ofLeft, ofRight⟩
      exact lazy_boolean ofCondition fun b => .ite ofLeft ofRight
    | coalesce left right =>
      rcases ofPart with ⟨ofLeft, ofRight⟩
      apply ofLeft.bind
      intro value
      exact .ite ofRight (.answer value)

end Node

/-! ## Facts and files -/

/-- The complete files that facts are about.  A listed object exists, with the size and
time listed, and is a directory exactly when its key is a directory marker.  A listing made
without times answers that there is none, so it serves expressions that name none. -/
def Facts.Consistent (file : File) : Facts → Prop
  | .complete known => file = known
  | .s3Listing size directoryMarker lastModified =>
    file.exist = true ∧ file.size = some size ∧ file.s3LastModified = lastModified ∧
      file.ctime = none ∧ file.device = none ∧ file.inode = none ∧ file.nlink = none ∧
      file.linkTarget = none ∧ (file.kind = some .dir ↔ directoryMarker = true)
  | .unread => True

/-- Some complete file that facts are about. -/
def Facts.plausibleFile : Facts → File
  | .complete known => known
  | .s3Listing size directoryMarker lastModified =>
    { exist := true, size := some size, s3LastModified := lastModified,
      kind := if directoryMarker then some .dir else some .file }
  | .unread => {}

theorem Facts.plausibleFile_consistent (facts : Facts) :
    facts.Consistent facts.plausibleFile := by
  cases facts with
  | complete known => rfl
  | s3Listing size dirMarker lastModified =>
    cases dirMarker <;> simp [Consistent, plausibleFile]
  | unread => trivial

/-- Facts have a field of the file as the file has it, or not at all. -/
theorem Facts.field_of_consistent {facts : Facts} {file : File}
    (consistent : facts.Consistent file) (path : Bytes) (which : Field) :
    facts.field path which = .error .needMetadata ∨
      facts.field path which = .ok (file.field path which) := by
  cases facts with
  | complete known =>
    cases consistent
    exact .inr rfl
  | s3Listing size dirMarker lastModified =>
    rcases consistent with ⟨there, sized, modified, noCtime, noDevice, noInode, noLinks,
      noTarget, -⟩
    cases which <;>
      simp [Facts.field, File.field, there, sized, modified, noCtime, noDevice, noInode,
        noLinks, noTarget, quantity]
  | unread => cases which <;> simp [Facts.field, File.field]

theorem ContextValues.field_refines {src dst : Facts} {srcFile dstFile : File}
    (srcConsistent : src.Consistent srcFile) (dstConsistent : dst.Consistent dstFile)
    (srcPath dstPath : Bytes) (now : Int) :
    Refines (⟨src, dst, srcPath, dstPath, now⟩ : ContextValues).field
      (⟨.complete srcFile, .complete dstFile, srcPath, dstPath, now⟩ : ContextValues).field := by
  intro dest which
  cases dest with
  | true => exact Facts.field_of_consistent dstConsistent dstPath which
  | false => exact Facts.field_of_consistent srcConsistent srcPath which

/-! ## Decisions -/

/-- A decision from what is known of some files is the one made with the files themselves.
It stays undecided only when making it for one of them reads what is not known. -/
structure Decides {γ : Type} (consistent : γ → Prop) (known : Except Policy.Failure (Option Bool))
    (full : γ → Except Policy.Failure Bool) (reads : γ → Prop) : Prop where
  decided : ∀ b, known = .ok (some b) → ∀ file, consistent file → full file = .ok b
  failed : ∀ failure, known = .error failure → ∀ file, consistent file →
    ∃ other, full file = .error other
  undecided : known = .ok none → ∃ file, consistent file ∧ reads file

namespace Expression

variable (isMatch : Bytes → Bytes → Bool) (expression : Expression)

/-- Evaluation on complete files reads the field: without it, it cannot go on. -/
def Reads (src : File) (srcPath : Bytes) (dst : File) (dstPath : Bytes) (now : Int)
    (destination : Bool) (which : Field) : Prop :=
  let context : ContextValues := ⟨.complete src, .complete dst, srcPath, dstPath, now⟩
  expression.root.eval isMatch (withheld context.field destination which) now =
    .error .needMetadata

variable {isMatch expression} {src dst : Facts} {srcPath dstPath : Bytes} {now : Int}

/-- An answer or an error from what is known is that of the evaluation, which asks for more
where the question stays open. -/
theorem evaluateKnown_spec :
    let context : ContextValues := ⟨src, dst, srcPath, dstPath, now⟩
    let known := expression.evaluateKnown isMatch src srcPath dst dstPath now
    (∀ b, known = .ok (some b) → expression.evaluateIn isMatch context = .ok b) ∧
    (∀ error, known = .error error →
      expression.evaluateIn isMatch context = .error error ∧ error ≠ .needMetadata) ∧
    (known = .ok none →
      expression.root.eval isMatch context.field now = .error .needMetadata) := by
  unfold evaluateKnown evaluateIn
  dsimp only
  cases expression.root.eval isMatch (ContextValues.field ⟨src, dst, srcPath, dstPath, now⟩)
    now with
  | error error => cases error <;> simp [Bind.bind, Except.bind]
  | ok value =>
    have answered := boolean_answered value
    cases read : value.boolean <;> simp_all [Except.map, Bind.bind, Except.bind]

/-- An answer from what is known is the answer with the files themselves. -/
theorem evaluate_eq_evaluateIn {srcFile dstFile : File} {result : Except EvalError Bool}
    (srcConsistent : src.Consistent srcFile) (dstConsistent : dst.Consistent dstFile)
    (known : expression.evaluateIn isMatch ⟨src, dst, srcPath, dstPath, now⟩ = result)
    (answered : result ≠ .error .needMetadata) :
    expression.evaluate isMatch srcFile srcPath dstFile dstPath now = result := by
  have ofEvaluation := (Node.lazy_eval isMatch now expression.root).bind fun value =>
    Lazy.const (boolean_answered value)
  rcases ofEvaluation.settles _ _ (ContextValues.field_refines srcConsistent dstConsistent
    srcPath dstPath now) with asks | same
  · exact absurd (known.symm.trans asks) answered
  · exact same.symm.trans known

/-- An expression that does not name the time of a listing answers as if there were none. -/
theorem evaluate_untimed (srcFile dstFile : File)
    (unnamed : .field false .s3LastModified ∉ expression.root.subexpressions) :
    expression.evaluate isMatch { srcFile with s3LastModified := none } srcPath dstFile dstPath
      now = expression.evaluate isMatch srcFile srcPath dstFile dstPath now := by
  have ofRoot := Node.lazy_eval isMatch now expression.root
  let full (file : File) : Lookup :=
    ContextValues.field ⟨.complete file, .complete dstFile, srcPath, dstPath, now⟩
  have untimed (file : File) :
      expression.root.eval isMatch (withheld (full file) false .s3LastModified) now =
        expression.root.eval isMatch (full file) now := by
    refine (ofRoot.settles _ _ fun dest which => ?_).resolve_left fun asks => ?_
    · unfold withheld
      split_ifs <;> simp
    · rcases ofRoot.stops _ asks with ⟨dest, which, named, unknown, -⟩
      unfold withheld at unknown
      split_ifs at unknown with isTime
      · rw [isTime.1, isTime.2] at named
        exact unnamed named
      · cases dest <;> cases unknown
  have same : withheld (full { srcFile with s3LastModified := none }) false .s3LastModified =
      withheld (full srcFile) false .s3LastModified := by
    funext dest which
    cases dest <;> cases which <;> rfl
  change (expression.root.eval isMatch (full _) now >>= _) =
    (expression.root.eval isMatch (full _) now >>= _)
  rw [← untimed, same, untimed]

/-- An open question stops at a field the facts do not have, which every evaluation with
the files themselves reads. -/
theorem reads_of_evaluateKnown_eq_none
    (known : expression.evaluateKnown isMatch src srcPath dst dstPath now = .ok none) :
    ∃ dest which, Node.field dest which ∈ expression.root.subexpressions ∧
      (⟨src, dst, srcPath, dstPath, now⟩ : ContextValues).field dest which =
        .error .needMetadata ∧
      ∀ srcFile dstFile, src.Consistent srcFile → dst.Consistent dstFile →
        expression.Reads isMatch srcFile srcPath dstFile dstPath now dest which := by
  rcases (Node.lazy_eval isMatch now expression.root).stops _ (evaluateKnown_spec.2.2 known)
    with ⟨dest, which, mem, unknown, later⟩
  exact ⟨dest, which, mem, unknown, fun srcFile dstFile srcConsistent dstConsistent =>
    later _ (ContextValues.field_refines srcConsistent dstConsistent srcPath dstPath now)⟩

end Expression

/-! ## Policies -/

section Compile

variable {engine : Engine} {selection update : Option (List Char)} {now : Int}

theorem compileOption_fine {option : String} {destination : Bool} {text : Option (List Char)}
    {expression : Expression}
    (compiles : compileOption engine option destination text = .ok (some expression)) :
    expression.root.Fine destination := by
  cases text with
  | none => cases compiles
  | some text =>
    simp only [compileOption, bind_eq_ok_iff, mapError_eq_ok_iff,
      pure_eq_ok_iff, Option.some.injEq] at compiles
    rcases compiles with ⟨compiled, compiles, rfl⟩
    exact (compile_eq_ok compiles).2

/-- A compiled selection names only fields of the source. -/
theorem compile_selection_source {policy : Policy}
    (compiles : Policy.compile engine selection update now = .ok policy)
    {expression : Expression} (selects : policy.selection = some expression)
    {destination : Bool} {which : Field}
    (mem : Node.field destination which ∈ expression.root.subexpressions) :
    destination = false := by
  simp only [compile, bind_eq_ok_iff, pure_eq_ok_iff] at compiles
  rcases compiles with ⟨compiled, compiles, _, -, rfl⟩
  cases selects
  have fine := compileOption_fine compiles _ mem
  cases destination with
  | true => exact absurd (fine rfl) (by decide)
  | false => rfl

end Compile

theorem withContext_eq_ok_iff {α : Type} {context : String} {result : Except EvalError α}
    {value : α} : Policy.withContext context result = .ok value ↔ result = .ok value := by
  cases result <;> simp [withContext, Except.mapError]

theorem withContext_eq_error_iff {α : Type} {context : String} {result : Except EvalError α}
    {failure : Policy.Failure} :
    Policy.withContext context result = .error failure ↔
      failure.context = context ∧ result = .error failure.error := by
  cases result with
  | ok value => simp [withContext, Except.mapError]
  | error error =>
    rcases failure with ⟨named, other⟩
    simp [withContext, Except.mapError, eq_comm]

variable {γ : Type}

theorem Decides.mono {consistent : γ → Prop}
    {known : Except Policy.Failure (Option Bool)} {full : γ → Except Policy.Failure Bool}
    {reads more : γ → Prop} (decides : Decides consistent known full reads)
    (weaker : ∀ file, consistent file → reads file → more file) :
    Decides consistent known full more where
  decided := decides.decided
  failed := decides.failed
  undecided asks := by
    rcases decides.undecided asks with ⟨file, holds, read⟩
    exact ⟨file, holds, weaker file holds read⟩

/-- A decision that needs nothing more. -/
theorem Decides.of_full {consistent : γ → Prop} {reads : γ → Prop}
    {result : Except Policy.Failure Bool} {full : γ → Except Policy.Failure Bool}
    (same : ∀ file, consistent file → full file = result) :
    Decides consistent (result.map some) full reads where
  decided b known file holds := by
    rw [same file holds]
    cases result with
    | error failure => cases known
    | ok value =>
      cases known
      rfl
  failed failure known file holds := by
    rw [same file holds]
    cases result with
    | error other => exact ⟨other, rfl⟩
    | ok value => cases known
  undecided known := by
    cases result <;> cases known

/-- An expression decides from facts for the files they are about. -/
theorem evaluateKnown_decides (isMatch : Bytes → Bytes → Bool)
    (expr : Expression) (label : String) (src dst : Facts) (srcPath dstPath : Bytes)
    (now : Int) (consistent : γ → Prop) (srcFile dstFile : γ → File)
    (full : γ → Except Policy.Failure Bool)
    (srcConsistent : ∀ file, consistent file → src.Consistent (srcFile file))
    (dstConsistent : ∀ file, consistent file → dst.Consistent (dstFile file))
    (evaluates : ∀ file, consistent file → full file = Policy.withContext label
      (expr.evaluate isMatch (srcFile file) srcPath (dstFile file) dstPath now))
    (inhabited : ∃ file, consistent file) :
    Decides consistent (Policy.withContext label
        (expr.evaluateKnown isMatch src srcPath dst dstPath now)) full
      fun file => ∃ dest which,
        Node.field dest which ∈ expr.root.subexpressions ∧
        (⟨src, dst, srcPath, dstPath, now⟩ : ContextValues).field dest which =
          .error .needMetadata ∧
        expr.Reads isMatch (srcFile file) srcPath (dstFile file) dstPath now dest
          which where
  decided b known file holds := by
    rw [withContext_eq_ok_iff] at known
    rw [evaluates file holds, withContext_eq_ok_iff]
    exact Expression.evaluate_eq_evaluateIn (srcConsistent file holds) (dstConsistent file holds)
      (Expression.evaluateKnown_spec.1 b known) (by simp)
  failed failure known file holds := by
    rw [withContext_eq_error_iff] at known
    rcases Expression.evaluateKnown_spec.2.1 _ known.2 with ⟨found, answered⟩
    refine ⟨failure, ?_⟩
    rw [evaluates file holds, withContext_eq_error_iff]
    exact ⟨known.1, Expression.evaluate_eq_evaluateIn (srcConsistent file holds)
      (dstConsistent file holds) found (by simpa using answered)⟩
  undecided known := by
    rw [withContext_eq_ok_iff] at known
    rcases Expression.reads_of_evaluateKnown_eq_none known with
      ⟨dest, which, mem, unknown, reads⟩
    rcases inhabited with ⟨file, holds⟩
    exact ⟨file, holds, dest, which, mem, unknown,
      reads _ _ (srcConsistent file holds) (dstConsistent file holds)⟩

section Policy

variable (isMatch : Bytes → Bytes → Bool) (policy : Policy)

theorem selects_of_no_selection {policy : Policy} (selects : policy.selection = none)
    (file : File) (path : Bytes) : policy.selects isMatch file path = .ok true := by
  rw [Policy.selects, selects]
  split_ifs <;> rfl

/-- What a selection may decide about: a directory among unread objects is out of reach. -/
def Selectable (src : Facts) (file : File) : Prop :=
  src.Consistent file ∧ (src = .unread → file.kind ≠ some .dir)

/-- What a selection reads beyond the facts of a file that is not a directory. -/
def Policy.SelectsReading (src : Facts) (path : Bytes) (file : File) : Prop :=
  ∃ expression, policy.selection = some expression ∧ file.kind ≠ some .dir ∧ ∃ which,
    src.field path which = .error .needMetadata ∧
      expression.Reads isMatch file path {} [] policy.now false which

/-- What an update rule reads beyond the facts of two files. -/
def Policy.PermitsReading (src : Facts) (srcPath : Bytes) (dst : Facts) (dstPath : Bytes)
    (files : File × File) : Prop :=
  ∃ expression, policy.update = some expression ∧ ∃ destination which,
    (⟨src, dst, srcPath, dstPath, policy.now⟩ : ContextValues).field destination which =
        .error .needMetadata ∧
      expression.Reads isMatch files.1 srcPath files.2 dstPath policy.now destination which

/-- A selection of source fields decides from facts that leave the kind to the metadata. -/
theorem evaluated_selection_decides {policy : Policy} {expr : Expression}
    (selects : policy.selection = some expr)
    (ofSource : ∀ dest which, Node.field dest which ∈ expr.root.subexpressions → dest = false)
    (src : Facts) (path : Bytes)
    (notDir : ∀ file, Selectable src file → file.kind ≠ some .dir)
    (possible : Selectable src src.plausibleFile) :
    Decides (Selectable src)
      (Policy.withContext "--where"
        (expr.evaluateKnown isMatch src path .unread [] policy.now))
      (fun file => policy.selects isMatch file path)
      (policy.SelectsReading isMatch src path) := by
  have decides := evaluateKnown_decides isMatch expr "--where" src .unread path [] policy.now
    (Selectable src) (fun file => file) (fun _ => {})
    (fun file => policy.selects isMatch file path)
    (fun file holds => holds.1) (fun file holds => trivial)
    (fun file holds => by rw [Policy.selects, if_neg (notDir file holds), selects])
    ⟨_, possible⟩
  apply decides.mono
  rintro file holds ⟨dest, which, mem, unknown, reads⟩
  cases ofSource dest which mem
  exact ⟨expr, selects, notDir file holds, which, unknown, reads⟩

theorem selectsKnown_decides {policy : Policy}
    (ofSource : ∀ expr, policy.selection = some expr → ∀ dest which,
      Node.field dest which ∈ expr.root.subexpressions → dest = false)
    (src : Facts) (path : Bytes) :
    Decides (Selectable src) (policy.selectsKnown isMatch src path)
      (fun file => policy.selects isMatch file path)
      (policy.SelectsReading isMatch src path) := by
  have ofTrue (same : ∀ file, Selectable src file → policy.selects isMatch file path = .ok true)
      (known : policy.selectsKnown isMatch src path = .ok (some true)) :
      Decides (Selectable src) (policy.selectsKnown isMatch src path)
        (fun file => policy.selects isMatch file path)
        (policy.SelectsReading isMatch src path) := by
    rw [known]
    exact Decides.of_full same
  cases src with
  | complete known =>
    apply Decides.of_full
    rintro file ⟨rfl, -⟩
    rfl
  | s3Listing size dirMarker lastModified =>
    cases selects : policy.selection with
    | none =>
      exact ofTrue (fun file _ => selects_of_no_selection isMatch selects file path)
        (by simp only [selectsKnown, selects])
    | some expr =>
      cases dirMarker with
      | true =>
        apply ofTrue
        · rintro file ⟨consistent, -⟩
          have isDir := consistent.2.2.2.2.2.2.2.2.mpr rfl
          rw [Policy.selects, if_pos isDir]
        · simp only [selectsKnown, selects]
      | false =>
        have decides := evaluated_selection_decides isMatch selects
          (ofSource expr selects) (.s3Listing size false lastModified) path
          (fun file holds isDir => by
            have marker := holds.1.2.2.2.2.2.2.2.2.mp isDir
            cases marker)
          ⟨Facts.plausibleFile_consistent _, nofun⟩
        simpa only [selectsKnown, selects] using decides
  | unread =>
    cases selects : policy.selection with
    | none =>
      exact ofTrue (fun file _ => selects_of_no_selection isMatch selects file path)
        (by simp only [selectsKnown, selects])
    | some expr =>
      have decides := evaluated_selection_decides isMatch selects
        (ofSource expr selects) .unread path (fun file holds => holds.2 rfl)
        ⟨trivial, fun _ => by simp [Facts.plausibleFile]⟩
      simpa only [selectsKnown, selects] using decides

theorem permitsKnown_decides (src : Facts) (srcPath : Bytes) (dst : Facts) (dstPath : Bytes) :
    Decides (fun files : File × File => src.Consistent files.1 ∧ dst.Consistent files.2)
      (policy.permitsKnown isMatch src srcPath dst dstPath)
      (fun files => policy.permits isMatch files.1 srcPath files.2 dstPath)
      (policy.PermitsReading isMatch src srcPath dst dstPath) := by
  cases updates : policy.update with
  | none =>
    have decides : Decides
        (fun files : File × File => src.Consistent files.1 ∧ dst.Consistent files.2)
        ((Except.ok true : Except Policy.Failure Bool).map some)
        (fun files => policy.permits isMatch files.1 srcPath files.2 dstPath)
        (policy.PermitsReading isMatch src srcPath dst dstPath) := by
      apply Decides.of_full
      intro files _
      rw [permits, updates]
      rfl
    rw [permitsKnown, updates]
    exact decides
  | some expr =>
    rw [permitsKnown, updates]
    have decides := evaluateKnown_decides isMatch expr "--copy-if" src dst srcPath dstPath
      policy.now (fun files : File × File => src.Consistent files.1 ∧ dst.Consistent files.2)
      Prod.fst Prod.snd
      (fun files => policy.permits isMatch files.1 srcPath files.2 dstPath)
      (fun files holds => holds.1) (fun files holds => holds.2)
      (fun files _ => by rw [permits, updates])
      ⟨(src.plausibleFile, dst.plausibleFile), src.plausibleFile_consistent,
        dst.plausibleFile_consistent⟩
    apply decides.mono
    rintro files - ⟨dest, which, -, unknown, reads⟩
    exact ⟨expr, updates, dest, which, unknown, reads⟩

end Policy

/-- A policy decides from partial facts as it does from the files.  For an unread object
the files are those that are not directories: a directory is selected whatever its name,
but only a listing or a complete file shows that it is one. -/
theorem known_decisions_hold (engine : Engine) (isMatch : Bytes → Bytes → Bool)
    (selection update : Option (List Char)) (now : Int) (policy : Policy)
    (compiles : Policy.compile engine selection update now = .ok policy) :
    (∀ src path, Decides (Selectable src) (policy.selectsKnown isMatch src path)
      (fun file => policy.selects isMatch file path)
      (policy.SelectsReading isMatch src path)) ∧
    ∀ src srcPath dst dstPath, Decides
      (fun files : File × File => src.Consistent files.1 ∧ dst.Consistent files.2)
      (policy.permitsKnown isMatch src srcPath dst dstPath)
      (fun files => policy.permits isMatch files.1 srcPath files.2 dstPath)
      (policy.PermitsReading isMatch src srcPath dst dstPath) := by
  constructor
  · apply selectsKnown_decides
    intro expression selects destination which mem
    exact compile_selection_source compiles selects mem
  · exact permitsKnown_decides isMatch policy

/-- A listing decides a selection by size, and leaves one by time open. -/
theorem known_decisions_hold_for_listing :
    ∃ policy, Policy.compile .plain (some "src.size > 1B".toList)
        (some "src.mtime > dst.mtime".toList) 0 = .ok policy ∧
      policy.selects (fun _ _ => true) { exist := true, size := some 2 } [120] = .ok true ∧
      ∃ files : File × File, policy.PermitsReading (fun _ _ => true) (.s3Listing 2 false none)
        [120] .unread [120] files := by
  refine ⟨⟨some ⟨.binary .gt (.field false .size) (.literal (.quantity 1 .size))⟩,
    some ⟨.binary .gt (.field false .mtime) (.field true .mtime)⟩, 0⟩, rfl, ?_, ?_⟩
  · have sound := (known_decisions_hold .plain (fun _ _ => true) (some "src.size > 1B".toList)
      (some "src.mtime > dst.mtime".toList) 0 _ rfl).1 (.s3Listing 2 false none) [120]
    apply sound.decided true (by decide +kernel)
    exact ⟨by simp [Facts.Consistent], nofun⟩
  · have sound := (known_decisions_hold .plain (fun _ _ => true) (some "src.size > 1B".toList)
      (some "src.mtime > dst.mtime".toList) 0 _ rfl).2 (.s3Listing 2 false none) [120] .unread
      [120]
    rcases sound.undecided (by decide +kernel) with ⟨files, -, reads⟩
    exact ⟨files, reads⟩

/-- The name of an unread object decides against it although it may be a directory, which
the selection takes. -/
theorem unread_directory_is_decided_against :
    ∃ policy, Policy.compile .plain (some "src.name = 'x'".toList) none 0 = .ok policy ∧
      policy.selectsKnown (fun _ _ => true) .unread [100] = .ok (some false) ∧
      Facts.unread.Consistent { exist := true, kind := some .dir } ∧
      policy.selects (fun _ _ => true) { exist := true, kind := some .dir } [100] =
        .ok true :=
  ⟨⟨some ⟨.binary .eq (.field false .name) (.literal (.string [120]))⟩, none, 0⟩, rfl,
    by decide +kernel, trivial, rfl⟩

end Syq.Selection
