import Mathlib

/-!
# Checked state programs

Programs that change a state, may be refused with a reason, and may fail outright (a
failed assertion of the modelled program).  A refusal keeps the state changes made
before it.  `Ends` is total correctness: the program does not fail, and its result and
final state meet a condition.
-/

namespace Syq.Lib

universe u

variable {ε σ α β : Type u}

/-- State changes that stay when the program is refused; `none` beneath is a failure. -/
abbrev Checked (ε σ : Type u) := ExceptT ε (StateT σ Option)

namespace Checked

variable {program : Checked ε σ α} {state : σ} {post : Except ε α → σ → Prop}

/-- Run a program from a state. -/
def runFrom (program : Checked ε σ α) (state : σ) : Option (Except ε α × σ) :=
  program.run.run state

/-- The program does not fail, and what it leaves meets `post`. -/
def Ends (program : Checked ε σ α) (state : σ) (post : Except ε α → σ → Prop) : Prop :=
  ∃ result next, program.runFrom state = some (result, next) ∧ post result next

theorem Ends.mono {weaker : Except ε α → σ → Prop} (ends : program.Ends state post)
    (weaken : ∀ result next, post result next → weaker result next) :
    program.Ends state weaker := by
  rcases ends with ⟨result, next, run, met⟩
  exact ⟨result, next, run, weaken result next met⟩

/-- What a run leaves meets what the program is known to end in. -/
theorem Ends.of_run {next : σ} {result : Except ε α} (ends : program.Ends state post)
    (run : program.runFrom state = some (result, next)) : post result next := by
  rcases ends with ⟨result', next', run', met⟩
  rw [run] at run'
  cases run'
  exact met

/-- A value the program cannot go on without. -/
def expect (value : Option α) : Checked ε σ α :=
  ExceptT.mk fun state => value.map fun a => (.ok a, state)

@[simp]
theorem runFrom_throw (reason : ε) (state : σ) :
    (throw reason : Checked ε σ α).runFrom state = some (.error reason, state) :=
  rfl

theorem runFrom_bind (program : Checked ε σ α) (rest : α → Checked ε σ β) (state : σ) :
    (program >>= rest).runFrom state =
      (program.runFrom state).bind fun outcome =>
        match outcome.1 with
        | .ok a => (rest a).runFrom outcome.2
        | .error reason => some (.error reason, outcome.2) := by
  unfold runFrom
  cases ran : program.run.run state with
  | none => simp [ran]
  | some outcome => rcases outcome with ⟨_ | a, next⟩ <;> simp [ran]

/-! ## Rules -/

theorem ends_pure {a : α} (met : post (.ok a) state) : (pure a : Checked ε σ α).Ends state post :=
  ⟨_, _, rfl, met⟩

theorem ends_throw {reason : ε} (met : post (.error reason) state) :
    (throw reason : Checked ε σ α).Ends state post :=
  ⟨_, _, rfl, met⟩

theorem ends_modify {change : σ → σ} {post : Except ε PUnit → σ → Prop}
    (met : post (.ok ⟨⟩) (change state)) : (modify change : Checked ε σ PUnit).Ends state post :=
  ⟨_, _, rfl, met⟩

theorem ends_set {next : σ} {post : Except ε PUnit → σ → Prop} (met : post (.ok ⟨⟩) next) :
    (set next : Checked ε σ PUnit).Ends state post :=
  ⟨_, _, rfl, met⟩

theorem ends_expect {value : Option α} {a : α} (found : value = some a) (met : post (.ok a) state) :
    (expect value : Checked ε σ α).Ends state post := by
  subst found
  exact ⟨_, _, rfl, met⟩

/-- A refused program skips what comes after it. -/
theorem ends_bind {rest : α → Checked ε σ β} {post : Except ε β → σ → Prop}
    (first : program.Ends state fun result next =>
      match result with
      | .ok a => (rest a).Ends next post
      | .error reason => post (.error reason) next) : (program >>= rest).Ends state post := by
  rcases first with ⟨_ | a, next, run, met⟩
  · exact ⟨_, next, by rw [runFrom_bind, run]; rfl, met⟩
  · rcases met with ⟨result, last, rest, met⟩
    exact ⟨result, last, by rw [runFrom_bind, run]; exact rest, met⟩

theorem ends_get_bind {rest : σ → Checked ε σ β} {post : Except ε β → σ → Prop}
    (met : (rest state).Ends state post) : (get >>= rest).Ends state post :=
  ends_bind ⟨_, _, rfl, met⟩

theorem runFrom_tryCatch (program : Checked ε σ α) (handler : ε → Checked ε σ α) (state : σ) :
    (tryCatch program handler : Checked ε σ α).runFrom state =
      (program.runFrom state).bind fun outcome =>
        match outcome.1 with
        | .ok a => some (.ok a, outcome.2)
        | .error reason => (handler reason).runFrom outcome.2 := by
  unfold runFrom
  change (StateT.run (program.run >>= fun result => match result with
    | .ok a => pure (.ok a)
    | .error reason => (handler reason).run) state) = _
  rw [StateT.run_bind]
  cases ran : program.run.run state with
  | none => rfl
  | some outcome => rcases outcome with ⟨_ | a, next⟩ <;> rfl

theorem ends_tryCatch {handler : ε → Checked ε σ α} (first : program.Ends state fun result next =>
      match result with
      | .ok a => post (.ok a) next
      | .error reason => (handler reason).Ends next post) :
    (tryCatch program handler : Checked ε σ α).Ends state post := by
  rcases first with ⟨_ | a, next, run, met⟩
  · rcases met with ⟨result, last, rest, met⟩
    exact ⟨result, last, by rw [runFrom_tryCatch, run]; exact rest, met⟩
  · exact ⟨_, next, by rw [runFrom_tryCatch, run]; rfl, met⟩

/-! ## Invariants of programs -/

/-- The program does not fail, and keeps an invariant whether it is refused or not. -/
def Keeps (Inv : σ → Prop) (program : Checked ε σ α) : Prop :=
  ∀ state, Inv state → program.Ends state fun _ next => Inv next

section Keeps

variable {Inv : σ → Prop}

theorem keeps_pure (a : α) : Keeps Inv (pure a : Checked ε σ α) :=
  fun _ inv => ends_pure inv

theorem keeps_throw (reason : ε) : Keeps Inv (throw reason : Checked ε σ α) :=
  fun _ inv => ends_throw inv

theorem keeps_modify {change : σ → σ} (kept : ∀ {state}, Inv state → Inv (change state)) :
    Keeps Inv (modify change : Checked ε σ PUnit) :=
  fun _ inv => ends_modify (kept inv)

theorem Keeps.bind {rest : α → Checked ε σ β} (first : Keeps Inv program)
    (second : ∀ a, Keeps Inv (rest a)) : Keeps Inv (program >>= rest) := by
  intro state inv
  refine ends_bind ((first state inv).mono ?_)
  rintro (_ | a) next kept
  · exact kept
  · exact second a next kept

end Keeps

end Checked

end Syq.Lib
