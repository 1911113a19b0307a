import Syq.WireBudget.Model

/-!
# The budgets are exact

The charge of each budget is the sum of the reservations that live.  One lemma for each
operation says what it does to the charge it is about, and the invariant of the two budgets
follows event by event.
-/

namespace Syq.WireBudget

open Syq.Lib Multiset Hold Option Finmap

/-! ## Operations on decompression -/

namespace Expansion

variable {budget : ExpansionBudget}

/-- A reservation is granted when it fits or nothing is charged, and the total does not
wrap. -/
theorem reserve_cases {bytes : Nat} (small : budget.limit < u64Max) (word : bytes ≤ u64Max)
    (closed : Bool) :
    ((budget.used = 0 ∨ budget.used + bytes ≤ budget.limit) ∧ reserve budget bytes closed =
        some (.granted { budget with used := budget.used + bytes } ⟨bytes⟩)) ∨
    (∃ msg, reserve budget bytes closed = some (.aborted msg)) ∨
    reserve budget bytes closed = some .waiting := by
  unfold reserve
  by_cases full : 0 < budget.used ∧ budget.limit < saturatingAdd budget.used bytes
  · rw [if_pos full]
    cases closed with
    | true => exact .inr (.inl ⟨_, rfl⟩)
    | false => exact .inr (.inr rfl)
  · rw [if_neg full]
    have room : budget.used = 0 ∨ budget.used + bytes ≤ budget.limit := by
      unfold saturatingAdd at full
      omega
    have fits : checkedAdd budget.used bytes = some (budget.used + bytes) := by
      rw [checkedAdd_eq_some_iff]
      omega
    rw [fits]
    exact .inl ⟨room, rfl⟩

theorem shrinkTo_eq {expansion : Expansion} {rest : Nat} (bytes : Nat)
    (charged : budget.used = expansion.bytes + rest) :
    expansion.shrinkTo budget bytes =
      some ({ budget with used := min bytes expansion.bytes + rest },
        ⟨min bytes expansion.bytes⟩) := by
  rcases expansion with ⟨amount⟩
  rcases budget with ⟨used, limit⟩
  subst charged
  unfold shrinkTo
  by_cases less : bytes < amount
  · have released : checkedSub (amount + rest) (amount - bytes) = some (bytes + rest) := by
      rw [checkedSub_eq_some_iff]
      omega
    rw [if_pos less, released, Nat.min_eq_left (Nat.le_of_lt less)]
    rfl
  · rw [if_neg less, Nat.min_eq_right (Nat.le_of_not_lt less)]

theorem drop_eq {expansion : Expansion} {rest : Nat}
    (charged : budget.used = expansion.bytes + rest) :
    expansion.drop budget = some { budget with used := rest } := by
  rcases expansion with ⟨amount⟩
  rcases budget with ⟨used, limit⟩
  subst charged
  unfold drop
  by_cases charges : 0 < amount
  · have released : checkedSub (amount + rest) amount = some rest := by
      rw [checkedSub_eq_some_iff, Nat.add_comm]
    rw [if_pos charges, released]
    rfl
  · have nothing : amount = 0 := Nat.eq_zero_of_not_pos charges
    rw [if_neg charges, nothing, Nat.zero_add]

end Expansion

/-! ## Operations on messages -/

namespace Hold

variable {budget : Budget}

/-- What a message keeps of decompression. -/
def kept (hold : Hold) : Multiset Nat :=
  hold.expansion.elim 0 fun expansion => {expansion.bytes}

theorem dropExpansion_eq {hold : Hold} {budget : ExpansionBudget} {rest : Nat}
    (charged : budget.used = hold.kept.sum + rest) :
    hold.dropExpansion budget = some { budget with used := rest } := by
  unfold dropExpansion
  cases keeps : hold.expansion with
  | none =>
    have same : budget.used = rest := by simpa [kept, keeps] using charged
    rw [← same]
  | some expansion =>
    apply Expansion.drop_eq
    simpa [kept, keeps] using charged

theorem drop_eq {hold : Hold} {rest : Nat} (charged : budget.used = hold.reserved + rest) :
    hold.drop budget = some { budget with used := rest } := by
  have released : checkedSub budget.used hold.reserved = some rest := by
    rw [checkedSub_eq_some_iff, charged, Nat.add_comm]
  rw [drop, released]
  rfl

/-- Whole granules cover the bytes asked for. -/
theorem le_wholeGranules {used wanted : Nat} (rounds : wholeGranules used = some wanted) :
    used ≤ wanted := by
  unfold wholeGranules at rounds
  have positive : 0 < reservationGranule := by decide
  generalize reservationGranule = granule at positive rounds
  simp only [bind_eq_bind, bind_eq_some_iff, checkedAdd_eq_some_iff, some.injEq] at rounds
  rcases rounds with ⟨rounded, ⟨rfl, -⟩, rfl⟩
  have parts := Nat.div_add_mod (used + (granule - 1)) granule
  have small := Nat.mod_lt (used + (granule - 1)) positive
  rw [Nat.mul_comm] at parts
  omega

/-- A grow that succeeded moved the reservation and the total by the same amount. -/
structure Grown (budget : Budget) (hold : Hold) (bytes : Nat) (after : Budget) (grown : Hold) :
    Prop where
  used : grown.used = hold.used + bytes
  covered : grown.used ≤ grown.reserved
  moved : after.used + hold.reserved = budget.used + grown.reserved
  within : budget.used ≤ budget.limit → after.used ≤ budget.limit
  limit : after.limit = budget.limit
  kept : grown.kept = hold.kept

/-- A failed attempt leaves everything as it was. -/
theorem tryGrow_cases (budget : Budget) (hold : Hold) (bytes : Nat) :
    tryGrow budget hold bytes = (.error exhaustedMessage, budget, hold) ∨
      ∃ after grown, tryGrow budget hold bytes = (.ok (), after, grown) ∧
        Grown budget hold bytes after grown := by
  unfold tryGrow
  split
  · exact .inl rfl
  · rename_i used adds
    have added := (checkedAdd_eq_some_iff.mp adds).1
    split_ifs with more
    · split
      · exact .inl rfl
      · rename_i wanted rounds
        have covers := le_wholeGranules rounds
        dsimp only
        split
        · exact .inl rfl
        · rename_i total charges
          simp only [filter_eq_some_iff, checkedAdd_eq_some_iff, decide_eq_true_eq] at charges
          rcases charges with ⟨⟨rfl, -⟩, fits⟩
          refine .inr ⟨_, _, rfl, added.symm, covers, ?_, fun _ => fits, rfl, rfl⟩
          dsimp only
          omega
    · exact .inr ⟨_, _, rfl, added.symm, Nat.le_of_not_lt more, rfl, id, rfl, rfl⟩

/-- A failed grow only marks the message. -/
theorem grow_cases (budget : Budget) (hold : Hold) (bytes : Nat) :
    grow budget hold bytes =
        (.error exhaustedMessage, budget, { hold with exhausted := true }) ∨
      ∃ after grown, grow budget hold bytes = (.ok (), after, grown) ∧
        Grown budget hold bytes after grown := by
  unfold grow
  rcases tryGrow_cases budget hold bytes with failed | ⟨after, grown, succeeded, spec⟩
  · rw [failed]
    exact .inl rfl
  · rw [succeeded]
    exact .inr ⟨after, grown, rfl, spec⟩

end Hold

/-! ## The invariant -/

namespace State

variable {state : State} {hold message : Hold} {id : Nat} {expansion : Expansion}

/-- The live reservations of the decompression budget. -/
def charges (state : State) : Multiset Nat :=
  gather (fun expansion : Expansion => ({expansion.bytes} : Multiset Nat)) state.expansions +
    gather Hold.kept state.holds

/-- The sum of the live reservations for collections. -/
def reserved (state : State) : Nat :=
  gather Hold.reserved state.holds

/-- Both budgets charge what lives and keep to their limits. -/
structure Exact (state : State) : Prop where
  expansionUsed : state.expansion.used = state.charges.sum
  rule : WithinOrAlone state.expansion.limit state.charges
  limits : state.expansion.limit = expansionLimit ∧ state.memory.limit = memoryLimit
  memoryUsed : state.memory.used = state.reserved
  memoryWithin : state.memory.used ≤ state.memory.limit
  covered : ∀ id hold, state.holds.lookup id = some hold → hold.used ≤ hold.reserved

theorem Exact.start : State.start.Exact where
  expansionUsed := rfl
  rule := .inl (Nat.zero_le _)
  limits := ⟨rfl, rfl⟩
  memoryUsed := rfl
  memoryWithin := Nat.zero_le _
  covered id hold found := by simp [State.start] at found

/-- What is covered stays covered when one message changes. -/
theorem Exact.covered_insert (exact : state.Exact) (id : Nat) (covers : hold.used ≤ hold.reserved) :
    ∀ other found, (state.holds.insert id hold).lookup other = some found →
      found.used ≤ found.reserved :=
  fun _ _ => forall_of_insert (exact.covered _ _) covers

/-! ## One event -/

/-- The weight of an owned reservation. -/
abbrev owned (expansions : Table Nat Expansion) : Multiset Nat :=
  gather (fun expansion : Expansion => ({expansion.bytes} : Multiset Nat)) expansions

theorem charges_of_expansion (found : state.expansions.lookup id = some expansion) :
    state.charges = expansion.bytes ::ₘ
      (owned (state.expansions.erase id) + gather Hold.kept state.holds) := by
  rw [charges, gather_of_lookup _ found, singleton_add, cons_add]

theorem charges_of_hold (found : state.holds.lookup id = some hold) :
    state.charges = hold.kept +
      (owned state.expansions + gather Hold.kept (state.holds.erase id)) := by
  rw [charges, gather_of_lookup _ found, add_left_comm]

/-- Without what a message keeps, the rule still holds. -/
theorem within_of_kept {limit : Nat} {rest : Multiset Nat}
    (rule : WithinOrAlone limit (hold.kept + rest)) : WithinOrAlone limit rest := by
  unfold kept at rule
  cases keeps : hold.expansion with
  | none => simpa [keeps] using rule
  | some expansion =>
    rw [keeps] at rule
    exact WithinOrAlone.remove (by simpa using rule)

section

variable (exact : state.Exact)

include exact

/-- Changing the decompression charges and the tables alike keeps both budgets exact. -/
theorem Exact.recharge {expansions : Table Nat Expansion} {holds : Table Nat Hold}
    {charges : Multiset Nat} (charged : owned expansions + gather Hold.kept holds = charges)
    (rule : WithinOrAlone state.expansion.limit charges)
    (reserved : gather Hold.reserved holds = state.reserved)
    (covered : ∀ id hold, holds.lookup id = some hold → hold.used ≤ hold.reserved) :
    Exact { state with
      expansion := { state.expansion with used := charges.sum }, expansions, holds } where
  expansionUsed := by rw [← charged]; rfl
  rule := by
    rw [← charged] at rule
    exact rule
  limits := exact.limits
  memoryUsed := exact.memoryUsed.trans reserved.symm
  memoryWithin := exact.memoryWithin
  covered := covered

theorem Exact.small : state.expansion.limit < u64Max := by
  rw [exact.limits.1]
  decide

theorem Exact.reserve {bytes : Nat} (absent : id ∉ state.expansions) (word : bytes ≤ u64Max)
    (closed : Bool) : ∃ next, step state (.reserve id bytes closed) = some next ∧ next.Exact := by
  rcases Expansion.reserve_cases exact.small word closed with
    ⟨room, granted⟩ | ⟨message, aborted⟩ | waiting
  · rw [exact.expansionUsed] at room
    have charged : owned (state.expansions.insert id ⟨bytes⟩) + gather kept state.holds =
        bytes ::ₘ state.charges := by
      rw [owned, gather_insert_of_notMem _ absent, singleton_add, cons_add]
      rfl
    have next := exact.recharge charged (.admitted room) rfl exact.covered
    rw [sum_cons, ← exact.expansionUsed, Nat.add_comm] at next
    exact ⟨_, by simp only [step, granted]; rfl, next⟩
  · exact ⟨state, by simp only [step, aborted]; rfl, exact⟩
  · exact ⟨state, by simp only [step, waiting]; rfl, exact⟩

theorem Exact.shrinkTo (found : state.expansions.lookup id = some expansion) (bytes : Nat) :
    ∃ next, step state (.shrinkTo id bytes) = some next ∧ next.Exact := by
  have split := charges_of_expansion found
  have used := exact.expansionUsed
  rw [split, sum_cons] at used
  have rule := exact.rule
  rw [split] at rule
  have charged : owned (state.expansions.insert id ⟨min bytes expansion.bytes⟩) +
      gather kept state.holds = min bytes expansion.bytes ::ₘ
        (owned (state.expansions.erase id) + gather kept state.holds) := by
    rw [owned, gather_insert, singleton_add, cons_add]
  have next := exact.recharge charged (rule.reduce (Nat.min_le_right _ _)) rfl exact.covered
  rw [sum_cons] at next
  exact ⟨_, by simp only [step, found, bind_eq_bind, bind_some,
    Expansion.shrinkTo_eq bytes used], next⟩

theorem Exact.dropExpansion (found : state.expansions.lookup id = some expansion) :
    ∃ next, step state (.dropExpansion id) = some next ∧ next.Exact := by
  have split := charges_of_expansion found
  have used := exact.expansionUsed
  rw [split, sum_cons] at used
  have rule := exact.rule
  rw [split] at rule
  have charged : owned (state.expansions.erase id) + gather kept state.holds = _ := rfl
  have next := exact.recharge charged rule.remove rfl exact.covered
  exact ⟨_, by simp only [step, found, bind_eq_bind, bind_some,
    Expansion.drop_eq used], next⟩

theorem Exact.newHold (absent : id ∉ state.holds) :
    ∃ next, step state (.newHold id) = some next ∧ next.Exact := by
  have charged : owned state.expansions + gather kept (state.holds.insert id .new) =
      state.charges := by
    rw [gather_insert_of_notMem _ absent]
    exact congrArg _ (zero_add _)
  have reserved : gather Hold.reserved (state.holds.insert id .new) = state.reserved := by
    rw [gather_insert_of_notMem _ absent]
    exact zero_add _
  have next := exact.recharge charged exact.rule reserved
    (exact.covered_insert id (Nat.le_refl _))
  rw [← exact.expansionUsed] at next
  exact ⟨_, rfl, next⟩

end

/-- Changing only what a message keeps changes no reservation for collections. -/
theorem reserved_insert (found : state.holds.lookup id = some hold) (keeps : Option Expansion) :
    gather Hold.reserved (state.holds.insert id { hold with expansion := keeps }) =
      state.reserved := by
  rw [gather_insert, State.reserved, gather_of_lookup _ found]

variable {hold : Nat}

variable (exact : state.Exact)

include exact

theorem Exact.keep (foundHold : state.holds.lookup hold = some message)
    (found : state.expansions.lookup id = some expansion) :
    ∃ next, step state (.keep hold id) = some next ∧ next.Exact := by
  have split := charges_of_hold foundHold
  have used := exact.expansionUsed
  rw [split, sum_add] at used
  have rule := exact.rule
  rw [split] at rule
  have charged : owned (state.expansions.erase id) +
      gather kept (state.holds.insert hold { message with expansion := some expansion }) =
        owned state.expansions + gather kept (state.holds.erase hold) := by
    rw [gather_insert, owned, owned, gather_of_lookup _ found]
    change _ + ({expansion.bytes} + _) = _
    rw [← add_assoc, add_comm (gather _ (state.expansions.erase id))]
  have next := exact.recharge charged (within_of_kept rule) (reserved_insert foundHold _)
    (exact.covered_insert hold (exact.covered hold message foundHold))
  exact ⟨_, by simp only [step, foundHold, found, bind_eq_bind, bind_some,
    dropExpansion_eq used], next⟩

variable (found : state.holds.lookup hold = some message)

include found

theorem Exact.releaseExpansion :
    ∃ next, step state (.releaseExpansion hold) = some next ∧ next.Exact := by
  have split := charges_of_hold found
  have used := exact.expansionUsed
  rw [split, sum_add] at used
  have rule := exact.rule
  rw [split] at rule
  have charged : owned state.expansions +
      gather kept (state.holds.insert hold { message with expansion := none }) =
        owned state.expansions + gather kept (state.holds.erase hold) := by
    rw [gather_insert]
    exact congrArg _ (zero_add _)
  have next := exact.recharge charged (within_of_kept rule) (reserved_insert found _)
    (exact.covered_insert hold (exact.covered hold message found))
  exact ⟨_, by simp only [step, found, bind_eq_bind, bind_some,
    dropExpansion_eq used], next⟩

theorem Exact.grow (bytes : Nat) :
    ∃ next, step state (.grow hold bytes) = some next ∧ next.Exact := by
  have reserved := gather_of_lookup Hold.reserved found
  have kept := gather_of_lookup Hold.kept found
  refine ⟨_, by simp only [step, found, bind_eq_bind, bind_some]; rfl, ?_⟩
  rcases Hold.grow_cases state.memory message bytes with failed | ⟨after, grown, succeeded, spec⟩
  · have sameKept : gather Hold.kept
        (state.holds.insert hold { message with exhausted := true }) =
          gather Hold.kept state.holds := by
      rw [gather_insert, kept]
      rfl
    have sameReserved : gather Hold.reserved
        (state.holds.insert hold { message with exhausted := true }) = state.reserved := by
      rw [gather_insert, State.reserved, reserved]
    have next := exact.recharge (congrArg _ sameKept) exact.rule sameReserved
      (exact.covered_insert hold (exact.covered hold message found))
    rw [show owned state.expansions + gather Hold.kept state.holds = state.charges from rfl,
      ← exact.expansionUsed] at next
    rw [failed]
    exact next
  · have sameKept : gather Hold.kept (state.holds.insert hold grown) =
        gather Hold.kept state.holds := by
      rw [gather_insert, kept, spec.kept]
    have charged : owned state.expansions + gather Hold.kept (state.holds.insert hold grown) =
        state.charges := congrArg _ sameKept
    rw [succeeded]
    constructor
    · exact exact.expansionUsed.trans (congrArg _ charged.symm)
    · exact (congrArg (WithinOrAlone _) charged).mpr exact.rule
    · exact ⟨exact.limits.1, spec.limit.trans exact.limits.2⟩
    · have moved := spec.moved
      rw [exact.memoryUsed, State.reserved] at moved
      change after.used = gather Hold.reserved (state.holds.insert hold grown)
      rw [gather_insert]
      omega
    · rw [spec.limit]
      exact spec.within exact.memoryWithin
    · exact exact.covered_insert hold spec.covered

theorem Exact.dropHold (absent : id ∉ state.expansions) :
    ∃ next, step state (.dropHold hold id) = some next ∧ next.Exact := by
  have reserved := gather_of_lookup Hold.reserved found
  have used := exact.memoryUsed
  rw [State.reserved, reserved] at used
  have charged : owned (message.expansion.elim state.expansions (state.expansions.insert id ·)) +
      gather kept (state.holds.erase hold) = state.charges := by
    rw [charges_of_hold found, kept]
    cases message.expansion with
    | none => exact (zero_add _).symm
    | some expansion =>
      change owned (state.expansions.insert id expansion) + _ = {expansion.bytes} + _
      rw [owned, gather_insert_of_notMem _ absent, add_assoc]
  refine ⟨_, by simp only [step, found, bind_eq_bind, bind_some,
    drop_eq used]; rfl, ?_⟩
  constructor
  · exact exact.expansionUsed.trans (congrArg _ charged.symm)
  · exact (congrArg (WithinOrAlone _) charged).mpr exact.rule
  · exact exact.limits
  · rfl
  · have within := exact.memoryWithin
    change gather Hold.reserved (state.holds.erase hold) ≤ state.memory.limit
    omega
  · exact fun other found isFound => exact.covered other found (lookup_of_erase isFound)

omit found

/-- Every permitted event succeeds and keeps both budgets exact. -/
theorem Exact.step {event : Event} (enabled : Enabled state event) :
    ∃ next, step state event = some next ∧ next.Exact := by
  cases event with
  | reserve id bytes closed => exact exact.reserve enabled.1 enabled.2 closed
  | shrinkTo id bytes =>
    rcases mem_iff.mp enabled.1 with ⟨expansion, found⟩
    exact exact.shrinkTo found bytes
  | dropExpansion id =>
    rcases mem_iff.mp enabled with ⟨expansion, found⟩
    exact exact.dropExpansion found
  | newHold id => exact exact.newHold enabled
  | keep hold id =>
    rcases mem_iff.mp enabled.1 with ⟨message, foundHold⟩
    rcases mem_iff.mp enabled.2 with ⟨expansion, found⟩
    exact exact.keep foundHold found
  | releaseExpansion hold =>
    rcases mem_iff.mp enabled with ⟨message, found⟩
    exact exact.releaseExpansion found
  | grow hold bytes =>
    rcases mem_iff.mp enabled.1 with ⟨message, found⟩
    exact exact.grow found bytes
  | dropHold hold id =>
    rcases mem_iff.mp enabled.1 with ⟨message, found⟩
    exact exact.dropHold found enabled.2

end State

/-! ## Whole runs -/

theorem exact_of_run {events : List Event} {state : State}
    (run : system.exec State.start events = some state) : state.Exact := by
  apply system.exec_invariant _ State.Exact.start run
  intro current event next exact enabled stepped
  rcases exact.step enabled with ⟨other, otherStepped, otherExact⟩
  cases some.inj (otherStepped.symm.trans stepped)
  exact otherExact

/-- In every state that operations of any connections reach, the budgets charge exactly what
lives and nothing they release underflows.  Above its limit the decompression budget charges
one reservation, beside which only empty ones live.  A failed grow leaves all but the mark
that it failed. -/
theorem budgets_are_exact (events : List Event) (state : State)
    (run : system.exec State.start events = some state) :
    state.expansion.used = state.charges.sum ∧
    state.memory.used = state.reserved ∧
    (∀ event, system.enabled state event → ∃ next, system.step state event = some next) ∧
    (expansionLimit < state.expansion.used → ∃ large ∈ state.charges, expansionLimit < large ∧
        ∀ other ∈ state.charges.erase large, other = 0) ∧
    state.memory.used ≤ memoryLimit ∧
    (∀ id hold, state.holds.lookup id = some hold → hold.used ≤ hold.reserved) ∧
    ∀ id hold bytes message, state.holds.lookup id = some hold →
      (hold.grow state.memory bytes).1 = .error message →
      system.step state (.grow id bytes) =
        some { state with holds := state.holds.insert id { hold with exhausted := true } } := by
  have exact := exact_of_run run
  have within := exact.memoryWithin
  rw [exact.limits.2] at within
  have rule := exact.rule
  rw [exact.limits.1] at rule
  refine ⟨exact.expansionUsed, exact.memoryUsed, ?_, ?_, within, exact.covered, ?_⟩
  · intro event enabled
    rcases exact.step enabled with ⟨next, stepped, -⟩
    exact ⟨next, stepped⟩
  · intro above
    rw [exact.expansionUsed] at above
    exact rule.alone above
  · intro id hold bytes message found fails
    rcases hold.grow_cases state.memory bytes with failed | ⟨after, grown, succeeded, -⟩
    · simp only [system, step, found, bind_eq_bind, bind_some, failed]
    · rw [succeeded] at fails
      cases fails

/-- A run with a large reservation and a message that grew. -/
theorem budgets_are_exact_after_growth :
    ∃ state, system.exec State.start
        [.reserve 0 (2 ^ 31) false, .newHold 0, .grow 0 1, .keep 0 0] = some state ∧
      state.expansion.used = 2 ^ 31 ∧ state.memory.used = reservationGranule ∧
      ∃ large ∈ state.charges, expansionLimit < large ∧
        ∀ other ∈ state.charges.erase large, other = 0 := by
  have runs : ∃ state, system.exec State.start
      [.reserve 0 (2 ^ 31) false, .newHold 0, .grow 0 1, .keep 0 0] = some state ∧
        state.expansion.used = 2 ^ 31 ∧ state.memory.used = reservationGranule := by
    refine ⟨_, rfl, ?_, ?_⟩ <;> decide +kernel
  rcases runs with ⟨state, run, used, memory⟩
  have above : expansionLimit < state.expansion.used := by
    rw [used]
    decide
  exact ⟨state, run, used, memory, (budgets_are_exact _ state run).2.2.2.1 above⟩

/-- A large reservation is admitted beside an empty one, and a failed grow marks the
message. -/
theorem large_beside_empty_and_mark :
    (∃ state, system.exec State.start [.reserve 0 0 false, .reserve 1 (2 ^ 31) false] =
        some state ∧ expansionLimit < state.expansion.used ∧ state.charges.card = 2) ∧
    ∃ state hold, system.exec State.start [.newHold 0] = some state ∧
      state.holds.lookup 0 = some hold ∧
      (hold.grow state.memory (2 ^ 30)).1 = .error Hold.exhaustedMessage ∧
      (hold.grow state.memory (2 ^ 30)).2.2 ≠ hold := by
  constructor
  · refine ⟨_, rfl, ?_, ?_⟩ <;> decide +kernel
  · refine ⟨_, .new, rfl, ?_, ?_, ?_⟩
    · decide +kernel
    · rfl
    · decide +kernel

end Syq.WireBudget
