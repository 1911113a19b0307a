import Syq.Results.Change

/-!
# The names of a linked destination

How many jobs were planned to replace a multiply linked file is counted only when it is
asked, over the jobs pushed since the last count.  A retry may have replaced the
destination of a job meanwhile.
-/

namespace Syq.Sched

open Syq.Lib List
open Syq.Results (Kind)

/-- What is read of a destination's entry. -/
structure Entry where
  kind : Kind
  nlink : Nat
  dev : Nat
  ino : Nat
  deriving DecidableEq

/-- The device and inode of a destination file other names may share. -/
def linkedIdentity (entry : Entry) : Option (Nat × Nat) :=
  if entry.kind = .file ∧ 1 < entry.nlink then some (entry.dev, entry.ino) else none

/-- The linked files that destinations name. -/
def identities (destinations : List (Option Entry)) : List (Option (Nat × Nat)) :=
  destinations.map fun destination => destination.bind linkedIdentity

@[simp]
theorem length_identities (dests : List (Option Entry)) :
    (identities dests).length = dests.length :=
  length_map _

structure Jobs where
  destinations : List (Option Entry)
  /-- How many of the first `named` jobs name each linked file; counts are 32-bit. -/
  names : Table (Nat × Nat) Nat
  named : Nat

namespace Jobs

def push (jobs : Jobs) (destination : Option Entry) : Jobs :=
  { jobs with destinations := jobs.destinations ++ [destination] }

def bump (names : Table (Nat × Nat) Nat) (identity : Nat × Nat) : Table (Nat × Nat) Nat :=
  names.insert identity (((names.lookup identity).getD 0 + 1) % 2 ^ 32)

/-- Count the destinations of the jobs before `stop` not yet counted. -/
def nameDestinations (jobs : Jobs) (stop : Nat) : Jobs :=
  if stop ≤ jobs.named then jobs
  else { jobs with
    names := ((identities ((jobs.destinations.take stop).drop jobs.named)).reduceOption).foldl
      bump jobs.names
    named := stop }

/-- A name still counts toward the file it was planned to replace. -/
def setDestination (jobs : Jobs) (idx : Nat) (entry : Entry) : Option Jobs := do
  let destination ← jobs.destinations[idx]?
  let jobs := if (destination.bind linkedIdentity).isSome then jobs.nameDestinations (idx + 1)
    else jobs
  return { jobs with destinations := jobs.destinations.set idx (some entry) }

def destinationNames (jobs : Jobs) (idx : Nat) : Option (Nat × Jobs) := do
  let jobs := jobs.nameDestinations jobs.destinations.length
  let destination ← jobs.destinations[idx]?
  return (((destination.bind linkedIdentity).bind fun identity =>
    jobs.names.lookup identity).getD 1, jobs)

end Jobs

/-! ## Runs -/

inductive Call where
  | push (destination : Option Entry)
  | setDestination (idx : Nat) (entry : Entry)
  | destinationNames (idx : Nat)

/-- Whether a call does more than ask. -/
def Call.changes : Call → Bool
  | .destinationNames _ => false
  | _ => true

/-- The jobs, with the destinations they were planned for. -/
structure History where
  jobs : Jobs
  planned : List (Option Entry)

namespace History

def start : History :=
  ⟨⟨[], ∅, 0⟩, []⟩

def step (state : History) : Call → Option History
  | .push destination =>
    some ⟨state.jobs.push destination, state.planned ++ [destination]⟩
  | .setDestination idx entry =>
    (state.jobs.setDestination idx entry).map fun jobs => { state with jobs }
  | .destinationNames idx =>
    (state.jobs.destinationNames idx).map fun answer => { state with jobs := answer.2 }

/-- What the jobs were planned for, and what their destinations are. -/
def plan (state : History) : List (Option Entry) × List (Option Entry) :=
  (state.planned, state.jobs.destinations)

/-- What a call does to the plan and the destinations; asking does nothing. -/
def replan (plan : List (Option Entry) × List (Option Entry)) :
    Call → List (Option Entry) × List (Option Entry)
  | .push destination => (plan.1 ++ [destination], plan.2 ++ [destination])
  | .setDestination idx entry => (plan.1, plan.2.set idx (some entry))
  | .destinationNames _ => plan

/-- A multiply linked file takes the place of a destination only if it was planned for some
job, and if the destination is multiply linked itself.  The counts do not overflow. -/
def Meets (plan : List (Option Entry) × List (Option Entry)) : Call → Prop
  | .push _ => plan.1.length + 1 < 2 ^ 32
  | .setDestination idx entry => (linkedIdentity entry).isSome →
      linkedIdentity entry ∈ identities plan.1 ∧ (identities plan.2)[idx]?.join.isSome
  | .destinationNames _ => True

instance (plan : List (Option Entry) × List (Option Entry)) (call : Call) :
    Decidable (Meets plan call) :=
  match call with
  | .push _ => inferInstanceAs (Decidable (_ < _))
  | .setDestination _ _ => inferInstanceAs (Decidable (_ → _))
  | .destinationNames _ => .isTrue trivial

/-- Each call of a run meets the condition when it is made. -/
def AllMeet (plan : List (Option Entry) × List (Option Entry)) : List Call → Prop
  | [] => True
  | call :: rest => Meets plan call ∧ AllMeet (replan plan call) rest

instance decidableAllMeet : ∀ plan calls, Decidable (AllMeet plan calls)
  | _, [] => .isTrue trivial
  | plan, call :: rest =>
    have := decidableAllMeet (replan plan call) rest
    inferInstanceAs (Decidable (_ ∧ _))

/-- Questions neither meet nor break the condition. -/
theorem allMeet_changes (plan : List (Option Entry) × List (Option Entry)) (calls : List Call) :
    AllMeet plan (calls.filter Call.changes) ↔ AllMeet plan calls := by
  induction calls generalizing plan with
  | nil => rfl
  | cons call rest ih =>
    cases call with
    | push | setDestination => exact and_congr_right fun _ => ih _
    | destinationNames idx => exact (ih plan).trans (iff_of_eq (true_and _)).symm

/-! ## The counts -/

/-- The count of a file; a file without one counts as zero. -/
def named (names : Table (Nat × Nat) Nat) (identity : Nat × Nat) : Nat :=
  (names.lookup identity).getD 0

theorem named_bump {names : Table (Nat × Nat) Nat} {identity : Nat × Nat}
    (small : named names identity + 1 < 2 ^ 32) (other : Nat × Nat) :
    named (Jobs.bump names identity) other = named names other + [identity].count other := by
  unfold named Jobs.bump
  by_cases same : other = identity
  · subst same
    rw [Finmap.lookup_insert, count_singleton_self]
    exact Nat.mod_eq_of_lt small
  · rw [Finmap.lookup_insert_of_ne _ same, count_singleton, if_neg (by simpa using Ne.symm same)]
    rfl

theorem named_foldl {items : List (Nat × Nat)} {names : Table (Nat × Nat) Nat}
    (small : ∀ identity, named names identity + items.count identity < 2 ^ 32)
    (other : Nat × Nat) :
    named (items.foldl Jobs.bump names) other = named names other + items.count other := by
  induction items generalizing names with
  | nil => rfl
  | cons identity rest ih =>
    have first := small identity
    rw [count_cons_self] at first
    have bumped : ∀ file, named (Jobs.bump names identity) file = _ := named_bump (by omega)
    have split : ∀ file, (identity :: rest).count file = [identity].count file + rest.count file :=
      fun file => @count_append _ _ file [identity] rest
    rw [foldl_cons, ih, bumped, split, Nat.add_assoc]
    intro file
    rw [bumped, Nat.add_assoc, ← split]
    exact small file

/-- The counts, with the destinations not yet counted, are those of the plan. -/
structure Sound (state : History) : Prop where
  inside : state.jobs.named ≤ state.jobs.destinations.length
  small : state.planned.length < 2 ^ 32
  balance : ∀ identity, named state.jobs.names identity +
    ((identities state.jobs.destinations).drop state.jobs.named).count (some identity) =
      (identities state.planned).count (some identity)
  planned : ∀ identity, some identity ∈ identities state.jobs.destinations →
    some identity ∈ identities state.planned

variable {state : History}

@[simp]
theorem destinations_nameDestinations (jobs : Jobs) (stop : Nat) :
    (jobs.nameDestinations stop).destinations = jobs.destinations := by
  unfold Jobs.nameDestinations
  split_ifs <;> rfl

variable (sound : state.Sound)

include sound

theorem Sound.nameDestinations {stop : Nat} (inside : stop ≤ state.jobs.destinations.length) :
    Sound ⟨state.jobs.nameDestinations stop, state.planned⟩ ∧
      stop ≤ (state.jobs.nameDestinations stop).named := by
  unfold Jobs.nameDestinations
  split_ifs with done
  · exact ⟨sound, done⟩
  · generalize counted : identities ((state.jobs.destinations.take stop).drop
      state.jobs.named) = slice
    have split : (identities state.jobs.destinations).drop state.jobs.named =
        slice ++ (identities state.jobs.destinations).drop stop := by
      rw [← counted, identities, identities, map_drop, map_take, drop_take]
      conv_lhs => rw [← take_append_drop (stop - state.jobs.named) (drop _ _), drop_drop,
        Nat.add_sub_cancel' (Nat.le_of_not_le done)]
    have balance : ∀ identity, named state.jobs.names identity +
        slice.reduceOption.count identity +
          ((identities state.jobs.destinations).drop stop).count (some identity) =
            (identities state.planned).count (some identity) := by
      intro identity
      have whole := sound.balance identity
      rw [split, count_append, ← Nat.add_assoc] at whole
      rwa [show slice.reduceOption.count identity = slice.count (some identity) from
        count_filterMap]
    refine ⟨{ sound with inside, balance := fun identity => ?_ }, le_refl _⟩
    rw [named_foldl, balance]
    intro file
    have bound := count_le_length (a := some file) (l := identities state.planned)
    have small := sound.small
    rw [← balance, length_identities] at bound
    omega

theorem Sound.push (dest : Option Entry) (small : state.planned.length + 1 < 2 ^ 32) :
    Sound ⟨state.jobs.push dest, state.planned ++ [dest]⟩ := by
  have concat : ∀ dests, identities (dests ++ [dest]) =
      identities dests ++ [dest.bind linkedIdentity] := fun _ => map_append
  constructor
  · simpa [Jobs.push] using Nat.le_succ_of_le sound.inside
  · simpa using small
  · intro identity
    dsimp only [Jobs.push]
    rw [concat, concat, drop_append_of_le_length (by simpa using sound.inside), count_append,
      count_append, ← sound.balance, Nat.add_assoc]
  · intro identity mem
    dsimp only [Jobs.push] at mem ⊢
    rw [concat, mem_append] at mem ⊢
    exact mem.imp_left (sound.planned identity)

/-- A destination that is replaced is counted already, or nothing linked takes its place. -/
theorem Sound.replace {idx : Nat} {entry : Entry}
    (known : (linkedIdentity entry).isSome → linkedIdentity entry ∈ identities state.planned)
    (counted : idx < state.jobs.named ∨ (identities state.jobs.destinations)[idx]? =
      some (linkedIdentity entry)) :
    Sound { state with jobs := { state.jobs with
      destinations := state.jobs.destinations.set idx (some entry) } } := by
  have replaced : identities (state.jobs.destinations.set idx (some entry)) =
      (identities state.jobs.destinations).set idx (linkedIdentity entry) := map_set
  refine { sound with inside := ?_, balance := ?_, planned := ?_ }
  · exact sound.inside.trans_eq length_set.symm
  · intro identity
    rw [replaced, ← sound.balance]
    rcases counted with counted | same
    · rw [drop_set_of_lt counted]
    · rcases List.getElem?_eq_some_iff.mp same with ⟨inside, same⟩
      rw [← same, set_getElem_self]
  · intro identity mem
    rw [replaced] at mem
    rcases mem_or_eq_of_mem_set mem with old | new
    · exact sound.planned identity old
    · rw [new]
      exact known (by rw [← new]; rfl)

theorem Sound.step {call : Call} {next : History}
    (meets : Meets state.plan call) (stepped : state.step call = some next) : next.Sound := by
  cases call with
  | push dest =>
    cases stepped
    exact sound.push dest meets
  | setDestination idx entry =>
    rcases Option.map_eq_some_iff.mp stepped with ⟨jobs, set, rfl⟩
    rcases Option.bind_eq_some_iff.mp set with ⟨dest, found, set⟩
    have current : (identities state.jobs.destinations)[idx]? =
        some (dest.bind linkedIdentity) := by
      rw [identities, getElem?_map, found]
      rfl
    cases set
    split_ifs with linked
    · rcases sound.nameDestinations (List.getElem?_eq_some_iff.mp found).1 with ⟨named, counted⟩
      exact named.replace (fun isLinked => (meets isLinked).1) (.inl counted)
    · refine sound.replace (fun isLinked => (meets isLinked).1) ?_
      rw [Option.not_isSome_iff_eq_none] at linked
      by_cases isLinked : (linkedIdentity entry).isSome
      · have was : (identities state.jobs.destinations)[idx]?.join.isSome := (meets isLinked).2
        rw [current, linked] at was
        cases was
      · rw [current, linked, Option.not_isSome_iff_eq_none.mp isLinked]
        exact .inr rfl
  | destinationNames idx =>
    rcases Option.map_eq_some_iff.mp stepped with ⟨answer, asked, rfl⟩
    rcases Option.bind_eq_some_iff.mp asked with ⟨dest, -, given⟩
    cases given
    exact (sound.nameDestinations (Nat.le_refl _)).1

omit sound

/-! ## Answers -/

/-- What a job is told, from the plan and the destinations alone. -/
def answer (planned destinations : List (Option Entry)) (idx : Nat) : Option Nat :=
  (identities destinations)[idx]?.map fun linked =>
    linked.elim 1 fun identity => (identities planned).count (some identity)

theorem Sound.destinationNames (sound : state.Sound) (idx : Nat) :
    (state.jobs.destinationNames idx).map Prod.fst =
      answer state.planned state.jobs.destinations idx := by
  rcases sound.nameDestinations (Nat.le_refl _) with ⟨counted, all⟩
  unfold Jobs.destinationNames answer
  simp only [destinations_nameDestinations, Option.bind_eq_bind]
  cases found : state.jobs.destinations[idx]? with
  | none => simp [identities, found]
  | some dest =>
    simp only [identities, getElem?_map, found, Option.map_some, Option.bind_some]
    cases linked : dest.bind linkedIdentity with
    | none => rfl
    | some identity =>
      have planned := count_pos_iff.mpr (sound.planned identity
        (mem_map.mpr ⟨dest, mem_of_getElem? found, linked⟩))
      have balance := counted.balance identity
      rw [drop_of_length_le (by simpa using all)] at balance
      rw [← balance] at planned
      change _ = some ((identities state.planned).count (some identity))
      rw [← balance]
      unfold named at planned ⊢
      cases lookup : (state.jobs.nameDestinations _).names.lookup identity with
      | none => simp [lookup] at planned
      | some count => simp [lookup]

theorem plan_of_step {call : Call} {next : History} (stepped : state.step call = some next) :
    next.plan = replan state.plan call := by
  cases call with
  | push dest =>
    cases stepped
    rfl
  | setDestination idx entry =>
    rcases Option.map_eq_some_iff.mp stepped with ⟨jobs, set, rfl⟩
    rcases Option.bind_eq_some_iff.mp set with ⟨dest, -, set⟩
    cases set
    split_ifs
    · simp [plan, replan]
    · rfl
  | destinationNames idx =>
    rcases Option.map_eq_some_iff.mp stepped with ⟨answer, asked, rfl⟩
    rcases Option.bind_eq_some_iff.mp asked with ⟨dest, -, given⟩
    cases given
    exact congrArg (Prod.mk _) (destinations_nameDestinations _ _)

theorem Sound.run {calls : List Call} {last : History} (sound : state.Sound)
    (meets : AllMeet state.plan calls) (run : calls.foldlM History.step state = some last) :
    last.Sound ∧ last.plan = (calls.filter Call.changes).foldl replan state.plan := by
  induction calls generalizing state with
  | nil =>
    cases run
    exact ⟨sound, rfl⟩
  | cons call rest ih =>
    rcases Option.bind_eq_some_iff.mp (foldlM_cons.symm.trans run) with ⟨next, stepped, run⟩
    have moved := plan_of_step stepped
    rcases ih (sound.step meets.1 stepped) (moved ▸ meets.2) run with ⟨sound, same⟩
    refine ⟨sound, same.trans ?_⟩
    rw [moved]
    cases call <;> rfl

theorem sound_start : start.Sound :=
  ⟨Nat.le_refl _, by decide, fun _ => rfl, fun _ mem => nomatch mem⟩

/-- In every run whose replaced destinations meet the condition, a job of a linked file is
told how many jobs were planned for that file.  A run that makes the same changes and asks
other questions on the way gives the same answers. -/
theorem destination_names_count_planned {calls : List Call} {state : History}
    (meets : AllMeet start.plan calls) (run : calls.foldlM step start = some state) :
    (∀ idx identity, (identities state.jobs.destinations)[idx]? = some (some identity) →
      (state.jobs.destinationNames idx).map Prod.fst =
        some ((identities state.planned).count (some identity))) ∧
    ∀ (others : List Call) other, others.foldlM step start = some other →
      others.filter Call.changes = calls.filter Call.changes →
      ∀ idx, (other.jobs.destinationNames idx).map Prod.fst =
        (state.jobs.destinationNames idx).map Prod.fst := by
  rcases sound_start.run meets run with ⟨sound, plan⟩
  constructor
  · intro idx identity linked
    rw [sound.destinationNames, answer, linked]
    rfl
  · intro others other otherRun same idx
    -- The condition is one on the changes alone, so the other run meets it too.
    rw [← allMeet_changes, ← same, allMeet_changes] at meets
    rcases sound_start.run meets otherRun with ⟨otherSound, otherPlan⟩
    rw [same, ← plan] at otherPlan
    rw [sound.destinationNames, otherSound.destinationNames, (Prod.mk.inj otherPlan).1,
      (Prod.mk.inj otherPlan).2]

/-- A file of two names. -/
def shared : Entry :=
  ⟨.file, 2, 1, 7⟩

/-- Two jobs are planned for a shared file and a third for another.  The third is given the
shared file, the second a file of its own; the first is told of two jobs, whether or not the
third asked before. -/
theorem destination_names_count_planned_twice :
    let calls : List Call := [.push (some shared), .push (some shared),
      .push (some ⟨.file, 2, 1, 9⟩), .setDestination 2 shared, .setDestination 1 ⟨.file, 1, 1, 8⟩]
    (calls.foldlM step start).isSome ∧
      ∀ state, calls.foldlM step start = some state →
        (state.jobs.destinationNames 0).map Prod.fst = some 2 ∧
        ∀ other, (calls.take 3 ++ .destinationNames 2 :: calls.drop 3).foldlM step start =
            some other → (other.jobs.destinationNames 0).map Prod.fst = some 2 := by
  intro calls
  refine ⟨by decide +kernel, fun state run => ?_⟩
  have view : (calls.foldlM step start).map (fun state =>
      ((identities state.jobs.destinations)[0]?,
        (identities state.planned).count (some (1, 7)))) =
      some (some (some (1, 7)), 2) := by decide +kernel
  rw [run, Option.map_some, Option.some_inj, Prod.mk.injEq] at view
  have told := destination_names_count_planned (by decide +kernel) run
  have answered := told.1 0 (1, 7) view.1
  rw [view.2] at answered
  exact ⟨answered, fun other asked => (told.2 _ other asked rfl 0).trans answered⟩

/-- A job planned for nothing is given a linked file that another was planned for.  The
other is told of two jobs, or of one if it asked before. -/
theorem replaced_destination_is_counted :
    ([.push none, .push (some shared), .setDestination 0 shared].foldlM step start).bind
        (fun state => (state.jobs.destinationNames 1).map fun answer =>
          (answer.1, (identities state.planned).count (some (1, 7)))) = some (2, 1) ∧
      ([.push none, .push (some shared), .destinationNames 1, .setDestination 0 shared].foldlM
        step start).bind (fun state => (state.jobs.destinationNames 1).map Prod.fst) = some 1 := by
  decide +kernel

end History

end Syq.Sched
