import Syq.S3.Candidates

/-!
# Pruning a local destination spares what is kept

The walk keeps one invariant: a path it has seen is protected, or is found and its entries are
seen or on the stack.  When the stack is empty, every entry of a scope is therefore found unless
it is protected, and what is protected later keeps the directories above it.
-/

namespace Syq.S3

open Syq.Lib Plan List Option

section Tree

variable {dest : Destination} {directory path name : Bytes}

theorem below_child (isName : IsName name) : Below directory (child directory name) := by
  cases directory with
  | nil => exact .inl ⟨rfl, isName.1⟩
  | cons byte rest => exact .inr (mem_above_iff.mpr ⟨name, rfl⟩)

/-- What lies above an entry is its directory or lies above that. -/
theorem covers_of_below_child {upper : Bytes} (isName : IsName name)
    (below : Below upper (child directory name)) : Covers upper directory := by
  rcases below with ⟨rfl, -⟩ | higher
  · exact .inl rfl
  · cases directory with
    | nil => simp [child, above_eq_nil isName.2] at higher
    | cons byte rest =>
      have split : child (byte :: rest) name = (byte :: rest) ++ slash :: name := rfl
      rw [split, above_append_slash _ isName.2, mem_append, mem_singleton] at higher
      rcases higher with higher | same
      · exact .inr (.inr higher)
      · exact .inr (.inl same.symm)

theorem length_lt_child (isName : IsName name) :
    directory.length < (child directory name).length := by
  cases directory with
  | nil => exact length_pos_iff.mpr isName.1
  | cons byte rest =>
    have split : child (byte :: rest) name = (byte :: rest) ++ slash :: name := rfl
    rw [split]
    simp only [length_append, length_cons]
    omega

end Tree

/-! ## The invariant of the walk -/

section Invariant

variable {dest : Destination} {matcher : Bytes → Bool → Bool} {plan : Plan}
  {outside : Finset (Nat × Nat)}
variable {walk next : Walk} {path : Bytes} {begun : List Bytes}

/-- An entry that the walk has dealt with: it is protected, or it is found and its own entries
are pending. -/
def Handled (destination : Destination) (matcher : Bytes → Bool → Bool) (walk : Walk)
    (pending : Bytes → Prop) (path : Bytes) : Prop :=
  walk.plan.shields path = true ∨
    ∃ metadata, destination.metadata path = .ok (some metadata) ∧
      candidate path metadata ∈ walk.found ∧ recovery path = false ∧
      walk.plan.ignores path metadata.isDir matcher = false ∧
      (metadata.isDir = true → ∃ names, destination.readDirectory path = .ok names ∧
        ∀ name ∈ names, pending (child path name))

structure Invariant (destination : Destination) (matcher : Bytes → Bool → Bool) (plan : Plan)
    (outside : Finset (Nat × Nat)) (begun : List Bytes) (walk : Walk) (stack : List Bytes) :
    Prop where
  grows : plan.Grows walk.plan
  outside : outside ⊆ walk.identities
  begun : ∀ scope ∈ begun, scope ∈ walk.seen ∨ scope ∈ stack
  inScope : ∀ path, path ∈ walk.seen ∨ path ∈ stack → ∃ scope ∈ plan.scopes, Covers scope path
  found : ∀ found ∈ walk.found, found.path ∈ walk.seen ∧
    ∃ metadata, destination.metadata found.path = .ok (some metadata) ∧
      found = candidate found.path metadata
  handled : ∀ path ∈ walk.seen, path ∈ destination.entries →
    Handled destination matcher walk (fun other => other ∈ walk.seen ∨ other ∈ stack) path
  identified : ∀ path ∈ walk.seen, plan.Claims path → ∀ metadata,
    destination.metadata path = .ok (some metadata) → metadata.identity ∈ walk.identities

/-- What is handled stays handled when the walk goes on. -/
theorem Handled.mono {pending later : Bytes → Prop}
    (handled : Handled dest matcher walk pending path) (grows : walk.plan.Grows next.plan)
    (found : walk.found ⊆ next.found) (waits : ∀ other, pending other → later other) :
    Handled dest matcher next later path := by
  rcases handled with shields | ⟨metadata, present, mem, stays, selected, listed⟩
  · exact .inl (grows.shields shields)
  · refine .inr ⟨metadata, present, found mem, stays, ?_, ?_⟩
    · rw [grows.ignores]
      exact selected
    · intro isDir
      rcases listed isDir with ⟨names, read, pushed⟩
      exact ⟨names, read, fun name nameMem => waits _ (pushed name nameMem)⟩

/-- The part of the invariant that marking a path keeps: the path leaves the stack and is seen
instead. -/
theorem Invariant.visit {rest pushed : List Bytes}
    (inv : Invariant dest matcher plan outside begun walk (path :: rest))
    (grows : walk.plan.Grows next.plan) (seen : next.seen = insert path walk.seen)
    (identities : walk.identities ⊆ next.identities) (foundLe : walk.found ⊆ next.found)
    (inScope : ∀ other ∈ pushed, Covers path other)
    (found : ∀ found ∈ next.found, found ∈ walk.found ∨
      found.path = path ∧ ∃ metadata, dest.metadata path = .ok (some metadata) ∧
        found = candidate path metadata)
    (handled : path ∉ walk.seen → path ∈ dest.entries → Handled dest matcher next
      (fun other => other ∈ next.seen ∨ other ∈ pushed ++ rest) path)
    (identified : path ∉ walk.seen → plan.Claims path → ∀ metadata,
      dest.metadata path = .ok (some metadata) → metadata.identity ∈ next.identities) :
    Invariant dest matcher plan outside begun next (pushed ++ rest) := by
  have waits : ∀ other, other ∈ walk.seen ∨ other ∈ path :: rest →
      other ∈ next.seen ∨ other ∈ pushed ++ rest := by
    rw [seen]
    rintro other (mem | mem)
    · exact .inl (Finset.mem_insert_of_mem mem)
    · rcases mem_cons.mp mem with rfl | mem
      · exact .inl (Finset.mem_insert_self _ _)
      · exact .inr (mem_append_right _ mem)
  have before : ∀ other ∈ next.seen, other ∈ walk.seen ∨ other = path ∧ path ∉ walk.seen := by
    rw [seen]
    intro other mem
    by_cases known : other ∈ walk.seen
    · exact .inl known
    · have same := (Finset.mem_insert.mp mem).resolve_right known
      rw [same] at known
      exact .inr ⟨same, known⟩
  refine ⟨inv.grows.trans grows, inv.outside.trans identities,
    fun scope mem => waits scope (inv.begun scope mem), ?_, ?_, ?_, ?_⟩
  · have here := inv.inScope path (.inr (mem_cons_self ..))
    rintro other (mem | mem)
    · rcases before other mem with known | ⟨rfl, -⟩
      · exact inv.inScope other (.inl known)
      · exact here
    · rcases mem_append.mp mem with mem | mem
      · rcases here with ⟨scope, scopeMem, covers⟩
        exact ⟨scope, scopeMem, covers.trans (inScope other mem)⟩
      · exact inv.inScope other (.inr (mem_cons_of_mem _ mem))
  · intro one mem
    rcases found one mem with known | ⟨same, added⟩
    · rcases inv.found one known with ⟨oneSeen, shape⟩
      refine ⟨?_, shape⟩
      rw [seen]
      exact Finset.mem_insert_of_mem oneSeen
    · rw [same, seen]
      exact ⟨Finset.mem_insert_self _ _, added⟩
  · intro other mem entry
    rcases before other mem with known | ⟨rfl, fresh⟩
    · exact (inv.handled other known entry).mono grows foundLe waits
    · exact handled fresh entry
  · intro other mem claimed metadata present
    rcases before other mem with known | ⟨rfl, fresh⟩
    · exact identities (inv.identified other known claimed metadata present)
    · exact identified fresh claimed metadata present

theorem covers_child {names : List Bytes} {other : Bytes}
    (mem : other ∈ (names.map (child path)).reverse) : Covers path other := by
  rw [List.mem_reverse, List.mem_map] at mem
  rcases mem with ⟨name, -, rfl⟩
  cases path with
  | nil => exact .inl rfl
  | cons byte rest => exact .inr (.inr (mem_above_iff.mpr ⟨name, rfl⟩))

/-- A claimed path is kept when the walk comes to it, so its inode is remembered. -/
theorem Invariant.identity_mem {stack : List Bytes}
    (inv : Invariant dest matcher plan outside begun walk stack)
    (claimed : plan.Claims path) (metadata : RootMetadata) :
    metadata.identity ∈ ((walk.mark path).identify path metadata).identities := by
  apply Walk.identity_mem_identify
  exact keeps_iff.mpr (.inl (inv.grows.claims path claimed))

theorem invariant_visit {rest pushed : List Bytes}
    (inv : Invariant dest matcher plan outside begun walk (path :: rest))
    (ran : visit dest matcher walk path = .ok (next, pushed)) :
    Invariant dest matcher plan outside begun next (pushed ++ rest) := by
  have noneBelow : ∀ other ∈ ([] : List Bytes), Covers path other := by
    intro other mem
    cases mem
  cases visited ran with
  | known mem =>
    refine inv.visit (Plan.Grows.refl _) (Finset.insert_eq_of_mem mem).symm
      (Finset.Subset.refl _) (List.Subset.refl _) noneBelow (fun _ found => .inl found) ?_ ?_
    · exact fun fresh => absurd mem fresh
    · exact fun fresh => absurd mem fresh
  | gone fresh absent =>
    refine inv.visit (Plan.Grows.refl _) rfl (Finset.Subset.refl _) (List.Subset.refl _)
      noneBelow (fun _ found => .inl found) ?_ ?_
    · exact fun _ entry => absurd absent (dest.present entry)
    · intro _ _ metadata present
      rw [absent] at present
      cases present
  | @shielded fresh metadata present shields =>
    refine inv.visit (by simpa using Plan.Grows.refl _) (by simp)
      (Walk.identities_identify metadata (walk.mark path) path) (by simp) noneBelow
      (fun _ found => .inl (by simpa using found)) ?_ ?_
    · refine fun _ _ => .inl ?_
      rw [Walk.plan_identify]
      exact shields
    · intro _ claimed other otherPresent
      rw [present] at otherPresent
      cases otherPresent
      exact inv.identity_mem claimed metadata
  | @turnedAway fresh metadata present =>
    have planEq : (((walk.mark path).identify path metadata).protect path).plan =
        walk.plan.protect path := by
      simp [Walk.protect]
    refine inv.visit ?_ (by simp [Walk.protect])
      (Walk.identities_identify metadata (walk.mark path) path)
      (by simp [Walk.protect]) noneBelow
      (fun _ found => .inl (by simpa [Walk.protect] using found)) ?_ ?_
    · rw [planEq]
      exact grows_protect walk.plan path
    · refine fun _ _ => .inl ?_
      rw [planEq]
      exact shields_protect walk.plan path
    · intro _ claimed other otherPresent
      rw [present] at otherPresent
      cases otherPresent
      exact inv.identity_mem claimed metadata
  | @added fresh metadata names present stays selected listed leaf =>
    have foundEq : (((walk.mark path).identify path metadata).add
        (candidate path metadata)).found = walk.found ++ [candidate path metadata] := by
      simp [Walk.add]
    refine inv.visit (by simpa [Walk.add] using Plan.Grows.refl _)
      (by simp [Walk.add])
      (Walk.identities_identify metadata (walk.mark path) path) ?_ (fun _ mem => covers_child mem)
      ?_ ?_ ?_
    · rw [foundEq]
      exact subset_append_left _ _
    · intro one mem
      rw [foundEq, mem_append, mem_singleton] at mem
      rcases mem with known | rfl
      · exact .inl known
      · exact .inr ⟨rfl, metadata, present, rfl⟩
    · refine fun _ _ => .inr ⟨metadata, present, ?_, stays, ?_, ?_⟩
      · exact mem_append_right _ (mem_singleton_self _)
      · simpa [Walk.add] using selected
      · intro isDir
        refine ⟨names, listed isDir, fun name mem => .inr (mem_append_left _ ?_)⟩
        rw [mem_reverse]
        exact mem_map_of_mem mem
    · intro _ claimed other otherPresent
      rw [present] at otherPresent
      cases otherPresent
      exact inv.identity_mem claimed metadata

/-- Walking one more scope. -/
theorem invariant_walkScope {scope : Bytes} (mem : scope ∈ plan.scopes)
    (inv : Invariant dest matcher plan outside begun walk [])
    (ran : walkScope dest matcher walk scope = .ok next) :
    Invariant dest matcher plan outside (begun ++ [scope]) next [] := by
  have started : Invariant dest matcher plan outside (begun ++ [scope]) walk [scope] := by
    refine ⟨inv.grows, inv.outside, ?_, ?_, inv.found, ?_, inv.identified⟩
    · intro other otherMem
      rcases mem_append.mp otherMem with old | new
      · exact (inv.begun other old).imp_right fun absent => by cases absent
      · exact .inr new
    · rintro other (seen | new)
      · exact inv.inScope other (.inl seen)
      · rw [mem_singleton] at new
        exact ⟨scope, mem, new ▸ Covers.refl scope⟩
    · intro other seen entry
      refine (inv.handled other seen entry).mono (Plan.Grows.refl _) (List.Subset.refl _) ?_
      exact fun _ pending => pending.imp_right fun absent => by cases absent
  refine drain_invariant invariant_visit started (eq_some_iff_get_eq.mpr ⟨?_, ran⟩)
  exact drain_visit_isSome dest matcher walk scope

/-- Walking all scopes. -/
theorem invariant_walkScopes {scopes : List Bytes} (mem : ∀ scope ∈ scopes, scope ∈ plan.scopes)
    (inv : Invariant dest matcher plan outside begun walk [])
    (ran : scopes.foldlM (walkScope dest matcher) walk = .ok next) :
    Invariant dest matcher plan outside (begun ++ scopes) next [] := by
  refine foldlM_rule ran (by rwa [append_nil]) fun before walked first => ?_
  rw [← append_assoc]
  exact invariant_walkScope (mem _ (before.subset (by simp))) walked first

theorem invariant_start : Invariant dest matcher plan outside []
    ⟨plan, outside, [], ∅⟩ [] where
  grows := Plan.Grows.refl plan
  outside := Finset.Subset.refl _
  begun := by simp
  inScope := by simp
  found := by simp
  handled := by simp
  identified := by simp

/-- With an empty stack, an entry of a scope is protected or has been seen. -/
theorem Invariant.seen_of_scope
    (inv : Invariant dest matcher plan outside begun walk []) {scope : Bytes}
    (mem : scope ∈ begun) (entry : path ∈ dest.entries) (covers : Covers scope path) :
    path ∈ walk.seen ∨ walk.plan.shields path = true := by
  induction length : path.length using Nat.strong_induction_on generalizing path with
  | _ size ih =>
    rcases covers.eq_or_below with rfl | below
    · exact .inl ((inv.begun _ mem).resolve_right (by simp))
    rcases dest.parent entry below.ne_nil with
      ⟨dir, name, isName, rfl, dirEntry, isDir, lists⟩
    have shorter : dir.length < size := by
      rw [← length]
      exact length_lt_child isName
    have beneath := (@below_child dir name isName).covers
    rcases ih _ shorter dirEntry (covers_of_below_child isName below) rfl
      with seen | shields
    · rcases inv.handled dir seen dirEntry with
        shields | ⟨metadata, present, -, -, -, listed⟩
      · exact .inr (shields_of_covers shields beneath)
      · rcases listed (isDir metadata present) with ⟨names, read, pending⟩
        exact .inl ((pending name (lists names read)).resolve_right (by simp))
    · exact .inr (shields_of_covers shields beneath)

end Invariant

/-! ## Aliases -/

section Aliases

variable {dest : Destination} {identities : Finset (Nat × Nat)}

theorem lookUp_spec {next : Finset (Nat × Nat)} {path : Bytes}
    (ran : lookUp dest identities path = .ok next) :
    identities ⊆ next ∧ ∀ metadata, dest.metadata path = .ok (some metadata) →
      metadata.identity ∈ next := by
  rcases bind_eq_ok_iff.mp ran with ⟨components, -, ran⟩
  rcases bind_eq_ok_iff.mp ran with ⟨answer, looked, ran⟩
  cases answer with
  | none =>
    cases ran
    refine ⟨Finset.Subset.refl _, fun metadata present => ?_⟩
    rw [looked] at present
    cases present
  | some found =>
    cases ran
    refine ⟨Finset.subset_insert _ _, fun metadata present => ?_⟩
    rw [looked] at present
    cases present
    exact Finset.mem_insert_self _ _

theorem lookUps_spec {paths : List Bytes} {final : Finset (Nat × Nat)}
    (ran : paths.foldlM (lookUp dest) identities = .ok final) :
    identities ⊆ final ∧ ∀ path ∈ paths, ∀ metadata,
      dest.metadata path = .ok (some metadata) → metadata.identity ∈ final := by
  refine foldlM_rule ran ⟨by simp, by simp⟩ ?_
  rintro done path found next - ⟨grown, known⟩ first
  rcases lookUp_spec first with ⟨more, identified⟩
  refine ⟨grown.trans more, forall_mem_append.mpr ⟨?_, forall_mem_singleton.mpr identified⟩⟩
  exact fun other mem metadata present => more (known other mem metadata present)

/-- The inode of every claim outside the scopes is known before the walk. -/
theorem outsideIdentities_spec {plan : Plan}
    (ran : outsideIdentities dest plan = .ok identities) {path : Bytes}
    (claimed : plan.Claims path) (outside : ∀ scope ∈ plan.scopes, ¬ Covers scope path)
    {metadata : RootMetadata} (present : dest.metadata path = .ok (some metadata)) :
    metadata.identity ∈ identities := by
  refine (lookUps_spec ran).2 path ?_ metadata present
  rw [List.mem_filter, mem_claimedPaths]
  refine ⟨claimed, ?_⟩
  rw [Bool.not_eq_true', List.any_eq_false]
  intro scope mem
  rw [beneath_isSome_iff]
  exact outside scope mem

/-- The pass over the found entries keeps every one whose inode is known. -/
theorem protectAliases_spec (identities : Finset (Nat × Nat)) (found : List Candidate)
    (plan : Plan) :
    plan.Grows (found.foldl (protectAlias identities) plan) ∧
      ∀ one ∈ found, one.identity ∈ identities →
        (found.foldl (protectAlias identities) plan).keeps one.path = true := by
  induction found generalizing plan with
  | nil => exact ⟨Plan.Grows.refl plan, by simp⟩
  | cons first rest ih =>
    rcases ih (protectAlias identities plan first) with ⟨grows, keeps⟩
    have first_grows : plan.Grows (protectAlias identities plan first) := by
      unfold protectAlias
      split_ifs
      · exact grows_protect plan first.path
      · exact Plan.Grows.refl plan
    refine ⟨first_grows.trans grows, ?_⟩
    intro one mem known
    rcases mem_cons.mp mem with rfl | mem
    · apply grows.keeps
      unfold protectAlias
      split_ifs with free
      · exact keeps_iff.mpr (.inr (.inr (shields_protect plan one.path)))
      · simpa [known] using free
    · exact keeps one mem known

end Aliases

/-! ## The candidates -/

/-- What pruning owes to the entries of a destination.  The plan of the result holds the given
plan and what the walk protected. -/
structure Spared (destination : Destination) (matcher : Bytes → Bool → Bool) (plan : Plan)
    (pruned : Pruned) : Prop where
  grows : plan.Grows pruned.plan
  entries : ∀ found ∈ pruned.candidates, ∃ metadata,
    destination.metadata found.path = .ok (some metadata) ∧ found = candidate found.path metadata
  unclaimed : ∀ found ∈ pruned.candidates, ¬ pruned.plan.Claims found.path
  notAbove : ∀ found ∈ pruned.candidates, ∀ path,
    pruned.plan.Claims path ∨ path ∈ pruned.plan.shielded → ¬ Below found.path path
  notProtected : ∀ found ∈ pruned.candidates, ∀ path ∈ pruned.plan.shielded,
    ¬ Covers path found.path
  notRecovery : ∀ found ∈ pruned.candidates, ∀ path, Covers path found.path →
    recovery path = false
  notIgnored : ∀ found ∈ pruned.candidates, ∀ path, Covers path found.path → ∀ metadata,
    destination.metadata path = .ok (some metadata) →
      plan.ignores path metadata.isDir matcher = false
  noAlias : ∀ path, plan.Claims path →
    path ∈ pruned.seen ∨ (∀ scope ∈ plan.scopes, ¬ Covers scope path) → ∀ metadata,
      destination.metadata path = .ok (some metadata) →
        ∀ found ∈ pruned.candidates, found.identity ≠ metadata.identity
  looked : ∀ path ∈ destination.entries, ∀ scope ∈ plan.scopes, Covers scope path →
    path ∈ pruned.seen ∨ pruned.plan.shields path = true
  inScope : ∀ found ∈ pruned.candidates, ∃ scope ∈ plan.scopes, Covers scope found.path
  closed : ∀ found ∈ pruned.candidates, ∀ path ∈ destination.entries, Below found.path path →
    ∃ other ∈ pruned.candidates, other.path = path
  emptied : ∀ order : List Candidate, order.Perm pruned.candidates →
    order.Pairwise (fun first second => second.depth ≤ first.depth) →
      ∀ before found after, order = before ++ found :: after →
        ∀ path ∈ destination.entries, Below found.path path → ∃ other ∈ before, other.path = path

section Candidates

variable {destination : Destination} {matcher : Bytes → Bool → Bool} {plan : Plan}
  {pruned : Pruned}

/-- A finished walk, and the plan after the pass over its entries. -/
structure Finished (destination : Destination) (matcher : Bytes → Bool → Bool) (plan : Plan)
    (pruned : Pruned) where
  outside : Finset (Nat × Nat)
  walk : Walk
  lookedUp : outsideIdentities destination plan = .ok outside
  invariant : Invariant destination matcher plan outside plan.scopes walk []
  seen : pruned.seen = walk.seen
  grows : walk.plan.Grows pruned.plan
  aliases : ∀ one ∈ walk.found, one.identity ∈ walk.identities →
    pruned.plan.keeps one.path = true
  candidates : ∀ one, one ∈ pruned.candidates ↔
    one ∈ walk.found ∧ pruned.plan.keeps one.path ≠ true

theorem exists_finished (ran : deletionCandidates destination matcher plan = .ok pruned) :
    Nonempty (Finished destination matcher plan pruned) := by
  rcases bind_eq_ok_iff.mp ran with ⟨outside, lookedUp, ran⟩
  rcases bind_eq_ok_iff.mp ran with ⟨walk, walked, ran⟩
  cases ran
  have inv := invariant_walkScopes (fun _ mem => mem) invariant_start walked
  have aliases := protectAliases_spec walk.identities walk.found walk.plan
  refine ⟨⟨outside, walk, lookedUp, inv, rfl, aliases.1, aliases.2, ?_⟩⟩
  intro one
  simp

namespace Finished

variable (finished : Finished destination matcher plan pruned) {found : Candidate} {path : Bytes}

include finished

theorem free (mem : found ∈ pruned.candidates) : pruned.plan.keeps found.path ≠ true :=
  ((finished.candidates found).mp mem).2

theorem not_shields (mem : found ∈ pruned.candidates) (covers : Covers path found.path) :
    pruned.plan.shields path ≠ true := by
  intro shields
  apply finished.free mem
  exact keeps_iff.mpr (.inr (.inr (shields_of_covers shields covers)))

/-- A seen entry that the plan does not protect is found, and nothing turned it away. -/
theorem found_of_seen (seen : path ∈ finished.walk.seen) (entry : path ∈ destination.entries)
    (open' : pruned.plan.shields path ≠ true) :
    ∃ metadata, destination.metadata path = .ok (some metadata) ∧
      candidate path metadata ∈ finished.walk.found ∧ recovery path = false ∧
      plan.ignores path metadata.isDir matcher = false := by
  rcases finished.invariant.handled path seen entry with
    shields | ⟨metadata, present, found, stays, selected, -⟩
  · exact absurd (finished.grows.shields shields) open'
  · refine ⟨metadata, present, found, stays, ?_⟩
    rw [← finished.invariant.grows.ignores]
    exact selected

theorem seen_of_scope {scope : Bytes} (mem : scope ∈ plan.scopes)
    (entry : path ∈ destination.entries) (covers : Covers scope path) :
    path ∈ finished.walk.seen ∨ pruned.plan.shields path = true :=
  (finished.invariant.seen_of_scope mem entry covers).imp_right finished.grows.shields

section

variable (mem : found ∈ pruned.candidates)

include mem

theorem metadata_of_mem :
    ∃ metadata, destination.metadata found.path = .ok (some metadata) ∧
      found = candidate found.path metadata :=
  (finished.invariant.found found ((finished.candidates found).mp mem).1).2

theorem seen_of_mem : found.path ∈ finished.walk.seen :=
  (finished.invariant.found found ((finished.candidates found).mp mem).1).1

theorem entry_of_mem : found.path ∈ destination.entries := by
  rcases finished.metadata_of_mem mem with ⟨metadata, present, -⟩
  exact destination.mem_entries present

theorem scope_of_mem : ∃ scope ∈ plan.scopes, Covers scope found.path :=
  finished.invariant.inScope found.path (.inl (finished.seen_of_mem mem))

theorem not_recovery (covers : Covers path found.path) : recovery path = false := by
  rcases finished.found_of_seen (finished.seen_of_mem mem) (finished.entry_of_mem mem)
    (finished.not_shields mem (Covers.refl _)) with ⟨-, -, -, stays, -⟩
  cases left : recovery path with
  | false => rfl
  | true =>
    rw [recovery_of_covers left covers] at stays
    cases stays

theorem not_ignored (covers : Covers path found.path) {metadata : RootMetadata}
    (present : destination.metadata path = .ok (some metadata)) :
    plan.ignores path metadata.isDir matcher = false := by
  cases ignored : plan.ignores path metadata.isDir matcher with
  | false => rfl
  | true =>
    have entry := destination.mem_entries present
    rcases scope_of_ignores ignored with ⟨scope, scopeMem, inScope⟩
    have open' := finished.not_shields mem covers
    have seen := (finished.seen_of_scope scopeMem entry inScope).resolve_right open'
    rcases finished.found_of_seen seen entry open' with ⟨other, otherPresent, -, -, selected⟩
    rw [present] at otherPresent
    cases otherPresent
    rw [ignored] at selected
    cases selected

end

theorem identity_ne (claimed : plan.Claims path)
    (lookedUp : path ∈ pruned.seen ∨ ∀ scope ∈ plan.scopes, ¬ Covers scope path)
    {metadata : RootMetadata} (present : destination.metadata path = .ok (some metadata))
    (mem : found ∈ pruned.candidates) : found.identity ≠ metadata.identity := by
  intro same
  have known : metadata.identity ∈ finished.walk.identities := by
    rcases lookedUp with seen | outside
    · rw [finished.seen] at seen
      exact finished.invariant.identified path seen claimed metadata present
    · exact finished.invariant.outside
        (outsideIdentities_spec finished.lookedUp claimed outside present)
  apply finished.free mem
  exact finished.aliases found ((finished.candidates found).mp mem).1 (same ▸ known)

variable (mem : found ∈ pruned.candidates)

include mem

/-- Everything below a candidate is a candidate. -/
theorem mem_of_below (entry : path ∈ destination.entries)
    (below : Below found.path path) : ∃ other ∈ pruned.candidates, other.path = path := by
  have free := not_keeps_of_below (finished.free mem) below
  have open' : pruned.plan.shields path ≠ true := fun shields =>
    free (keeps_iff.mpr (.inr (.inr shields)))
  rcases finished.scope_of_mem mem with ⟨scope, scopeMem, covers⟩
  have seen := (finished.seen_of_scope scopeMem entry (covers.trans below.covers)).resolve_right
    open'
  rcases finished.found_of_seen seen entry open' with ⟨metadata, -, isFound, -⟩
  exact ⟨candidate path metadata, (finished.candidates _).mpr ⟨isFound, free⟩, rfl⟩

/-- The root of the destination is no candidate, since it could only be a scope. -/
theorem path_ne_nil : found.path ≠ [] := by
  intro empty
  rcases finished.scope_of_mem mem with ⟨scope, scopeMem, covers⟩
  have same : scope = found.path := by
    rw [empty] at covers ⊢
    rcases covers with rfl | rfl | higher
    · rfl
    · rfl
    · cases higher
  apply finished.free mem
  refine keeps_iff.mpr (.inl (finished.grows.claims _ (finished.invariant.grows.claims _ ?_)))
  rw [← same]
  exact .inl (plan.scope_mem_claims scope scopeMem)

theorem depth_lt_of_below {other : Candidate}
    (otherMem : other ∈ pruned.candidates) (below : Below found.path other.path) :
    found.depth < other.depth := by
  rcases finished.metadata_of_mem mem with ⟨metadata, -, shape⟩
  rcases finished.metadata_of_mem otherMem with ⟨otherMetadata, -, otherShape⟩
  have higher := below.resolve_left fun empty => finished.path_ne_nil mem empty.1
  rcases mem_above_iff.mp higher with ⟨rest, split⟩
  rw [shape, otherShape, candidate, candidate, split, count_append, count_cons_self]
  dsimp only
  omega

omit mem

/-- Of two entries in a deepest-first order, the deeper one comes first. -/
theorem emptied {order : List Candidate} (perm : order.Perm pruned.candidates)
    (deepest : order.Pairwise fun first second => second.depth ≤ first.depth)
    {before after : List Candidate} (split : order = before ++ found :: after)
    (entry : path ∈ destination.entries) (below : Below found.path path) :
    ∃ other ∈ before, other.path = path := by
  have mem : found ∈ pruned.candidates := by
    rw [← perm.mem_iff, split]
    simp
  rcases finished.mem_of_below mem entry below with ⟨other, otherMem, rfl⟩
  have deeper := finished.depth_lt_of_below mem otherMem below
  rw [← perm.mem_iff, split] at otherMem
  rw [split, pairwise_append, pairwise_cons] at deepest
  rcases mem_append.mp otherMem with early | late
  · exact ⟨other, early, rfl⟩
  · rcases mem_cons.mp late with rfl | late
    · exact absurd deeper (Nat.lt_irrefl _)
    · exact absurd (deepest.2.1.1 other late) (Nat.not_le.mpr deeper)

end Finished

/-- Pruning removes nothing that is claimed, protected, ignored, left to be recovered or another
name of a claimed entry, and whatever it removes it can empty first. -/
theorem pruning_spares_kept_entries (calls : List Plan.Call)
    (ran : deletionCandidates destination matcher (Plan.build calls) = .ok pruned) :
    Spared destination matcher (Plan.build calls) pruned := by
  rcases exists_finished ran with ⟨finished⟩
  constructor
  case grows => exact finished.invariant.grows.trans finished.grows
  case entries => exact fun found mem => finished.metadata_of_mem mem
  case unclaimed =>
    exact fun found mem claimed => finished.free mem (keeps_iff.mpr (.inl claimed))
  case notAbove =>
    intro found mem path claimed below
    have isClaim : pruned.plan.Claims path :=
      claimed.elim id fun shielded => .inl (pruned.plan.shielded_mem_claims path shielded)
    exact finished.free mem (keeps_iff.mpr (.inr (.inl ⟨path, isClaim, below⟩)))
  case notProtected =>
    intro found mem path shielded covers
    exact finished.not_shields mem (Covers.refl _) (shields_iff.mpr ⟨path, shielded, covers⟩)
  case notRecovery => exact fun found mem path covers => finished.not_recovery mem covers
  case notIgnored =>
    exact fun found mem path covers metadata present => finished.not_ignored mem covers present
  case noAlias =>
    exact fun path claimed lookedUp metadata present found mem =>
      finished.identity_ne claimed lookedUp present mem
  case looked =>
    intro path entry scope mem covers
    rw [finished.seen]
    exact finished.seen_of_scope mem entry covers
  case inScope => exact fun found mem => finished.scope_of_mem mem
  case closed => exact fun found mem path entry below => finished.mem_of_below mem entry below
  case emptied =>
    exact fun order perm deepest before found after split path entry below =>
      finished.emptied perm deepest split entry below

end Candidates

/-- A destination with a claimed file `a/k`, a second name `b` of it, and a directory `d` with a
file `x` that nothing claims. -/
def linkedEntries : List (Bytes × RootMetadata) :=
  [([], ⟨1, 1, 0, .directory⟩), ([97], ⟨1, 2, 0, .directory⟩), ([97, 47, 107], ⟨1, 3, 5, .other⟩),
    ([98], ⟨1, 3, 5, .other⟩), ([100], ⟨1, 4, 0, .directory⟩), ([100, 47, 120], ⟨1, 5, 7, .other⟩)]

def linkedNames (path : Bytes) : List Bytes :=
  if path = [] then [[97], [98], [100]]
  else if path = [97] then [[107]]
  else if path = [100] then [[120]]
  else []

def linked : Destination where
  metadata path := .ok (linkedEntries.lookup path)
  readDirectory path := .ok (linkedNames path)
  entries := (linkedEntries.map Prod.fst).toFinset
  mem_entries := by
    intro path metadata found
    by_contra absent
    have gone : linkedEntries.lookup path = none := by
      rw [List.lookup_eq_none_iff]
      rintro ⟨other, entry⟩ mem
      rw [bne_iff_ne]
      rintro rfl
      exact absent (List.mem_toFinset.mpr (List.mem_map_of_mem mem))
    rw [gone] at found
    cases found
  present := by
    intro path mem
    rw [List.mem_toFinset] at mem
    fin_cases mem <;> decide
  parent := by
    intro path mem nonempty
    have held : ∀ (directory : Bytes) (byte : UInt8) (metadata : RootMetadata), byte ≠ slash →
        linkedEntries.lookup directory = some metadata → metadata.isDir = true →
        directory ∈ linkedEntries.map Prod.fst → [byte] ∈ linkedNames directory →
        ∃ upper name, IsName name ∧ child directory [byte] = child upper name ∧
          upper ∈ (linkedEntries.map Prod.fst).toFinset ∧
          (∀ metadata', Except.ok (linkedEntries.lookup upper) =
            (Except.ok (some metadata') : Except String _) → metadata'.isDir = true) ∧
          ∀ listed, Except.ok (linkedNames upper) = (Except.ok listed : Except String _) →
            name ∈ listed := by
      intro directory byte metadata plain found isDir mem named
      refine ⟨directory, [byte], ⟨by simp, by simpa using Ne.symm plain⟩, rfl,
        List.mem_toFinset.mpr mem, ?_, ?_⟩
      · intro other same
        rw [found] at same
        cases same
        exact isDir
      · intro listed same
        cases same
        exact named
    rw [List.mem_toFinset] at mem
    fin_cases mem
    · exact absurd rfl nonempty
    · exact held [] 97 _ (by decide) rfl rfl (by decide) (by decide)
    · exact held [97] 107 _ (by decide) rfl rfl (by decide) (by decide)
    · exact held [] 98 _ (by decide) rfl rfl (by decide) (by decide)
    · exact held [] 100 _ (by decide) rfl rfl (by decide) (by decide)
    · exact held [100] 120 _ (by decide) rfl rfl (by decide) (by decide)

theorem pruning_spares_kept_entries_linked :
    ∃ pruned, deletionCandidates linked (fun _ _ => false)
        (Plan.build [.scope [], .claimFile [97, 47, 107]]) = .ok pruned ∧
      pruned.candidates.map Candidate.path = [[100, 47, 120], [100]] ∧
      Spared linked (fun _ _ => false) (Plan.build [.scope [], .claimFile [97, 47, 107]])
        pruned := by
  have paths : (deletionCandidates linked (fun _ _ => false)
      (build [.scope [], .claimFile [97, 47, 107]])).map
        (fun pruned => pruned.candidates.map Candidate.path) = .ok [[100, 47, 120], [100]] := by
    decide +kernel
  rcases ran : deletionCandidates linked (fun _ _ => false)
      (build [.scope [], .claimFile [97, 47, 107]]) with error | pruned
  · rw [ran] at paths
    cases paths
  · rw [ran] at paths
    exact ⟨pruned, rfl, Except.ok.inj paths, pruning_spares_kept_entries _ ran⟩

end Syq.S3
