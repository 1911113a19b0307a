import Syq.Lib.PathSet
import Syq.Pruning.Model

/-!
# Claims and scopes of a pruned destination

A copy to or from an object store records which destination paths its sources claim and which
directories they map onto.  Only what lies in such a directory, and nothing claims or protects,
may be pruned.
-/

namespace Syq.S3

open Syq.Lib Syq.Pruning

variable {path dir : Bytes}

abbrev Bytes := List UInt8

/-! ## Paths -/

/-- The components of a path that stays below the root it is resolved in. -/
def relativePath (path : Bytes) : Except String (List Bytes) :=
  if path.head? = some slash then .error "confined path must be relative"
  else if 0 ∈ path then .error "confined path contains NUL"
  else if path.isEmpty then .ok []
  else
    (path.splitOn slash).mapM fun component =>
      if component.isEmpty then .error "confined path contains an empty component"
      else if component = [46] ∨ component = [46, 46] then
        .error "confined path contains forbidden component"
      else .ok component

/-- The path relative to a root at or above it. -/
def beneath (path root : Bytes) : Option Bytes :=
  if root.isEmpty then some path
  else if path = root then some []
  else if root.isPrefixOf path then
    match path.drop root.length with
    | byte :: relative => if byte = slash then some relative else none
    | [] => none
  else none

/-- The path lies at the root or below it. -/
def Covers (root path : Bytes) : Prop :=
  root = [] ∨ Within root path

/-- The path lies below the directory. -/
def Below (directory path : Bytes) : Prop :=
  (directory = [] ∧ path ≠ []) ∨ directory ∈ above path

theorem beneath_isSome_iff {root : Bytes} :
    (beneath path root).isSome = true ↔ Covers root path := by
  unfold beneath Covers Within
  rw [mem_above_iff]
  by_cases empty : root = []
  · simp [empty]
  rw [if_neg (by simpa using empty)]
  by_cases same : path = root
  · simp [same]
  rw [if_neg same]
  by_cases starts : root <+: path
  · rcases starts with ⟨rest, rfl⟩
    cases rest with
    | nil => simp at same
    | cons byte rest =>
      by_cases isSlash : byte = slash
      · simp [isSlash]
      · simp [empty, isSlash]
  · rw [if_neg (by simpa using starts)]
    constructor
    · intro absent
      cases absent
    · rintro (rfl | rfl | ⟨rel, rfl⟩)
      · exact absurd rfl empty
      · exact absurd rfl same
      · exact absurd (List.prefix_append _ _) starts

theorem Covers.refl (path : Bytes) : Covers path path :=
  .inr (Within.refl path)

theorem Covers.trans {first second third : Bytes} (upper : Covers first second)
    (lower : Covers second third) : Covers first third := by
  rcases upper with rfl | upper
  · exact .inl rfl
  · rcases lower with rfl | lower
    · rcases upper with rfl | upper
      · exact .inl rfl
      · cases upper
    · exact .inr (upper.trans lower)

theorem Below.covers (below : Below dir path) : Covers dir path := by
  rcases below with ⟨rfl, -⟩ | below
  · exact .inl rfl
  · exact .inr (.inr below)

theorem Covers.eq_or_below {root : Bytes} (covers : Covers root path) :
    path = root ∨ Below root path := by
  rcases covers with rfl | same | below
  · by_cases empty : path = []
    · exact .inl empty
    · exact .inr (.inl ⟨rfl, empty⟩)
  · exact .inl same
  · exact .inr (.inr below)

theorem Below.ne_nil (below : Below dir path) : path ≠ [] := by
  rcases below with ⟨-, ne⟩ | below
  · exact ne
  · rintro rfl
    cases below

theorem Below.of_covers {between : Bytes} (below : Below dir between)
    (covers : Covers between path) : Below dir path := by
  rcases covers with rfl | rfl | lower
  · exact absurd rfl below.ne_nil
  · exact below
  · rcases below with ⟨rfl, -⟩ | upper
    · refine .inl ⟨rfl, ?_⟩
      rintro rfl
      cases lower
    · exact .inr (above_trans upper lower)

/-- Two directories at or above one path lie in one line. -/
theorem covers_or_below {first second : Bytes} (inFirst : Covers first path)
    (inSecond : Covers second path) : Covers first second ∨ Below second first := by
  by_cases empty : first = []
  · exact .inl (.inl empty)
  rcases inSecond with rfl | rfl | second_above
  · exact .inr (.inl ⟨rfl, empty⟩)
  · exact .inl inFirst
  · rcases inFirst with rfl | rfl | first_above
    · exact absurd rfl empty
    · exact .inr (.inr second_above)
    · rcases comparable_of_above first_above second_above with rfl | upper | lower
      · exact .inl (Covers.refl _)
      · exact .inl (.inr (.inr upper))
      · exact .inr (.inr lower)

/-! ## The plan -/

/-- The destinations of a copy.  The paths of `shielded` are the protected ones. -/
structure Plan where
  scopes : List Bytes
  claims : PathSet
  shielded : PathSet
  files : PathSet
  scope_mem_claims : ∀ scope ∈ scopes, scope ∈ claims
  shielded_mem_claims : ∀ path ∈ shielded, path ∈ claims

namespace Plan

variable {plan : Plan}

def new : Plan where
  scopes := []
  claims := .empty
  shielded := .empty
  files := .empty
  scope_mem_claims := by simp
  shielded_mem_claims := by simp

def scope (plan : Plan) (destination : Bytes) : Plan where
  scopes := plan.scopes ++ [destination]
  claims := plan.claims.insert destination
  shielded := plan.shielded
  files := plan.files
  scope_mem_claims := by
    intro scope mem
    rcases List.mem_append.mp mem with mem | mem
    · exact PathSet.mem_insert.mpr (.inr (plan.scope_mem_claims scope mem))
    · exact PathSet.mem_insert.mpr (.inl (List.mem_singleton.mp mem))
  shielded_mem_claims := fun path mem =>
    PathSet.mem_insert.mpr (.inr (plan.shielded_mem_claims path mem))

def claim (plan : Plan) (path : Bytes) : Plan :=
  { plan with
    claims := plan.claims.insert path
    scope_mem_claims := fun scope mem =>
      PathSet.mem_insert.mpr (.inr (plan.scope_mem_claims scope mem))
    shielded_mem_claims := fun path mem =>
      PathSet.mem_insert.mpr (.inr (plan.shielded_mem_claims path mem)) }

def claimFile (plan : Plan) (path : Bytes) : Plan :=
  { plan with files := plan.files.insert path }

def protect (plan : Plan) (path : Bytes) : Plan :=
  let claimed := plan.claim path
  { claimed with
    shielded := claimed.shielded.insert path
    shielded_mem_claims := by
      intro other mem
      rcases PathSet.mem_insert.mp mem with rfl | mem
      · exact PathSet.mem_insert.mpr (.inl rfl)
      · exact claimed.shielded_mem_claims other mem }

/-- The calls that a copy builds its plan with. -/
inductive Call where
  | scope (destination : Bytes)
  | claim (path : Bytes)
  | claimFile (path : Bytes)
  | protect (path : Bytes)

def call (plan : Plan) : Call → Plan
  | .scope destination => plan.scope destination
  | .claim path => plan.claim path
  | .claimFile path => plan.claimFile path
  | .protect path => plan.protect path

def build (calls : List Call) : Plan :=
  calls.foldl call .new

def claimedPaths (plan : Plan) : List Bytes :=
  plan.claims.paths ++ plan.files.paths

/-- A path of a source, of a file or of a protected entry. -/
def Claims (plan : Plan) (path : Bytes) : Prop :=
  path ∈ plan.claims ∨ path ∈ plan.files

theorem mem_claimedPaths : path ∈ plan.claimedPaths ↔ plan.Claims path :=
  List.mem_append

/-- Whether something at or below the directory is claimed: below it, unless it is the root. -/
def ancestor (plan : Plan) (path : Bytes) : Bool :=
  let start := if path.isEmpty then path else path ++ [slash]
  plan.claims.anyFrom start || plan.files.anyFrom start

def shields (plan : Plan) (path : Bytes) : Bool :=
  decide (path ∈ plan.shielded) || decide ([] ∈ plan.shielded) ||
    (above path).any fun upper => decide (upper ∈ plan.shielded)

def keeps (plan : Plan) (path : Bytes) : Bool :=
  decide (path ∈ plan.claims) || decide (path ∈ plan.files) || plan.ancestor path ||
    plan.shields path

/-- The last of the longest paths. -/
def longest (paths : List Bytes) : Option Bytes :=
  paths.foldl
    (fun best path =>
      match best with
      | none => some path
      | some chosen => if chosen.length ≤ path.length then some path else some chosen)
    none

/-- Whether the ignore patterns match the path.  The patterns are anchored at the innermost
scope. -/
def ignores (plan : Plan) (path : Bytes) (directory : Bool) (matcher : Bytes → Bool → Bool) :
    Bool :=
  match longest (plan.scopes.filter fun root => (beneath path root).isSome) with
  | none => false
  | some root => (beneath path root).any fun relative => matcher relative directory

theorem ancestor_iff :
    plan.ancestor path = true ↔ ∃ other, plan.Claims other ∧ (path = [] ∨ path ∈ above other) := by
  unfold ancestor Claims
  rw [Bool.or_eq_true, PathSet.anyFrom_iff, PathSet.anyFrom_iff]
  have starts : ∀ other : Bytes,
      (if path.isEmpty then path else path ++ [slash]) <+: other ↔
        path = [] ∨ path ∈ above other := by
    intro other
    cases path with
    | nil => simp
    | cons byte rest => simp [mem_above_iff, List.IsPrefix, eq_comm]
  simp only [starts, or_and_right, exists_or]

theorem shields_iff : plan.shields path = true ↔ ∃ upper ∈ plan.shielded, Covers upper path := by
  unfold shields Covers Within
  simp only [Bool.or_eq_true, decide_eq_true_eq, List.any_eq_true]
  constructor
  · rintro ((mem | mem) | ⟨upper, higher, mem⟩)
    · exact ⟨path, mem, .inr (.inl rfl)⟩
    · exact ⟨[], mem, .inl rfl⟩
    · exact ⟨upper, mem, .inr (.inr higher)⟩
  · rintro ⟨upper, mem, rfl | rfl | higher⟩
    · exact .inl (.inr mem)
    · exact .inl (.inl mem)
    · exact .inr ⟨upper, higher, mem⟩

/-- What is kept is claimed, has a claim below it, or lies under a protected path. -/
theorem keeps_iff :
    plan.keeps path = true ↔
      plan.Claims path ∨ (∃ other, plan.Claims other ∧ Below path other) ∨
        plan.shields path = true := by
  unfold keeps
  simp only [Bool.or_eq_true, decide_eq_true_eq, ancestor_iff, ← or_assoc]
  constructor
  · rintro ((claimed | ⟨other, claims, rfl | higher⟩) | shielded)
    · exact .inl (.inl claimed)
    · by_cases empty : other = []
      · rw [empty] at claims
        exact .inl (.inl claims)
      · exact .inl (.inr ⟨other, claims, .inl ⟨rfl, empty⟩⟩)
    · exact .inl (.inr ⟨other, claims, .inr higher⟩)
    · exact .inr shielded
  · rintro ((claimed | ⟨other, claims, ⟨rfl, -⟩ | higher⟩) | shielded)
    · exact .inl (.inl claimed)
    · exact .inl (.inr ⟨other, claims, .inl rfl⟩)
    · exact .inl (.inr ⟨other, claims, .inr higher⟩)
    · exact .inr shielded

theorem shields_of_covers {upper : Bytes} (shields : plan.shields upper = true)
    (covers : Covers upper path) : plan.shields path = true := by
  rcases shields_iff.mp shields with ⟨root, mem, higher⟩
  exact shields_iff.mpr ⟨root, mem, higher.trans covers⟩

/-- Nothing is kept below a directory that is not kept. -/
theorem not_keeps_of_below (free : plan.keeps dir ≠ true) (below : Below dir path) :
    plan.keeps path ≠ true := by
  intro kept
  apply free
  rw [keeps_iff] at kept ⊢
  rcases kept with claimed | ⟨other, claimed, lower⟩ | shielded
  · exact .inr (.inl ⟨path, claimed, below⟩)
  · exact .inr (.inl ⟨other, claimed, below.of_covers lower.covers⟩)
  · rcases shields_iff.mp shielded with ⟨upper, mem, covers⟩
    rcases covers_or_below covers below.covers with higher | lower
    · exact .inr (.inr (shields_iff.mpr ⟨upper, mem, higher⟩))
    · exact .inr (.inl ⟨upper, .inl (plan.shielded_mem_claims upper mem), lower⟩)

theorem longest_mem {paths : List Bytes} (found : longest paths = some path) : path ∈ paths := by
  have general : ∀ (paths : List Bytes) (best : Option Bytes),
      paths.foldl
        (fun best path =>
          match best with
          | none => some path
          | some chosen => if chosen.length ≤ path.length then some path else some chosen)
        best = some path → path ∈ paths ∨ best = some path := by
    intro paths
    induction paths with
    | nil => exact fun best same => .inr same
    | cons first rest ih =>
      intro best same
      rcases ih _ same with mem | chosen
      · exact .inl (List.mem_cons_of_mem _ mem)
      · cases best with
        | none =>
          cases chosen
          exact .inl (List.mem_cons_self ..)
        | some best =>
          dsimp only at chosen
          split_ifs at chosen
          · cases chosen
            exact .inl (List.mem_cons_self ..)
          · exact .inr chosen
  exact (general paths none found).resolve_right (by simp)

/-- Only what lies in a scope is ignored. -/
theorem scope_of_ignores {dir : Bool} {matcher : Bytes → Bool → Bool}
    (ignored : plan.ignores path dir matcher = true) :
    ∃ scope ∈ plan.scopes, Covers scope path := by
  unfold ignores at ignored
  split at ignored
  · cases ignored
  · rename_i root found
    have mem := List.mem_filter.mp (longest_mem found)
    exact ⟨root, mem.1, beneath_isSome_iff.mp mem.2⟩

/-! ## Plans that grow -/

/-- The later plan protects everything the earlier one does. -/
structure Grows (before after : Plan) : Prop where
  scopes : after.scopes = before.scopes
  claims : ∀ path, before.Claims path → after.Claims path
  shielded : ∀ path ∈ before.shielded, path ∈ after.shielded

theorem Grows.refl (plan : Plan) : plan.Grows plan where
  scopes := rfl
  claims := fun _ claimed => claimed
  shielded := fun _ mem => mem

theorem Grows.trans {first second third : Plan} (early : first.Grows second)
    (late : second.Grows third) : first.Grows third where
  scopes := late.scopes.trans early.scopes
  claims := fun path claimed => late.claims path (early.claims path claimed)
  shielded := fun path mem => late.shielded path (early.shielded path mem)

theorem grows_protect (plan : Plan) (path : Bytes) : plan.Grows (plan.protect path) where
  scopes := rfl
  claims := fun _ claimed => claimed.imp_left fun mem => PathSet.mem_insert.mpr (.inr mem)
  shielded := fun _ mem => PathSet.mem_insert.mpr (.inr mem)

theorem shields_protect (plan : Plan) (path : Bytes) : (plan.protect path).shields path = true :=
  shields_iff.mpr ⟨path, PathSet.mem_insert.mpr (.inl rfl), Covers.refl path⟩

variable {before after : Plan}

theorem Grows.shields (grows : before.Grows after) (shields : before.shields path = true) :
    after.shields path = true := by
  rcases shields_iff.mp shields with ⟨upper, mem, covers⟩
  exact shields_iff.mpr ⟨upper, grows.shielded upper mem, covers⟩

theorem Grows.keeps (grows : before.Grows after) (kept : before.keeps path = true) :
    after.keeps path = true := by
  rw [keeps_iff] at *
  rcases kept with claimed | ⟨other, claimed, below⟩ | shielded
  · exact .inl (grows.claims path claimed)
  · exact .inr (.inl ⟨other, grows.claims other claimed, below⟩)
  · exact .inr (.inr (grows.shields shielded))

theorem Grows.ignores (grows : before.Grows after) (dir : Bool)
    (matcher : Bytes → Bool → Bool) :
    after.ignores path dir matcher = before.ignores path dir matcher := by
  unfold Plan.ignores
  rw [grows.scopes]

end Plan

/-! ## Entries that downloads leave behind -/

/-- The bytes of `.syq-s3-`. -/
def partialStart : Bytes :=
  [46, 115, 121, 113, 45, 115, 51, 45]

/-- The bytes of `.partial`. -/
def partialEnd : Bytes :=
  [46, 112, 97, 114, 116, 105, 97, 108]

/-- Whether some name of the path is one that syq gives to a file it has not finished or to an
entry it displaced. -/
def recovery (path : Bytes) : Bool :=
  (names path).any fun name =>
    isPartialName name || isRecoveryName name ||
      (partialStart.isPrefixOf name && partialEnd.isSuffixOf name)

theorem recovery_of_covers {upper : Bytes} (left : recovery upper = true)
    (covers : Covers upper path) : recovery path = true := by
  rcases covers with rfl | rfl | higher
  · exact absurd left (by decide +kernel)
  · exact left
  · rcases mem_above_iff.mp higher with ⟨rest, rfl⟩
    unfold recovery names List.splitOn at *
    rw [List.splitOnP_append_cons _ _ (by simp), List.any_append, left, Bool.true_or]

end Syq.S3
