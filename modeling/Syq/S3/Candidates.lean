import Syq.Lib.Guards
import Syq.Lib.Worklist
import Syq.S3.Plan

/-!
# What pruning a local destination removes

Every scope of the plan is walked.  The walk itself finds more to protect: ignored entries and
entries that an earlier download left.  Entries that share an inode with a claimed one are
protected once the walk is over.  What is then not kept is removed, deepest entries first.
-/

namespace Syq.S3

open Syq.Lib

/-! ## The destination -/

inductive FileType where
  | directory
  | symlink
  | other
  deriving DecidableEq

structure RootMetadata where
  dev : Nat
  ino : Nat
  len : Nat
  fileType : FileType
  deriving DecidableEq

def RootMetadata.identity (metadata : RootMetadata) : Nat × Nat :=
  (metadata.dev, metadata.ino)

def RootMetadata.isDir (metadata : RootMetadata) : Bool :=
  metadata.fileType = .directory

/-- The path of an entry of a directory. -/
def child (path name : Bytes) : Bytes :=
  if path.isEmpty then name else path ++ slash :: name

/-- A finite tree behind the calls that read it.  A call may fail, and a listed name may be gone
when it is looked up. -/
structure Destination where
  metadata : Bytes → Except String (Option RootMetadata)
  readDirectory : Bytes → Except String (List Bytes)
  entries : Finset Bytes
  mem_entries : ∀ {path metadata'}, metadata path = .ok (some metadata') → path ∈ entries
  present : ∀ {path}, path ∈ entries → metadata path ≠ .ok none
  parent : ∀ {path}, path ∈ entries → path ≠ [] → ∃ directory name,
    IsName name ∧ path = child directory name ∧ directory ∈ entries ∧
      (∀ metadata', metadata directory = .ok (some metadata') → metadata'.isDir = true) ∧
      ∀ listed, readDirectory directory = .ok listed → name ∈ listed

/-! ## The walk -/

inductive Kind where
  | dir
  | symlink
  | file
  deriving DecidableEq

structure Candidate where
  depth : Nat
  size : Nat
  path : Bytes
  kind : Kind
  identity : Nat × Nat
  deriving DecidableEq

def candidate (path : Bytes) (metadata : RootMetadata) : Candidate where
  depth := path.count slash
  size := metadata.len
  path := path
  kind :=
    match metadata.fileType with
    | .directory => .dir
    | .symlink => .symlink
    | .other => .file
  identity := metadata.identity

structure Walk where
  plan : Plan
  identities : Finset (Nat × Nat)
  found : List Candidate
  seen : Finset Bytes

def Walk.mark (walk : Walk) (path : Bytes) : Walk :=
  { walk with seen := insert path walk.seen }

/-- Remember the inode of a kept entry. -/
def Walk.identify (walk : Walk) (path : Bytes) (metadata : RootMetadata) : Walk :=
  if walk.plan.keeps path then
    { walk with identities := insert metadata.identity walk.identities }
  else walk

def Walk.protect (walk : Walk) (path : Bytes) : Walk :=
  { walk with plan := walk.plan.protect path }

def Walk.add (walk : Walk) (found : Candidate) : Walk :=
  { walk with found := walk.found ++ [found] }

section Walking

variable (destination : Destination) (matcher : Bytes → Bool → Bool) {walk : Walk} {path : Bytes}

/-- Look at the newest path of the stack.  The names of a directory are pushed in their order,
so the last one is the newest. -/
def visit (walk : Walk) (path : Bytes) : Except String (Walk × List Bytes) :=
  if path ∈ walk.seen then .ok (walk, [])
  else
    let walk := walk.mark path
    (relativePath path).bind fun _ =>
      (destination.metadata path).bind fun
        | none => .ok (walk, [])
        | some metadata =>
          let walk := walk.identify path metadata
          if walk.plan.shields path then .ok (walk, [])
          else if recovery path || walk.plan.ignores path metadata.isDir matcher then
            .ok (walk.protect path, [])
          else if metadata.isDir then
            (destination.readDirectory path).bind fun names =>
              .ok (walk.add (candidate path metadata), (names.map (child path)).reverse)
          else .ok (walk.add (candidate path metadata), [])

/-- The number of names that the directory lists. -/
def Destination.width (path : Bytes) : Nat :=
  match destination.readDirectory path with
  | .ok names => names.length
  | .error _ => 0

/-- The names that directories not yet seen can still push. -/
def potential (walk : Walk) : Nat :=
  ∑ path ∈ destination.entries \ walk.seen, destination.width path

/-- What a visit does. -/
inductive Visited (walk : Walk) (path : Bytes) : Walk → List Bytes → Prop where
  | known (mem : path ∈ walk.seen) : Visited walk path walk []
  | gone (fresh : path ∉ walk.seen) (absent : destination.metadata path = .ok none) :
      Visited walk path (walk.mark path) []
  | shielded (fresh : path ∉ walk.seen) {metadata : RootMetadata}
      (present : destination.metadata path = .ok (some metadata))
      (shields : walk.plan.shields path = true) :
      Visited walk path ((walk.mark path).identify path metadata) []
  | turnedAway (fresh : path ∉ walk.seen) {metadata : RootMetadata}
      (present : destination.metadata path = .ok (some metadata)) :
      Visited walk path (((walk.mark path).identify path metadata).protect path) []
  | added (fresh : path ∉ walk.seen) {metadata : RootMetadata} {names : List Bytes}
      (present : destination.metadata path = .ok (some metadata))
      (stays : recovery path = false)
      (selected : walk.plan.ignores path metadata.isDir matcher = false)
      (listed : metadata.isDir = true → destination.readDirectory path = .ok names)
      (leaf : metadata.isDir = false → names = []) :
      Visited walk path (((walk.mark path).identify path metadata).add (candidate path metadata))
        (names.map (child path)).reverse

@[simp]
theorem Walk.plan_mark (walk : Walk) (path : Bytes) : (walk.mark path).plan = walk.plan :=
  rfl

@[simp]
theorem Walk.found_mark (walk : Walk) (path : Bytes) : (walk.mark path).found = walk.found :=
  rfl

@[simp]
theorem Walk.seen_mark (walk : Walk) (path : Bytes) :
    (walk.mark path).seen = insert path walk.seen :=
  rfl

variable (metadata : RootMetadata)

include metadata

@[simp]
theorem Walk.plan_identify (walk : Walk) (path : Bytes) :
    (walk.identify path metadata).plan = walk.plan := by
  unfold identify
  split_ifs <;> rfl

@[simp]
theorem Walk.found_identify (walk : Walk) (path : Bytes) :
    (walk.identify path metadata).found = walk.found := by
  unfold identify
  split_ifs <;> rfl

@[simp]
theorem Walk.seen_identify (walk : Walk) (path : Bytes) :
    (walk.identify path metadata).seen = walk.seen := by
  unfold identify
  split_ifs <;> rfl

theorem Walk.identities_identify (walk : Walk) (path : Bytes) :
    walk.identities ⊆ (walk.identify path metadata).identities := by
  unfold identify
  split_ifs
  · exact Finset.subset_insert _ _
  · exact Finset.Subset.refl _

theorem Walk.identity_mem_identify (kept : walk.plan.keeps path = true) :
    metadata.identity ∈ (walk.identify path metadata).identities := by
  unfold identify
  rw [if_pos kept]
  exact Finset.mem_insert_self _ _

omit metadata

variable {destination matcher}

theorem visited {next : Walk} {pushed : List Bytes}
    (ran : visit destination matcher walk path = .ok (next, pushed)) :
    Visited destination matcher walk path next pushed := by
  unfold visit at ran
  split_ifs at ran with mem
  · cases ran
    exact .known mem
  rcases bind_eq_ok_iff.mp ran with ⟨components, -, ran⟩
  rcases bind_eq_ok_iff.mp ran with ⟨answer, looked, ran⟩
  cases answer with
  | none =>
    cases ran
    exact .gone mem looked
  | some metadata =>
    have plan_eq : ((walk.mark path).identify path metadata).plan = walk.plan :=
      Walk.plan_identify _ _ _
    dsimp only at ran
    rw [plan_eq] at ran
    split_ifs at ran with shields away isDir
    · cases ran
      exact .shielded mem looked shields
    · cases ran
      exact .turnedAway mem looked
    · rw [Bool.or_eq_true, not_or, Bool.not_eq_true, Bool.not_eq_true] at away
      rcases bind_eq_ok_iff.mp ran with ⟨names, listed, ran⟩
      cases ran
      exact .added mem looked away.1 away.2 (fun _ => listed)
        (fun leaf => absurd isDir (by simp [leaf]))
    · rw [Bool.or_eq_true, not_or, Bool.not_eq_true, Bool.not_eq_true] at away
      cases ran
      exact @Visited.added _ _ _ _ mem metadata [] looked away.1 away.2
        (fun isDir' => absurd isDir' isDir) (fun _ => rfl)

/-- A fresh entry leaves the potential with its names. -/
theorem potential_mark (fresh : path ∉ walk.seen) (mem : path ∈ destination.entries) :
    potential destination (walk.mark path) + destination.width path =
      potential destination walk := by
  unfold potential Walk.mark
  have split : destination.entries \ insert path walk.seen =
      (destination.entries \ walk.seen).erase path := by
    ext other
    simp only [Finset.mem_sdiff, Finset.mem_insert, Finset.mem_erase]
    tauto
  rw [split]
  exact Finset.sum_erase_add _ _ (Finset.mem_sdiff.mpr ⟨mem, fresh⟩)

theorem potential_mark_le (walk : Walk) (path : Bytes) :
    potential destination (walk.mark path) ≤ potential destination walk := by
  apply Finset.sum_le_sum_of_subset
  exact Finset.sdiff_subset_sdiff (Finset.Subset.refl _) (Finset.subset_insert _ _)

theorem visit_pays {next : Walk} {pushed : List Bytes}
    (ran : visit destination matcher walk path = .ok (next, pushed)) :
    potential destination next + pushed.length ≤ potential destination walk := by
  have seen_only : ∀ other : Walk, other.seen = (walk.mark path).seen →
      potential destination other = potential destination (walk.mark path) := by
    intro other same
    unfold potential
    rw [same]
  cases visited ran with
  | known mem => simp
  | gone fresh absent => exact potential_mark_le walk path
  | shielded fresh present shields =>
    rw [seen_only _ (by simp)]
    exact potential_mark_le walk path
  | turnedAway fresh present =>
    rw [seen_only _ (by simp [Walk.protect])]
    exact potential_mark_le walk path
  | @added fresh metadata names present stays selected listed leaf =>
    rw [seen_only _ (by simp [Walk.add]), List.length_reverse, List.length_map]
    have paid := potential_mark fresh (destination.mem_entries present)
    cases isDir : metadata.isDir with
    | true =>
      rw [Destination.width, listed isDir] at paid
      exact paid.le
    | false =>
      rw [leaf isDir]
      exact potential_mark_le walk path

variable (destination matcher)

theorem drain_visit_isSome (walk : Walk) (scope : Bytes) :
    (drain (visit destination matcher) (potential destination walk + 1) walk [scope]).isSome =
      true :=
  drain_isSome visit_pays (Nat.le_refl _)

/-- Walk what lies in one scope.  The stack is empty after as many visits as are allowed for. -/
def walkScope (walk : Walk) (scope : Bytes) : Except String Walk :=
  (drain (visit destination matcher) (potential destination walk + 1) walk [scope]).get
    (drain_visit_isSome destination matcher walk scope)

/-- Remember the inode of a claim outside the scopes. -/
def lookUp (identities : Finset (Nat × Nat)) (path : Bytes) :
    Except String (Finset (Nat × Nat)) :=
  (relativePath path).bind fun _ =>
    (destination.metadata path).bind fun
      | none => .ok identities
      | some metadata => .ok (insert metadata.identity identities)

/-- The inodes of the claims that no scope holds. -/
def outsideIdentities (plan : Plan) : Except String (Finset (Nat × Nat)) :=
  (plan.claimedPaths.filter fun path =>
      !plan.scopes.any fun scope => (beneath path scope).isSome).foldlM
    (lookUp destination)
    ∅

/-- Protect a candidate that is another name of a kept entry. -/
def protectAlias (identities : Finset (Nat × Nat)) (plan : Plan) (found : Candidate) : Plan :=
  if !plan.keeps found.path && decide (found.identity ∈ identities) then
    plan.protect found.path
  else plan

/-- What is left of a walk: the candidates, the plan with what the walk protected, and the paths
that were looked up. -/
structure Pruned where
  candidates : List Candidate
  plan : Plan
  seen : Finset Bytes

/-- The candidates, those with the greatest paths first. -/
def deletionCandidates (plan : Plan) : Except String Pruned :=
  (outsideIdentities destination plan).bind fun identities =>
    (plan.scopes.foldlM (walkScope destination matcher) ⟨plan, identities, [], ∅⟩).bind fun walk =>
      let kept := walk.found.foldl (protectAlias walk.identities) walk.plan
      .ok {
        candidates := (walk.found.filter fun found => !kept.keeps found.path).insertionSort
          fun first second => second.path ≤ first.path
        plan := kept
        seen := walk.seen }

end Walking

end Syq.S3
