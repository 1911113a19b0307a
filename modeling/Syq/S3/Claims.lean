import Syq.Lib.Guards
import Syq.Lib.PathSet

/-!
# The names an upload claims

Every object of an upload claims its path.  A claim fails if another one has the path, if a
file is claimed above it or, for a file, if anything is claimed below it.  The claims are kept in
order, so that one look finds what lies below a path.
-/

namespace Syq.S3

open Syq.Lib List

structure Claim where
  path : List UInt8
  directory : Bool

/-- The claimed paths in order, and whether each is a directory. -/
structure Claims where
  paths : PathSet
  directories : List UInt8 → Bool

inductive ClaimError where
  | multiple (path : List UInt8)
  | collision (path : List UInt8)

def ClaimError.message (quoted : List UInt8 → String) : ClaimError → String
  | .multiple path => "multiple sources map to " ++ quoted path
  | .collision path => "file/directory collision at " ++ quoted path

namespace Claims

variable {claims : Claims} {claimed : List Claim} {path : List UInt8}

/-- Whether the path of a file is claimed. -/
def hasFile (claims : Claims) (path : List UInt8) : Bool :=
  decide (path ∈ claims.paths) && !claims.directories path

def insert (claims : Claims) (new : Claim) : Claims :=
  ⟨claims.paths.insert new.path, Function.update claims.directories new.path new.directory⟩

def claim (claims : Claims) (new : Claim) : Except ClaimError Claims :=
  if new.path ∈ claims.paths then .error (.multiple new.path)
  else
    let claims := claims.insert new
    -- The parents are visited from the innermost on.
    match (above new.path).reverse.find? claims.hasFile with
    | some next => .error (.collision next)
    | none =>
      if !new.directory && claims.paths.anyFrom (new.path ++ [slash]) then
        .error (.collision new.path)
      else .ok claims

/-- One claim after the other. -/
def claimAll (claimed : List Claim) : Except ClaimError Claims :=
  claimed.foldlM claim ⟨.empty, fun _ => false⟩

/-- A claimed file lies above another claim. -/
def Covers (file other : Claim) : Prop :=
  file.directory = false ∧ file.path ∈ above other.path

theorem not_covers_self (item : Claim) : ¬ Covers item item :=
  fun covers => not_mem_above_self _ covers.2

/-- The claims are those of a list. -/
structure Holds (claimed : List Claim) (claims : Claims) : Prop where
  paths : ∀ {path}, path ∈ claims.paths ↔ path ∈ claimed.map Claim.path
  directories : ∀ item ∈ claimed, claims.directories item.path = item.directory

namespace Holds

variable (holds : Holds claimed claims)

include holds

theorem hasFile_iff : claims.hasFile path = true ↔
    ∃ file ∈ claimed, file.directory = false ∧ file.path = path := by
  simp only [hasFile, Bool.and_eq_true, decide_eq_true_eq, Bool.not_eq_true', holds.paths, mem_map]
  constructor
  · rintro ⟨⟨item, mem, rfl⟩, file⟩
    exact ⟨item, mem, holds.directories item mem ▸ file, rfl⟩
  · rintro ⟨item, mem, file, rfl⟩
    exact ⟨⟨item, mem, rfl⟩, (holds.directories item mem).trans file⟩

/-- One look finds whether something is claimed below a path. -/
theorem anyFrom_iff : claims.paths.anyFrom (path ++ [slash]) = true ↔
    ∃ other ∈ claimed, path ∈ above other.path := by
  simp only [PathSet.anyFrom_iff, holds.paths, mem_map, mem_above_iff]
  constructor
  · rintro ⟨_, ⟨other, mem, rfl⟩, rest, spelled⟩
    exact ⟨other, mem, rest, by simpa using spelled.symm⟩
  · rintro ⟨other, mem, rest, spelled⟩
    exact ⟨_, ⟨other, mem, rfl⟩, rest, by simp [spelled]⟩

theorem insert {item : Claim} (fresh : item.path ∉ claimed.map Claim.path) :
    Holds (claimed ++ [item]) (claims.insert item) where
  paths := by
    intro path
    simp [Claims.insert, holds.paths, or_comm]
  directories := by
    intro other mem
    rcases mem_append.mp mem with old | new
    · have apart : other.path ≠ item.path := fun same => fresh (same ▸ mem_map_of_mem old)
      exact (Function.update_of_ne apart _ _).trans (holds.directories other old)
    · rw [mem_singleton.mp new]
      exact Function.update_self ..

/-- A claim succeeds exactly if its path is new, no file before it lies above it, and it is no
file above one before it. -/
theorem claim_eq_ok_iff {item : Claim} {next : Claims} :
    claims.claim item = .ok next ↔ claims.insert item = next ∧
      item.path ∉ claimed.map Claim.path ∧
      ∀ other ∈ claimed, ¬ Covers other item ∧ ¬ Covers item other := by
  by_cases taken : item.path ∈ claimed.map Claim.path
  · simp [Claims.claim, holds.paths, taken]
  · have held := holds.insert taken
    have upper : (above item.path).reverse.find? (claims.insert item).hasFile = none ↔
        ∀ other ∈ claimed ++ [item], ¬ Covers other item := by
      simp only [find?_eq_none, held.hasFile_iff, Covers]
      grind
    have lower : (!item.directory && (claims.insert item).paths.anyFrom (item.path ++ [slash])) =
        true ↔ ∃ other ∈ claimed ++ [item], Covers item other := by
      simp only [Bool.and_eq_true, held.anyFrom_iff, Covers]
      grind
    rw [forall_mem_append, forall_mem_singleton] at upper
    simp only [Claims.claim, holds.paths, taken, if_false, not_false_eq_true, true_and]
    cases found : (above item.path).reverse.find? (claims.insert item).hasFile with
    | some next =>
      refine iff_of_false nofun fun free => upper.not.mp (by simp [found]) ⟨?_, ?_⟩
      · intro other mem
        exact (free.2 other mem).1
      · exact not_covers_self item
    | none =>
      have open_ := (upper.mp found).1
      rw [guard_eq_ok_iff, lower, Except.ok.injEq, and_comm]
      refine and_congr_right fun _ => ⟨fun free other mem => ⟨open_ other mem, ?_⟩, ?_⟩
      · intro covers
        exact free ⟨other, mem_append_left _ mem, covers⟩
      · rintro free ⟨other, mem, covers⟩
        rcases mem_append.mp mem with old | new
        · exact (free other old).2 covers
        · rw [mem_singleton.mp new] at covers
          exact not_covers_self item covers

end Holds

/-- A list of claims succeeds exactly if no two have one path and no file lies above another
claim; the claims are then those of the list. -/
theorem claimAll_spec (claimed : List Claim) :
    (∀ {claims}, claimAll claimed = .ok claims → Holds claimed claims) ∧
      ((∃ claims, claimAll claimed = .ok claims) ↔ (claimed.map Claim.path).Nodup ∧
        ∀ file ∈ claimed, ∀ other ∈ claimed, ¬ Covers file other) := by
  induction claimed using reverseRecOn with
  | nil =>
    refine ⟨?_, iff_of_true ⟨_, rfl⟩ (by simp)⟩
    intro claims done
    rw [← Except.ok.inj done]
    exact ⟨by simp, by simp⟩
  | append_singleton before item ih =>
    simp only [claimAll, foldlM_concat_eq_ok_iff]
    refine ⟨?_, ?_⟩
    · rintro claims ⟨middle, first, last⟩
      rcases (ih.1 first).claim_eq_ok_iff.mp last with ⟨rfl, fresh, -⟩
      exact (ih.1 first).insert fresh
    · rw [map_append, map_singleton, nodup_append_comm, singleton_append, nodup_cons]
      simp only [forall_mem_append, forall_mem_singleton, not_covers_self, not_false_eq_true,
        forall_and]
      constructor
      · rintro ⟨claims, middle, first, last⟩
        rcases (ih.1 first).claim_eq_ok_iff.mp last with ⟨-, fresh, apart⟩
        rcases ih.2.mp ⟨middle, first⟩ with ⟨nodup, free⟩
        grind
      · rintro ⟨⟨fresh, nodup⟩, free⟩
        rcases ih.2.mpr ⟨nodup, by grind⟩ with ⟨middle, first⟩
        exact ⟨_, middle, first, (ih.1 first).claim_eq_ok_iff.mpr ⟨rfl, fresh, by grind⟩⟩

/-- Claims fail exactly if they collide, whatever their order. -/
theorem claims_detect_every_collision (claimed : List Claim) :
    ((∃ error, claimAll claimed = .error error) ↔ ¬ (claimed.map Claim.path).Nodup ∨
      ∃ file ∈ claimed, ∃ other ∈ claimed, Covers file other) ∧
    ∀ reordered, reordered.Perm claimed →
      ((∃ claims, claimAll reordered = .ok claims) ↔ ∃ claims, claimAll claimed = .ok claims) := by
  have accepted := fun claimed => (claimAll_spec claimed).2
  constructor
  · have failed : (∃ error, claimAll claimed = .error error) ↔
        ¬ ∃ claims, claimAll claimed = .ok claims := by
      cases claimAll claimed <;> simp
    rw [failed, accepted, not_and_or]
    push Not
    exact Iff.rfl
  · intro reordered perm
    rw [accepted, accepted, (perm.map _).nodup_iff]
    simp only [perm.mem_iff]

end Claims

end Syq.S3
