import Syq.Lib.Collections

/-!
# Shared allowances

An allowance is charged by reservations.  Its rule admits a reservation that fits, and one
that is too large when nothing is charged, so a total above the limit is always the charge
of one reservation.
-/

namespace Syq.Lib

open Multiset

universe u v w

/-- Addition of unsigned 64-bit counters; `none` is an overflow. -/
def checkedAdd (left right : Nat) : Option Nat :=
  if left + right ≤ u64Max then some (left + right) else none

@[simp]
theorem checkedAdd_eq_some_iff {left right result : Nat} :
    checkedAdd left right = some result ↔ left + right = result ∧ left + right ≤ u64Max := by
  unfold checkedAdd
  split_ifs with fits
  · simp [fits]
  · simp [fits]

/-! ## Sums over finite maps -/

section Gather

variable {κ : Type u} [DecidableEq κ] {β : Type v} {M : Type w} [AddCommMonoid M]

/-- The sum of `weight` over the values of a finite map. -/
def gather (weight : β → M) (table : Table κ β) : M :=
  (table.entries.map fun entry => weight entry.2).sum

omit [DecidableEq κ] in
@[simp]
theorem gather_empty (weight : β → M) : gather weight (∅ : Table κ β) = 0 :=
  rfl

theorem gather_insert_of_notMem (weight : β → M) {table : Table κ β} {key : κ}
    (absent : key ∉ table) (value : β) :
    gather weight (table.insert key value) = weight value + gather weight table := by
  simp [gather, Finmap.entries_insert_of_notMem absent]

/-- Inserting is erasing and adding the new value. -/
theorem gather_insert (weight : β → M) (table : Table κ β) (key : κ) (value : β) :
    gather weight (table.insert key value) =
      weight value + gather weight (table.erase key) := by
  rw [← insert_erase_self, gather_insert_of_notMem weight Finmap.notMem_erase_self]

/-- Taking one value out of a sum. -/
theorem gather_of_lookup (weight : β → M) {table : Table κ β} {key : κ} {value : β}
    (found : table.lookup key = some value) :
    gather weight table = weight value + gather weight (table.erase key) := by
  rw [← gather_insert weight table key value, insert_of_lookup found]

end Gather

/-! ## The rule for large reservations -/

/-- The charges stay within the limit, or one of them is all of them. -/
def WithinOrAlone (limit : Nat) (charges : Multiset Nat) : Prop :=
  charges.sum ≤ limit ∨ charges.sum ∈ charges

namespace WithinOrAlone

variable {limit : Nat} {charges : Multiset Nat} {amount : Nat}

/-- A total above the limit is one large charge, and all others are zero. -/
theorem alone (rule : WithinOrAlone limit charges) (above : limit < charges.sum) :
    ∃ large ∈ charges, limit < large ∧ ∀ other ∈ charges.erase large, other = 0 := by
  rcases rule with within | mem
  · exact absurd above (Nat.not_lt.mpr within)
  · have split := congrArg sum (cons_erase mem)
    rw [sum_cons] at split
    have nothing : (charges.erase charges.sum).sum = 0 := by omega
    exact ⟨charges.sum, mem, above, sum_eq_zero_iff.mp nothing⟩

/-- A reservation is admitted when it fits or nothing is charged. -/
theorem admitted (admitted : charges.sum = 0 ∨ charges.sum + amount ≤ limit) :
    WithinOrAlone limit (amount ::ₘ charges) := by
  unfold WithinOrAlone
  rw [sum_cons]
  rcases admitted with nothing | fits
  · rw [nothing]
    exact .inr (mem_cons_self amount charges)
  · exact .inl (by omega)

/-- Reducing one charge keeps the rule. -/
theorem reduce {less : Nat} (rule : WithinOrAlone limit (amount ::ₘ charges))
    (smaller : less ≤ amount) : WithinOrAlone limit (less ::ₘ charges) := by
  unfold WithinOrAlone at rule ⊢
  rw [sum_cons, mem_cons] at rule ⊢
  rcases rule with within | whole | among
  · exact .inl (by omega)
  · exact .inr (.inl (by omega))
  · -- The whole total is another charge, so this one was zero.
    have bounded := single_le_sum (fun _ _ => Nat.zero_le _) _ among
    have isZero : less = amount := by omega
    rw [isZero]
    exact .inr (.inr among)

theorem remove (rule : WithinOrAlone limit (amount ::ₘ charges)) : WithinOrAlone limit charges := by
  rcases rule.reduce (Nat.zero_le amount) with within | mem
  · exact .inl (by simpa using within)
  · rw [sum_cons, Nat.zero_add, mem_cons] at mem
    rcases mem with nothing | mem
    · exact .inl (by omega)
    · exact .inr mem

end WithinOrAlone

end Syq.Lib
