import Mathlib

/-!
# Byte spans and coverage counts

A span is a half-open interval given by its offset and length, so every value is
a valid interval.  Ownership questions about a collection of spans are asked one
byte at a time: `Span.count` is one on the bytes of a span and zero elsewhere,
and `cover` adds the counts of a list.  "Owned by exactly one" is then an
equation between natural numbers, which splitting and joining spans preserve.
-/

namespace Syq.Lib

variable {spans : List Span} {first last : Nat}

/-- The bytes `off, …, off + len - 1`. -/
@[ext]
structure Span where
  off : Nat
  len : Nat
  deriving Repr

namespace Span

variable {span : Span}

/-- The first byte after the span. -/
def stop (span : Span) : Nat :=
  span.off + span.len

/-- The span between two offsets, empty when they are out of order. -/
def between (first last : Nat) : Span :=
  ⟨first, last - first⟩

/-- One on the bytes of the span, zero elsewhere. -/
def count (span : Span) (byte : Nat) : Nat :=
  if span.off ≤ byte ∧ byte < span.stop then 1 else 0

/-- Two spans that have no byte in common. -/
def Disjoint (first second : Span) : Prop :=
  first.stop ≤ second.off ∨ second.stop ≤ first.off

instance (first second : Span) : Decidable (first.Disjoint second) :=
  inferInstanceAs (Decidable (_ ∨ _))

@[simp]
theorem between_off (first last : Nat) : (between first last).off = first :=
  rfl

theorem between_stop (ordered : first ≤ last) : (between first last).stop = last := by
  simp only [stop, between]
  omega

theorem count_of_mem {byte : Nat} (lower : span.off ≤ byte) (upper : byte < span.stop) :
    span.count byte = 1 := by
  simp [count, lower, upper]

/-- A nonempty span covers its own offset. -/
theorem count_off (ne : 0 < span.len) : span.count span.off = 1 :=
  count_of_mem le_rfl (by simp only [stop]; omega)

theorem count_ne_zero_iff {byte : Nat} :
    span.count byte ≠ 0 ↔ span.off ≤ byte ∧ byte < span.stop := by
  simp [count]

theorem count_le_one (span : Span) (byte : Nat) : span.count byte ≤ 1 := by
  unfold count
  split <;> omega

/-- Cutting a span in two at an inner offset neither loses nor repeats a byte. -/
theorem count_between_add {middle : Nat} (lower : first ≤ middle) (upper : middle ≤ last)
    (byte : Nat) :
    (between first middle).count byte + (between middle last).count byte =
      (between first last).count byte := by
  simp only [count, stop, between]
  grind

theorem count_between_self (first byte : Nat) : (between first first).count byte = 0 := by
  simp only [count, stop, between]
  grind

theorem count_of_len_eq_zero (empty : span.len = 0) (byte : Nat) : span.count byte = 0 := by
  simp only [count, stop]
  grind

theorem between_off_stop (span : Span) : between span.off span.stop = span := by
  ext <;> simp [between, stop]

/-! ## Order: shortest first, then by offset -/

/-- The comparison key of a span. -/
def shortest (span : Span) : Nat ×ₗ Nat :=
  toLex (span.len, span.off)

theorem shortest_injective : Function.Injective shortest := by
  intro first second equal
  cases first
  simp_all [shortest]

instance : LinearOrder Span :=
  LinearOrder.lift' shortest shortest_injective

end Span

/-! ## Coverage -/

/-- How many of the spans hold `byte`. -/
def cover (spans : List Span) (byte : Nat) : Nat :=
  (spans.map fun span => span.count byte).sum

@[simp]
theorem cover_nil (byte : Nat) : cover [] byte = 0 :=
  rfl

@[simp]
theorem cover_cons (span : Span) (spans : List Span) (byte : Nat) :
    cover (span :: spans) byte = span.count byte + cover spans byte := by
  simp [cover]

@[simp]
theorem cover_append (first second : List Span) (byte : Nat) :
    cover (first ++ second) byte = cover first byte + cover second byte := by
  simp [cover]

theorem count_le_cover_of_mem {span : Span} (mem : span ∈ spans) (byte : Nat) :
    span.count byte ≤ cover spans byte :=
  List.single_le_sum (fun _ _ => Nat.zero_le _) _ (List.mem_map.mpr ⟨span, mem, rfl⟩)

/-- Pairwise disjoint spans hold every byte at most once. -/
theorem cover_le_one (disjoint : spans.Pairwise Span.Disjoint) (byte : Nat) :
    cover spans byte ≤ 1 := by
  induction disjoint with
  | nil => simp
  | @cons span rest apart _ ih =>
    have restZero : 0 < span.count byte → cover rest byte = 0 := by
      intro covered
      refine List.sum_eq_zero fun value valueMem => ?_
      obtain ⟨other, otherMem, rfl⟩ := List.mem_map.mp valueMem
      have disjoint := apart other otherMem
      simp only [Span.Disjoint, Span.count] at disjoint covered ⊢
      grind
    have single := span.count_le_one byte
    rw [cover_cons]
    omega

/-- Nonempty spans that hold every byte at most once are disjoint. -/
theorem disjoint_of_cover_le_one (once : ∀ byte, cover spans byte ≤ 1)
    (ne : ∀ span ∈ spans, 0 < span.len) : spans.Pairwise Span.Disjoint := by
  induction spans with
  | nil => exact List.Pairwise.nil
  | cons span rest ih =>
    refine List.Pairwise.cons (fun other otherMem => ?_) (ih (fun byte => ?_)
      fun other otherMem => ne other (List.mem_cons_of_mem span otherMem))
    · have spanPos := ne span List.mem_cons_self
      have otherPos := ne other (List.mem_cons_of_mem span otherMem)
      by_contra overlap
      simp only [Span.Disjoint, Span.stop, not_or] at overlap
      -- Both spans hold the larger of their first bytes.
      have spanCount : span.count (max span.off other.off) = 1 :=
        Span.count_of_mem (Nat.le_max_left _ _) (by simp only [Span.stop]; omega)
      have otherCount : other.count (max span.off other.off) = 1 :=
        Span.count_of_mem (Nat.le_max_right _ _) (by simp only [Span.stop]; omega)
      have counted := count_le_cover_of_mem otherMem (max span.off other.off)
      have total := once (max span.off other.off)
      rw [cover_cons] at total
      omega
    · have total := once byte
      rw [cover_cons] at total
      omega

/-- Nonempty spans that hold every byte at most once are all different. -/
theorem nodup_of_cover_le_one (once : ∀ byte, cover spans byte ≤ 1)
    (ne : ∀ span ∈ spans, 0 < span.len) : spans.Nodup := by
  induction spans with
  | nil => exact List.nodup_nil
  | cons span rest ih =>
    refine List.nodup_cons.mpr ⟨fun repeated => ?_, ih ?_ ?_⟩
    · have twice := once span.off
      have first := Span.count_off (ne span List.mem_cons_self)
      have second := count_le_cover_of_mem repeated span.off
      rw [cover_cons] at twice
      omega
    · intro byte
      have both := once byte
      rw [cover_cons] at both
      omega
    · exact fun other otherMem => ne other (List.mem_cons_of_mem _ otherMem)

/-- The spans are nonempty and follow one another from `first` to `last`. -/
def Tiles : Nat → List Span → Nat → Prop
  | first, [], last => first = last
  | first, span :: rest, last => span.off = first ∧ 0 < span.len ∧ Tiles span.stop rest last

instance decidableTiles : ∀ first spans last, Decidable (Tiles first spans last)
  | first, [], last => inferInstanceAs (Decidable (first = last))
  | first, span :: rest, last =>
    have := decidableTiles span.stop rest last
    inferInstanceAs (Decidable (span.off = first ∧ 0 < span.len ∧ Tiles span.stop rest last))

variable (tiles : Tiles first spans last)

include tiles

theorem Tiles.le : first ≤ last := by
  induction spans generalizing first with
  | nil => exact Nat.le_of_eq tiles
  | cons span rest ih =>
    rcases tiles with ⟨rfl, -, restTiles⟩
    have := ih restTiles
    simp only [Span.stop] at this
    omega

theorem Tiles.nonempty : ∀ span ∈ spans, 0 < span.len := by
  induction spans generalizing first with
  | nil => simp
  | cons span rest ih =>
    rcases tiles with ⟨-, spanNe, restTiles⟩
    exact List.forall_mem_cons.mpr ⟨spanNe, ih restTiles⟩

theorem Tiles.stop_le : ∀ span ∈ spans, span.stop ≤ last := by
  induction spans generalizing first with
  | nil => simp
  | cons span rest ih =>
    rcases tiles with ⟨-, -, restTiles⟩
    exact List.forall_mem_cons.mpr ⟨restTiles.le, ih restTiles⟩

/-- Tiles hold every byte of the interval once and no other byte. -/
theorem Tiles.cover_eq (byte : Nat) :
    cover spans byte = (Span.between first last).count byte := by
  induction spans generalizing first with
  | nil =>
    obtain rfl : first = last := tiles
    rw [cover_nil, Span.count_between_self]
  | cons span rest ih =>
    rcases tiles with ⟨rfl, -, restTiles⟩
    have inside : span.off ≤ span.stop := Nat.le_add_right _ _
    rw [cover_cons, ih restTiles,
      ← Span.count_between_add inside restTiles.le, Span.between_off_stop]

end Syq.Lib
