import Mathlib

/-!
# Texts made of lines

A text of lines closes every line by a separator that no line holds.  Such a text is
read back by its nonempty pieces, and it can be cut after any separator into two texts
of lines.  A permutation of images is the image of a permutation.
-/

namespace Syq.Lib

open List

universe u

variable {α : Type u} [DecidableEq α]

/-- The text of some lines, each closed by the separator. -/
def unlines (separator : α) (lines : List (List α)) : List α :=
  lines.flatMap fun line => line ++ [separator]

/-- The nonempty pieces of a text between its separators. -/
def pieces (separator : α) (text : List α) : List (List α) :=
  (text.splitOn separator).filter fun piece => !piece.isEmpty

/-- A line of a text: not empty and without the separator. -/
structure IsLine (separator : α) (line : List α) : Prop where
  nonempty : line ≠ []
  separated : separator ∉ line

variable {separator : α}

omit [DecidableEq α] in
@[simp]
theorem unlines_nil : unlines separator [] = [] :=
  rfl

omit [DecidableEq α] in
@[simp]
theorem unlines_cons (line : List α) (rest : List (List α)) :
    unlines separator (line :: rest) = line ++ separator :: unlines separator rest := by
  simp [unlines]

omit [DecidableEq α] in
theorem unlines_append (first second : List (List α)) :
    unlines separator (first ++ second) = unlines separator first ++ unlines separator second := by
  simp [unlines]

/-- The lines of a text are its nonempty pieces. -/
theorem pieces_unlines {lines : List (List α)} (isLine : ∀ line ∈ lines, IsLine separator line) :
    pieces separator (unlines separator lines) = lines := by
  induction lines with
  | nil => simp [pieces]
  | cons line rest ih =>
    rw [forall_mem_cons] at isLine
    have apart : (line ++ separator :: unlines separator rest).splitOn separator =
        line :: (unlines separator rest).splitOn separator := by
      apply splitOnP_append_cons_of_forall_mem
      · intro item mem
        exact beq_false_of_ne fun same => isLine.1.separated (same ▸ mem)
      · simp
    have later := ih isLine.2
    unfold pieces at later ⊢
    rw [unlines_cons, apart, filter_cons_of_pos (by simpa using isLine.1.nonempty), later]

omit [DecidableEq α] in
/-- A text of lines is cut after a separator into two texts of lines. -/
theorem unlines_cut {lines : List (List α)} {first second : List α}
    (isLine : ∀ line ∈ lines, IsLine separator line)
    (cut : unlines separator lines = first ++ second) (closed : first.getLast? = some separator) :
    ∃ before after, lines = before ++ after ∧ before ≠ [] ∧
      first = unlines separator before ∧ second = unlines separator after := by
  induction lines generalizing first with
  | nil =>
    have empty := (append_eq_nil_iff.mp cut.symm).1
    rw [empty] at closed
    cases closed
  | cons line rest ih =>
    rw [forall_mem_cons] at isLine
    rw [unlines_cons, ← singleton_append, ← append_assoc] at cut
    rcases append_eq_append_iff.mp cut with ⟨more, firstEq, restEq⟩ | ⟨left, lineEq, -⟩
    · rcases eq_nil_or_concat' more with rfl | ⟨init, last, rfl⟩
      · refine ⟨[line], rest, rfl, by simp, ?_, ?_⟩
        · simpa using firstEq
        · simpa using restEq.symm
      · have ends : (init ++ [last]).getLast? = some separator := by
          rwa [firstEq, getLast?_append_of_ne_nil _ (by simp)] at closed
        rcases ih isLine.2 restEq ends with
          ⟨before, after, rfl, -, initEq, secondEq⟩
        refine ⟨line :: before, after, rfl, by simp, ?_, secondEq⟩
        rw [firstEq, initEq]
        simp
    · -- A cut inside the line would end in the separator, which the line does not hold.
      rcases eq_nil_or_concat' left with rfl | ⟨init, last, rfl⟩
      · refine ⟨[line], rest, rfl, by simp, ?_, ?_⟩
        · simpa using lineEq.symm
        · rw [append_nil] at lineEq
          rw [lineEq] at cut
          exact (append_cancel_left cut).symm
      · exfalso
        rw [← append_assoc] at lineEq
        have inside : line = first ++ init := (append_inj' lineEq rfl).1
        have held : separator ∈ first := mem_of_getLast? closed
        exact isLine.1.separated (inside ▸ mem_append_left _ held)

omit [DecidableEq α] in
/-- A permutation of images is the image of a permutation. -/
theorem exists_map_eq_of_perm_map {β : Type u} {f : α → β} {list : List β} {source : List α}
    (perm : list.Perm (source.map f)) :
    ∃ other : List α, list = other.map f ∧ other.Perm source := by
  have same : List.Forall₂ (fun image item => image = f item) (source.map f) source := by
    rw [forall₂_map_left_iff, forall₂_same]
    exact fun _ _ => rfl
  rcases perm_comp_forall₂ perm same with ⟨other, images, otherPerm⟩
  refine ⟨other, ?_, otherPerm⟩
  rw [← forall₂_eq_eq_eq, forall₂_map_right_iff]
  exact images

end Syq.Lib
