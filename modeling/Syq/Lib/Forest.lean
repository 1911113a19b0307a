import Mathlib

/-!
# Finite trees of named nodes

A forest is what a directory holds: leaves and branches, each with a name, in any order.
It is written as a list whose branches hold further forests, so that one induction covers
both the depth and the breadth.
-/

namespace Syq.Lib

universe u v w

inductive Forest (ν : Type u) (α : Type v) (β : Type w) where
  | nil
  | leaf (name : ν) (value : α) (rest : Forest ν α β)
  | branch (name : ν) (value : β) (children rest : Forest ν α β)

namespace Forest

variable {ν : Type u} {α : Type v} {β : Type w}

/-- One node of a directory: a leaf, or a branch with what it holds. -/
structure Node (ν : Type u) (α : Type v) (β : Type w) where
  name : ν
  value : α ⊕ β × Forest ν α β

/-- The nodes at the top of a forest. -/
def nodes : Forest ν α β → List (Node ν α β)
  | nil => []
  | leaf name value rest => ⟨name, .inl value⟩ :: rest.nodes
  | branch name value children rest => ⟨name, .inr (value, children)⟩ :: rest.nodes

/-- Every node's name is allowed, and the nodes of one directory have different names. -/
def Valid (allowed : ν → Prop) : Forest ν α β → Prop
  | nil => True
  | leaf name _ rest => allowed name ∧ (∀ node ∈ rest.nodes, node.name ≠ name) ∧ rest.Valid allowed
  | branch name _ children rest =>
    allowed name ∧ (∀ node ∈ rest.nodes, node.name ≠ name) ∧ children.Valid allowed ∧
      rest.Valid allowed

/-- How much work a walk over the forest has: a branch is met once and opened once. -/
def weight : Forest ν α β → Nat
  | nil => 0
  | leaf _ _ rest => rest.weight + 1
  | branch _ _ children rest => children.weight + 2 + rest.weight

def Node.weight (node : Node ν α β) : Nat :=
  match node.value with
  | .inl _ => 1
  | .inr (_, children) => children.weight + 2

theorem weight_eq_sum (forest : Forest ν α β) :
    forest.weight = (forest.nodes.map Node.weight).sum := by
  induction forest with
  | nil => rfl
  | leaf name value rest ih =>
    simp [weight, nodes, Node.weight, ih, Nat.add_comm]
  | branch name value children rest _ ih =>
    simp [weight, nodes, Node.weight, ih]

theorem Node.weight_pos (node : Node ν α β) : 0 < node.weight := by
  unfold Node.weight
  split <;> omega

/-- What a valid forest says of the node of a directory. -/
def Node.Valid (allowed : ν → Prop) (node : Node ν α β) : Prop :=
  allowed node.name ∧
    ∀ value children, node.value = .inr (value, children) → children.Valid allowed

theorem Valid.node {allowed : ν → Prop} {forest : Forest ν α β} (valid : forest.Valid allowed) :
    ∀ node ∈ forest.nodes, node.Valid allowed := by
  induction forest with
  | nil => simp [nodes]
  | leaf name value rest ih =>
    rcases valid with ⟨isAllowed, -, restValid⟩
    rw [nodes, List.forall_mem_cons]
    exact ⟨⟨isAllowed, by simp⟩, ih restValid⟩
  | branch name value children rest _ ih =>
    rcases valid with ⟨isAllowed, -, childrenValid, restValid⟩
    rw [nodes, List.forall_mem_cons]
    refine ⟨⟨isAllowed, ?_⟩, ih restValid⟩
    rintro value children ⟨⟩
    exact childrenValid

end Forest

end Syq.Lib
