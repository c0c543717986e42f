import Schemata.Proofs.Model.Erasure
import Mathlib.Algebra.GroupWithZero.Nat
import Mathlib.Algebra.Order.BigOperators.Group.List
import Mathlib.Algebra.Order.Group.Nat

/-!
# The size of a tree

The size of a node counts the nodes of its whole tree, through references too, which hold the tree of
what they stand for.

Results:
* `Node.size_lt_of_dependency`: what a type depends on is smaller than the type.
* `Node.size_eq_of_shape_eq`: nodes of one shape have one size.
-/

namespace Schemata

mutual
/-- The number of nodes of a tree. -/
def Node.size : Node → Nat
  | ⟨_, k⟩ => k.size + 1
/-- The number of nodes below the root of a tree. -/
def Kind.size : Kind → Nat
  | .leaf _ => 0
  | .array item _ => item.size
  | .dictionary key value _ => key.size + value.size
  | .object fields _ => Field.sizes fields
/-- The number of nodes of the types of fields. -/
def Field.sizes : List Field → Nat
  | [] => 0
  | ⟨_, type⟩ :: rest => type.size + Field.sizes rest
end

theorem Node.size_eq (n : Node) : n.size = n.kind.size + 1 := by
  obtain ⟨_, _⟩ := n
  rfl

theorem Field.sizes_eq (fields : List Field) :
    Field.sizes fields = ((fields.map (·.type)).map Node.size).sum := by
  induction fields with
  | nil => rfl
  | cons f rest ih =>
    obtain ⟨_, _⟩ := f
    rw [Field.sizes, ih, List.map_cons, List.map_cons, List.sum_cons]

/-- The size below a node depends on its members alone. -/
theorem Kind.size_eq (k : Kind) : k.size = (k.children.map Node.size).sum := by
  cases k with
  | leaf spec => rfl
  | array item s => rfl
  | dictionary key value d => rfl
  | object fields d => exact Field.sizes_eq fields

namespace Node

variable {a b n d : Node}

theorem mem_children_of_dependency (h : d ∈ n.dependencies) : d ∈ n.children := by
  obtain ⟨_, k⟩ := n
  cases k with
  | object fields d => exact h
  | _ => exact (List.mem_filter.mp h).1

theorem size_lt_of_child (h : d ∈ n.children) : d.size < n.size := by
  rw [n.size_eq, n.kind.size_eq, Nat.lt_succ_iff]
  exact List.single_le_sum (fun _ _ => Nat.zero_le _) _ (List.mem_map_of_mem h)

/-- **What a type depends on is smaller than the type.** -/
theorem size_lt_of_dependency (h : d ∈ n.dependencies) : d.size < n.size :=
  size_lt_of_child (mem_children_of_dependency h)

mutual
theorem size_erased : ∀ n : Node, n.erased.size = n.size
  | ⟨_, k⟩ => congrArg (· + 1) (kindSize_erased k)
theorem kindSize_erased : ∀ k : Kind, k.erased.size = k.size
  | .leaf _ => rfl
  | .array item _ => size_erased item
  | .dictionary key value _ => congrArg₂ (· + ·) (size_erased key) (size_erased value)
  | .object fields _ => fieldSizes_erased fields
theorem fieldSizes_erased : ∀ fields : List Field,
    Field.sizes (Field.erasedAll fields) = Field.sizes fields
  | [] => rfl
  | ⟨_, type⟩ :: rest => congrArg₂ (· + ·) (size_erased type) (fieldSizes_erased rest)
end

/-- **Nodes of one shape have one size.** -/
theorem size_eq_of_shape_eq (h : a.shape = b.shape) : a.size = b.size := by
  rw [a.size_eq, b.size_eq, ← kindSize_erased a.kind, (shape_eq_iff.mp h).2, kindSize_erased]

end Node

end Schemata
