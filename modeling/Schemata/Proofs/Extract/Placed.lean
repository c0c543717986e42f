import Schemata.Extract.Apply
import Schemata.Proofs.Model.Erasure

/-!
# The nodes that stand for top-level types

Extraction looks at the nodes below a declared type and at the elements: fields of any kind, and
composites wherever they stand, but nothing at or below a reference. `Kind.placed` lists these nodes
in the tree of a kind and `Forest.placed` those of a forest, each node before the nodes below it.

Results:
* `Kind.placed_erased`: erasing a tree erases its placed nodes one by one.
* `Kind.placed_spec`: no placed node is a reference, and what is placed below one is placed too.
* `Node.Inherited.placed`: what members have with their nodes, placed nodes have with the tree.
* `Node.baseName_erased`: erasure does not change the base name of a node.
-/

namespace Schemata

/-! ## Placed nodes -/

mutual
/-- The placed nodes of a tree, its root among them if scalars are placed there or it is a
composite. -/
def Node.placedAt (scalars : Bool) : Node → List Node
  | ⟨h, k⟩ =>
    if h.isRef then []
    else if scalars || k.isComposite then ⟨h, k⟩ :: k.placed
    else k.placed
/-- The placed nodes below the root of a tree. -/
def Kind.placed : Kind → List Node
  | .leaf _ => []
  | .array item _ => item.placedAt false
  | .dictionary key value _ => key.placedAt false ++ value.placedAt false
  | .object fields _ => Field.placedAll fields
/-- The placed nodes of the types of fields. -/
def Field.placedAll : List Field → List Node
  | [] => []
  | ⟨_, type⟩ :: rest => type.placedAt true ++ Field.placedAll rest
end

/-- The placed nodes of a declared type, which keeps its own name. -/
def Node.placedBelow (n : Node) : List Node := if n.isRef then [] else n.kind.placed

/-- The placed nodes of a forest. -/
def Forest.placed (f : Forest) : List Node :=
  f.types.flatMap Node.placedBelow ++ f.elements.flatMap (Node.placedAt true)

namespace Node

theorem placedAt_of_isRef {n : Node} (scalars : Bool) (h : n.isRef = true) :
    n.placedAt scalars = [] := by
  obtain ⟨_, _⟩ := n
  exact if_pos h

theorem placedAt_of_placed {n : Node} {scalars : Bool} (hn : n.isRef = false)
    (h : (scalars || n.kind.isComposite) = true) : n.placedAt scalars = n :: n.kind.placed := by
  obtain ⟨_, _⟩ := n
  rw [placedAt, if_neg (by simpa [isRef] using hn), if_pos h]

theorem placedAt_of_inner {n : Node} {scalars : Bool} (hn : n.isRef = false)
    (h : (scalars || n.kind.isComposite) = false) : n.placedAt scalars = n.kind.placed := by
  obtain ⟨_, _⟩ := n
  rw [placedAt, if_neg (by simpa [isRef] using hn), if_neg (by simpa using h)]

/-- A placed node of a tree that is no reference is its root or placed below the root. -/
theorem mem_placedAt {m n : Node} {scalars : Bool} (h : m ∈ n.placedAt scalars) :
    n.isRef = false ∧ (m = n ∨ m ∈ n.kind.placed) := by
  cases hr : n.isRef with
  | true =>
    rw [placedAt_of_isRef scalars hr] at h
    exact absurd h List.not_mem_nil
  | false =>
    refine ⟨rfl, ?_⟩
    cases hs : scalars || n.kind.isComposite with
    | true =>
      rw [placedAt_of_placed hr hs] at h
      exact List.mem_cons.mp h
    | false =>
      rw [placedAt_of_inner hr hs] at h
      exact Or.inr h

theorem placedBelow_of_not_ref {n : Node} (h : n.isRef = false) :
    n.placedBelow = n.kind.placed := by
  simp [placedBelow, h]

end Node

theorem Forest.mem_placed {f : Forest} {m : Node} : m ∈ f.placed ↔
    (∃ n ∈ f.types, n.isRef = false ∧ m ∈ n.kind.placed) ∨
      ∃ n ∈ f.elements, m ∈ n.placedAt true := by
  simp only [placed, Node.placedBelow, List.mem_append, List.mem_flatMap]
  refine or_congr (exists_congr fun n => and_congr_right fun _ => ?_) Iff.rfl
  cases n.isRef <;> simp

/-! ## Placed nodes below placed nodes -/

mutual
/-- A placed node is no reference, and what is placed below it is placed behind it. -/
theorem Node.placedAt_spec (scalars : Bool) (m : Node) : ∀ n : Node, m ∈ n.placedAt scalars →
    m.isRef = false ∧ (m :: m.kind.placed).Sublist (n.placedAt scalars)
  | ⟨h, k⟩, hm => by
    cases hr : Node.isRef ⟨h, k⟩ with
    | true => simp [Node.placedAt_of_isRef scalars hr] at hm
    | false =>
      cases hs : scalars || k.isComposite with
      | true =>
        rw [Node.placedAt_of_placed hr hs] at hm ⊢
        rcases List.mem_cons.mp hm with rfl | hm
        · exact ⟨hr, List.Sublist.refl _⟩
        · exact (Kind.placed_spec m k hm).imp_right (·.cons _)
      | false =>
        rw [Node.placedAt_of_inner hr hs] at hm ⊢
        exact Kind.placed_spec m k hm
/-- **A placed node is no reference, and what is placed below it is placed behind it.** -/
theorem Kind.placed_spec (m : Node) : ∀ k : Kind, m ∈ k.placed →
    m.isRef = false ∧ (m :: m.kind.placed).Sublist k.placed
  | .leaf _, hm => absurd hm List.not_mem_nil
  | .array item _, hm => Node.placedAt_spec false m item hm
  | .dictionary key value _, hm => by
    rcases List.mem_append.mp hm with hm | hm
    · exact (Node.placedAt_spec false m key hm).imp_right
        (·.trans (List.sublist_append_left _ _))
    · exact (Node.placedAt_spec false m value hm).imp_right
        (·.trans (List.sublist_append_right _ _))
  | .object fields _, hm => Field.placedAll_spec m fields hm
theorem Field.placedAll_spec (m : Node) : ∀ fields : List Field, m ∈ Field.placedAll fields →
    m.isRef = false ∧ (m :: m.kind.placed).Sublist (Field.placedAll fields)
  | [], hm => absurd hm List.not_mem_nil
  | ⟨_, type⟩ :: rest, hm => by
    rcases List.mem_append.mp hm with hm | hm
    · exact (Node.placedAt_spec true m type hm).imp_right
        (·.trans (List.sublist_append_left _ _))
    · exact (Field.placedAll_spec m rest hm).imp_right
        (·.trans (List.sublist_append_right _ _))
end

/-- A placed node has fewer placed nodes below it than the tree. -/
theorem Kind.length_placed_lt {m : Node} {k : Kind} (h : m ∈ k.placed) :
    m.kind.placed.length < k.placed.length :=
  (Kind.placed_spec m k h).2.length_le

/-- What is placed below a placed node is placed. -/
theorem Kind.placed_subset {m : Node} {k : Kind} (h : m ∈ k.placed) : m.kind.placed ⊆ k.placed :=
  fun _ hx => (Kind.placed_spec m k h).2.subset (List.mem_cons_of_mem _ hx)

theorem Node.placedAt_subset {m n : Node} {scalars : Bool} (h : m ∈ n.placedAt scalars) :
    m.kind.placed ⊆ n.placedAt scalars :=
  fun _ hx => (Node.placedAt_spec scalars m n h).2.subset (List.mem_cons_of_mem _ hx)

theorem Forest.not_ref_of_placed {f : Forest} {m : Node} (h : m ∈ f.placed) : m.isRef = false := by
  rcases mem_placed.mp h with ⟨n, -, -, hm⟩ | ⟨n, -, hm⟩
  · exact (Kind.placed_spec m n.kind hm).1
  · exact (Node.placedAt_spec true m n hm).1

/-! ## What placed nodes inherit -/

/-- A property that the members of every node have with it, unless the node is a reference. -/
def Node.Inherited (P : Node → Prop) : Prop :=
  ∀ n : Node, n.isRef = false → P n → ∀ c ∈ n.children, P c

mutual
/-- What is inherited from the root of a tree, its placed nodes have. -/
theorem Node.Inherited.placedAt {P : Node → Prop} (hP : Node.Inherited P) (scalars : Bool)
    (m : Node) : ∀ n : Node, P n → m ∈ n.placedAt scalars → P m
  | ⟨h, k⟩, hn, hm => by
    obtain ⟨hr, rfl | hm⟩ := Node.mem_placedAt hm
    · exact hn
    · exact Node.Inherited.placed hP m k (hP ⟨h, k⟩ hr hn) hm
/-- **What is inherited from the members of a kind, its placed nodes have.** -/
theorem Node.Inherited.placed {P : Node → Prop} (hP : Node.Inherited P) (m : Node) :
    ∀ k : Kind, (∀ c ∈ k.children, P c) → m ∈ k.placed → P m
  | .leaf _, _, hm => absurd hm List.not_mem_nil
  | .array item _, hk, hm => Node.Inherited.placedAt hP false m item (hk item List.mem_cons_self) hm
  | .dictionary key value _, hk, hm => by
    obtain ⟨hkey, hvalue⟩ := List.forall_mem_cons.mp hk
    rcases List.mem_append.mp hm with hm | hm
    · exact Node.Inherited.placedAt hP false m key hkey hm
    · exact Node.Inherited.placedAt hP false m value (hvalue value List.mem_cons_self) hm
  | .object fields _, hk, hm => Node.Inherited.placedAll hP m fields hk hm
theorem Node.Inherited.placedAll {P : Node → Prop} (hP : Node.Inherited P) (m : Node) :
    ∀ fields : List Field, (∀ c ∈ fields.map (·.type), P c) → m ∈ Field.placedAll fields → P m
  | [], _, hm => absurd hm List.not_mem_nil
  | ⟨_, type⟩ :: rest, hfields, hm => by
    obtain ⟨htype, hrest⟩ := List.forall_mem_cons.mp hfields
    rcases List.mem_append.mp hm with hm | hm
    · exact Node.Inherited.placedAt hP true m type htype hm
    · exact Node.Inherited.placedAll hP m rest hrest hm
end

/-! ## Erasure -/

@[simp] theorem Node.isRef_erased (n : Node) : n.erased.isRef = n.isRef := by
  obtain ⟨_, _⟩ := n
  rfl

@[simp] theorem Node.kind_erased (n : Node) : n.erased.kind = n.kind.erased := by
  obtain ⟨_, _⟩ := n
  rfl

@[simp] theorem Kind.isComposite_erased (k : Kind) : k.erased.isComposite = k.isComposite := by
  cases k with
  | leaf spec => cases spec <;> rfl
  | _ => rfl

@[simp] theorem Kind.suffix_erased (k : Kind) : k.erased.suffix = k.suffix := by
  cases k with
  | leaf spec => cases spec <;> rfl
  | _ => rfl

mutual
theorem Node.placedAt_erased (scalars : Bool) :
    ∀ n : Node, n.erased.placedAt scalars = (n.placedAt scalars).map Node.erased
  | ⟨h, k⟩ => by
    cases hr : Node.isRef ⟨h, k⟩ with
    | true =>
      rw [Node.placedAt_of_isRef scalars hr, Node.placedAt_of_isRef scalars (by simpa using hr)]
      rfl
    | false =>
      cases hs : scalars || k.isComposite with
      | true =>
        rw [Node.placedAt_of_placed hr hs,
          Node.placedAt_of_placed (by simpa using hr) (by simpa using hs), Node.kind_erased,
          Kind.placed_erased k]
        rfl
      | false =>
        rw [Node.placedAt_of_inner hr hs,
          Node.placedAt_of_inner (by simpa using hr) (by simpa using hs), Node.kind_erased,
          Kind.placed_erased k]
/-- **Erasing a tree erases its placed nodes.** -/
theorem Kind.placed_erased : ∀ k : Kind, k.erased.placed = k.placed.map Node.erased
  | .leaf _ => rfl
  | .array item _ => Node.placedAt_erased false item
  | .dictionary key value _ => by
    simp only [Kind.erased, Kind.placed, List.map_append, Node.placedAt_erased false key,
      Node.placedAt_erased false value]
  | .object fields _ => Field.placedAll_erased fields
theorem Field.placedAll_erased : ∀ fields : List Field,
    Field.placedAll (Field.erasedAll fields) = (Field.placedAll fields).map Node.erased
  | [] => rfl
  | ⟨_, type⟩ :: rest => by
    simp only [Field.erasedAll, Field.placedAll, List.map_append, Node.placedAt_erased true type,
      Field.placedAll_erased rest]
end

/-- Trees that are equal once erased have the same placed nodes once erased. -/
theorem Kind.exists_placed_of_erased_eq {k l : Kind} (h : k.erased = l.erased) {m : Node}
    (hm : m ∈ k.placed) : ∃ m' ∈ l.placed, m'.erased = m.erased := by
  have hmem := List.mem_map_of_mem (f := Node.erased) hm
  rw [← Kind.placed_erased, h, Kind.placed_erased] at hmem
  exact List.mem_map.mp hmem

theorem Kind.length_placed_of_erased_eq {k l : Kind} (h : k.erased = l.erased) :
    k.placed.length = l.placed.length := by
  have hmaps : k.placed.map Node.erased = l.placed.map Node.erased := by
    rw [← Kind.placed_erased, h, Kind.placed_erased]
  simpa only [List.length_map] using congrArg List.length hmaps

theorem Node.memberName_erased (n : Node) : n.erased.memberName = n.memberName := by
  obtain ⟨_, k⟩ := n
  cases k <;> rfl

theorem Node.baseName_erased (n : Node) : n.erased.baseName = n.baseName := by
  obtain ⟨h, k⟩ := n
  cases k with
  | array item s => exact congrArg (· ++ "_array") item.memberName_erased
  | dictionary key value _ =>
    simp only [Node.erased, Kind.erased, Node.baseName, key.memberName_erased,
      value.memberName_erased]
  | _ => rfl

end Schemata
