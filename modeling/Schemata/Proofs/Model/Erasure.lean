import Schemata.Model.Shape
import Mathlib.Logic.Basic

/-!
# Equality of shape is equality after erasure

Erasing a node empties, at every depth, what makes no difference between types: the label, the
description, flags other than the reference flag, constraints, metadata and defaults, and of a
field everything but its name. Bounds are kept up to the sign of a zero. `Node.shape` also drops
the name of the node itself.

Results:
* `sameShape_iff`: two nodes have the same shape exactly when their `shape`s are equal.
* `sameType_iff`: they have the same name and shape exactly when they are equal once erased.
* `sameShape_refl`, `sameShape_symm`, `sameShape_trans`: so the comparison is an equivalence.
-/

namespace Schemata

/-! ## Erasure -/

/-- A leaf kind without its default, bounds up to the sign of a zero. -/
def Leaf.erased : Leaf → Leaf
  | .integer s => .integer ⟨s.base, none, s.min.map Number.normal, s.max.map Number.normal⟩
  | .float s => .float ⟨none, s.min.map Number.normal, s.max.map Number.normal⟩
  | .boolean _ => .boolean none
  | .string s => .string ⟨none, s.pattern, s.min, s.max⟩
  | .enum s => .enum ⟨s.base, s.values, none⟩

/-- An array without its default. -/
def ArraySpec.erased (s : ArraySpec) : ArraySpec := ⟨s.itemName, none, s.minItems, s.maxItems⟩

/-- The name, the tag and the reference flag. -/
def Head.erased (h : Head) : Head :=
  { Head.fresh h.name h.tag with label := "", isRef := h.isRef }

/-- The name of the field. -/
def FieldHead.erased (h : FieldHead) : FieldHead := ⟨h.name, "", false, none⟩

mutual
/-- A node with only what tells types apart. -/
def Node.erased : Node → Node
  | ⟨h, k⟩ => ⟨h.erased, k.erased⟩
/-- A kind with only what tells types apart. -/
def Kind.erased : Kind → Kind
  | .leaf spec => .leaf spec.erased
  | .array item s => .array item.erased s.erased
  | .dictionary key value _ => .dictionary key.erased value.erased none
  | .object fields _ => .object (Field.erasedAll fields) none
/-- Fields with only what tells types apart. -/
def Field.erasedAll : List Field → List Field
  | [] => []
  | ⟨h, type⟩ :: rest => ⟨h.erased, type.erased⟩ :: Field.erasedAll rest
end

/-- A node without its own name and with only what tells types apart. -/
def Node.shape (n : Node) : Node := (n.rename "").erased

/-! ## Parts -/

theorem sameBound_iff {a b : Option Number} :
    sameBound a b = true ↔ a.map Number.normal = b.map Number.normal := by
  cases a <;> cases b <;> simp [sameBound, Number.same]

theorem Leaf.sameShape_iff {a b : Leaf} : a.sameShape b = true ↔ a.erased = b.erased := by
  cases a <;> cases b <;>
    simp [Leaf.sameShape, Leaf.erased, sameBound_iff, and_assoc]

theorem ArraySpec.sameShape_iff {a b : ArraySpec} : a.sameShape b = true ↔ a.erased = b.erased := by
  simp [ArraySpec.sameShape, ArraySpec.erased, and_assoc]

theorem Head.erased_eq_iff {a b : Head} :
    a.erased = b.erased ↔ a.name = b.name ∧ a.sameShape b = true := by
  simp [Head.erased, Head.fresh, Head.sameShape]

namespace Node

theorem erased_eq_iff {a b : Node} :
    a.erased = b.erased ↔ a.head.erased = b.head.erased ∧ a.kind.erased = b.kind.erased := by
  obtain ⟨g, j⟩ := a
  obtain ⟨h, k⟩ := b
  simp [Node.erased]

/-- The shape is the tag, the reference flag and the kind. -/
theorem shape_eq_iff {a b : Node} :
    a.shape = b.shape ↔ a.head.sameShape b.head = true ∧ a.kind.erased = b.kind.erased := by
  unfold shape
  rw [erased_eq_iff, Head.erased_eq_iff]
  simp only [rename, true_and]
  exact Iff.rfl

theorem isRef_eq_of_shape_eq {a b : Node} (h : a.shape = b.shape) : a.isRef = b.isRef := by
  have hhead := (shape_eq_iff.mp h).1
  simp only [Head.sameShape, Bool.and_eq_true, decide_eq_true_eq] at hhead
  exact hhead.2

/-- Equality after erasure is equality of name and shape. -/
theorem erased_eq_iff_shape {a b : Node} :
    a.erased = b.erased ↔ a.name = b.name ∧ a.shape = b.shape := by
  rw [erased_eq_iff, shape_eq_iff, Head.erased_eq_iff, and_assoc]
  exact Iff.rfl

theorem eta (n : Node) : ⟨n.head, n.kind⟩ = n := by
  obtain ⟨_, _⟩ := n
  rfl

theorem rename_self (n : Node) : n.rename n.name = n := n.eta

/-! ## The comparison -/

mutual
/-- **Two nodes have the same shape exactly when their `shape`s are equal.** -/
theorem sameShape_iff : ∀ a b : Node, sameShape a b = true ↔ a.shape = b.shape
  | ⟨h, .leaf a⟩, ⟨g, k⟩ => by
    rw [shape_eq_iff]
    cases k <;> simp [sameShape, Kind.erased, Leaf.sameShape_iff]
  | ⟨h, .array a s⟩, ⟨g, k⟩ => by
    rw [shape_eq_iff]
    cases k with
    | array b t =>
      simp only [sameShape, Kind.erased, Bool.and_eq_true, decide_eq_true_eq, sameShape_iff a b,
        ArraySpec.sameShape_iff, Kind.array.injEq, erased_eq_iff_shape, and_assoc]
    | _ => simp [sameShape, Kind.erased]
  | ⟨h, .dictionary a c _⟩, ⟨g, k⟩ => by
    rw [shape_eq_iff]
    cases k with
    | dictionary b d _ =>
      simp only [sameShape, Kind.erased, Bool.and_eq_true, decide_eq_true_eq, sameShape_iff a b,
        sameShape_iff c d, Kind.dictionary.injEq, erased_eq_iff_shape, and_assoc, and_true]
    | _ => simp [sameShape, Kind.erased]
  | ⟨h, .object as _⟩, ⟨g, k⟩ => by
    rw [shape_eq_iff]
    cases k with
    | object bs _ =>
      simp only [sameShape, Kind.erased, Bool.and_eq_true, sameFields_iff as bs,
        Kind.object.injEq, and_true]
    | _ => simp [sameShape, Kind.erased]
theorem sameFields_iff : ∀ as bs : List Field,
    sameFields as bs = true ↔ Field.erasedAll as = Field.erasedAll bs
  | [], [] => by simp [sameFields]
  | [], ⟨_, _⟩ :: _ => by simp [sameFields, Field.erasedAll]
  | ⟨h, a⟩ :: as, bs => by
    cases bs with
    | nil => simp [sameFields, Field.erasedAll]
    | cons b bs =>
      obtain ⟨g, b⟩ := b
      simp only [sameFields, Field.erasedAll, FieldHead.erased, Bool.and_eq_true,
        decide_eq_true_eq, sameShape_iff a b, sameFields_iff as bs, List.cons.injEq,
        Field.mk.injEq, FieldHead.mk.injEq, erased_eq_iff_shape, and_true]
end

/-- **Two nodes have the same name and shape exactly when they are equal once erased.** -/
theorem sameType_iff {a b : Node} : sameType a b = true ↔ a.erased = b.erased := by
  rw [erased_eq_iff_shape, ← sameShape_iff]
  simp [sameType]

theorem sameShape_refl (n : Node) : sameShape n n = true := (sameShape_iff n n).mpr rfl

theorem sameShape_symm {a b : Node} (h : sameShape a b = true) : sameShape b a = true :=
  (sameShape_iff b a).mpr ((sameShape_iff a b).mp h).symm

theorem sameShape_trans {a b c : Node} (hab : sameShape a b = true) (hbc : sameShape b c = true) :
    sameShape a c = true :=
  (sameShape_iff a c).mpr (((sameShape_iff a b).mp hab).trans ((sameShape_iff b c).mp hbc))

end Node

end Schemata
