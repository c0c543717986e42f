import Schemata.Extract.Path
import Schemata.Proofs.Model.Size

/-!
# Going down a tree

A step leads from a node to one of its children, and each child is smaller than the node. So what
passes from the children of a node to the node itself holds of every node.

Results:
* `Node.children_induction`: the induction along the children.
* `Node.everywhere_iff`: what holds everywhere in a tree, from the root and the trees of its children.
-/

namespace Schemata

/-- Something holds of every node of a tree, of those inside references too. -/
def Node.Everywhere (P : Node → Prop) (n : Node) : Prop := ∀ path x, n.at? path = some x → P x

namespace Node

variable {P : Node → Prop} {n c : Node} {step : Step}

theorem child?_field {h : Head} {fields : List Field} {default : Option Json} {i : Nat} {f : Field}
    (hi : fields[i]? = some f) : child? ⟨h, .object fields default⟩ (.field i) = some f.type := by
  simp only [child?, hi, Option.map_some]

theorem mem_children_of_child? (h : n.child? step = some c) : c ∈ n.children := by
  obtain ⟨_, k⟩ := n
  cases k with
  | leaf spec => cases step <;> cases h
  | array item s =>
    obtain rfl : item = c := by cases step <;> cases h; rfl
    exact List.mem_singleton_self _
  | dictionary key value default =>
    obtain rfl | rfl : key = c ∨ value = c := by cases step <;> cases h <;> simp
    · exact List.mem_cons_self
    · exact List.mem_cons_of_mem _ (List.mem_singleton_self _)
  | object fields default =>
    obtain ⟨f, hf, rfl⟩ : ∃ f ∈ fields, f.type = c := by
      cases step with
      | field i =>
        obtain ⟨f, hf, hc⟩ := Option.map_eq_some_iff.mp h
        exact ⟨f, List.mem_of_getElem? hf, hc⟩
      | _ => cases h
    exact List.mem_map_of_mem hf

/-- Each child stands behind a step. -/
theorem exists_child? (h : c ∈ n.children) : ∃ step, n.child? step = some c := by
  obtain ⟨_, k⟩ := n
  cases k with
  | leaf spec => exact absurd h List.not_mem_nil
  | array item s => exact ⟨.item, congrArg some (List.mem_singleton.mp h).symm⟩
  | dictionary key value default =>
    rcases List.mem_cons.mp h with rfl | h
    · exact ⟨.key, rfl⟩
    · exact ⟨.value, congrArg some (List.mem_singleton.mp h).symm⟩
  | object fields default =>
    obtain ⟨f, hf, rfl⟩ := List.mem_map.mp h
    obtain ⟨i, hi⟩ := List.mem_iff_getElem?.mp hf
    exact ⟨.field i, child?_field hi⟩

/-- **What passes from the children of a node to the node holds of every node.** -/
theorem children_induction (h : ∀ n, (∀ c ∈ n.children, P c) → P n) (n : Node) :
    P n := by
  induction hsize : n.size using Nat.strong_induction_on generalizing n with
  | h size ih =>
    subst hsize
    exact h n fun c hc => ih c.size (size_lt_of_child hc) c rfl

theorem Everywhere.child (h : n.Everywhere P) (hc : n.child? step = some c) : c.Everywhere P :=
  fun path x hx => h (step :: path) x (by rw [at?, hc, Option.bind_some, hx])

/-- What holds everywhere in a tree holds of the root and everywhere in the trees of its children. -/
theorem everywhere_iff {h : Head} {k : Kind} :
    Node.Everywhere P ⟨h, k⟩ ↔ P ⟨h, k⟩ ∧ ∀ c ∈ k.children, c.Everywhere P := by
  constructor
  · intro hall
    refine ⟨hall [] _ rfl, fun c hc => ?_⟩
    obtain ⟨step, hstep⟩ := exists_child? (n := ⟨h, k⟩) hc
    exact hall.child hstep
  · rintro ⟨hroot, hchildren⟩ path x hx
    cases path with
    | nil => exact Option.some.inj hx ▸ hroot
    | cons step path =>
      obtain ⟨c, hstep, hx⟩ := Option.bind_eq_some_iff.mp hx
      exact hchildren c (mem_children_of_child? hstep) path x hx

end Node

end Schemata
