import Schemata.Proofs.Model.Descent

/-!
# Where the values of a tree stand

A user sets the leaves of a tree: the numbers, truth values, texts and literals that one comes to
through fields, items of arrays and values of dictionaries. The keys of a dictionary are not set but
made up. The places of the values are listed depth first, the fields of an object in order.

Results:
* `Node.mem_valuePlaces`: the places listed are those of the leaves that stand behind no key.
* `Node.pairwise_valuePlaces`: they are listed in the order of the fields where their ways part.
* `Node.nodup_valuePlaces`: none is listed twice.
-/

namespace Schemata

/-! ## The places of values -/

/-- Whether a kind has no members. -/
def Kind.isLeaf : Kind → Bool
  | .leaf _ => true
  | _ => false

/-- Whether a node has no members: a number, a truth value, a text or an enumeration. -/
def Node.isLeaf (n : Node) : Bool := n.kind.isLeaf

mutual
/-- The places of the values of a tree, depth first. -/
def Node.valuePlaces : Node → List (List Step)
  | ⟨_, k⟩ => k.valuePlaces
/-- The places of the values of a tree with the given kind at its root. -/
def Kind.valuePlaces : Kind → List (List Step)
  | .leaf _ => [[]]
  | .array item _ => item.valuePlaces.map (.item :: ·)
  | .dictionary _ value _ => value.valuePlaces.map (.value :: ·)
  | .object fields _ => Field.valuePlaces 0 fields
/-- The places of the values in fields from position `index` on. -/
def Field.valuePlaces (index : Nat) : List Field → List (List Step)
  | [] => []
  | ⟨_, type⟩ :: rest =>
    type.valuePlaces.map (.field index :: ·) ++ Field.valuePlaces (index + 1) rest
end

/-- One path goes before another: where they part, it goes through the earlier field. -/
inductive Step.Precedes : List Step → List Step → Prop
  /-- The paths part here. -/
  | here {i j : Nat} (h : i < j) (p q : List Step) : Precedes (.field i :: p) (.field j :: q)
  /-- The paths part behind a common step. -/
  | behind (step : Step) {p q : List Step} (h : Precedes p q) : Precedes (step :: p) (step :: q)

theorem Step.Precedes.ne {p q : List Step} (h : Precedes p q) : p ≠ q := by
  induction h with
  | here h p q =>
    intro heq
    obtain rfl := Step.field.inj (List.cons.inj heq).1
    exact Nat.lt_irrefl _ h
  | behind step h ih => exact fun heq => ih (List.cons.inj heq).2

theorem Field.valuePlaces_eq (fields : List Field) (index : Nat) :
    Field.valuePlaces index fields =
      (fields.zipIdx index).flatMap fun (f, i) => f.type.valuePlaces.map (.field i :: ·) := by
  induction fields generalizing index with
  | nil => rfl
  | cons f rest ih =>
    obtain ⟨_, _⟩ := f
    rw [Field.valuePlaces, ih, List.zipIdx_cons, List.flatMap_cons]

namespace Node

variable {n : Node} {step : Step} {path : List Step}

theorem valuePlaces_of_isLeaf (h : n.isLeaf = true) : n.valuePlaces = [[]] := by
  obtain ⟨_, k⟩ := n
  cases k with
  | leaf spec => rfl
  | _ => simp [isLeaf, Kind.isLeaf] at h

theorem nil_mem_valuePlaces : [] ∈ n.valuePlaces ↔ n.isLeaf = true := by
  obtain ⟨_, k⟩ := n
  cases k with
  | object fields d =>
    simp [valuePlaces, Kind.valuePlaces, Field.valuePlaces_eq, isLeaf, Kind.isLeaf]
  | _ => simp [valuePlaces, Kind.valuePlaces, isLeaf, Kind.isLeaf]

theorem cons_mem_valuePlaces : step :: path ∈ n.valuePlaces ↔
    .key ≠ step ∧ ∃ c, n.child? step = some c ∧ path ∈ c.valuePlaces := by
  obtain ⟨_, k⟩ := n
  cases k with
  | leaf spec => cases step <;> simp [valuePlaces, Kind.valuePlaces, child?]
  | array item s => cases step <;> simp [valuePlaces, Kind.valuePlaces, child?]
  | dictionary key value d => cases step <;> simp [valuePlaces, Kind.valuePlaces, child?]
  | object fields d =>
    cases step with
    | field i =>
      simp [valuePlaces, Kind.valuePlaces, Field.valuePlaces_eq, child?,
        List.mem_zipIdx_iff_getElem?]
    | _ => simp [valuePlaces, Kind.valuePlaces, Field.valuePlaces_eq, child?]

/-- **The places listed are those of the leaves behind no key of a dictionary.** -/
theorem mem_valuePlaces (n : Node) (path : List Step) : path ∈ n.valuePlaces ↔
    Step.key ∉ path ∧ ∃ m, n.at? path = some m ∧ m.isLeaf = true := by
  induction path generalizing n with
  | nil => simp [nil_mem_valuePlaces, at?]
  | cons step path ih =>
    rw [cons_mem_valuePlaces, at?, List.mem_cons, not_or]
    cases n.child? step with
    | none => simp
    | some c => simp [ih c, and_assoc]

/-- **The places are listed in the order of the fields where their ways part.** -/
theorem pairwise_valuePlaces (n : Node) : n.valuePlaces.Pairwise Step.Precedes := by
  induction n using children_induction with
  | h n ih =>
    obtain ⟨h, k⟩ := n
    have below : ∀ c ∈ k.children, ∀ step,
        (c.valuePlaces.map (step :: ·)).Pairwise Step.Precedes := fun c hc step =>
      List.pairwise_map.mpr ((ih c hc).imp fun h => h.behind step)
    cases k with
    | leaf spec => exact List.pairwise_singleton _ _
    | array item s => exact below item (List.mem_singleton_self _) .item
    | dictionary key value d =>
      exact below value (List.mem_cons_of_mem _ (List.mem_singleton_self _)) .value
    | object fields d =>
      rw [valuePlaces, Kind.valuePlaces, Field.valuePlaces_eq, List.pairwise_flatMap]
      constructor
      · rintro ⟨f, i⟩ hf
        have hf : f ∈ fields := List.mem_of_getElem? (List.mem_zipIdx_iff_getElem?.mp hf)
        exact below f.type (List.mem_map_of_mem hf) _
      · have hindex : (fields.zipIdx.map Prod.snd).Pairwise (· < ·) := by
          rw [List.zipIdx_map_snd]
          exact List.pairwise_lt_range'
        refine (List.pairwise_map.mp hindex).imp fun {x y} hlt p hp q hq => ?_
        obtain ⟨p, -, rfl⟩ := List.mem_map.mp hp
        obtain ⟨q, -, rfl⟩ := List.mem_map.mp hq
        exact .here hlt p q

theorem nodup_valuePlaces (n : Node) : n.valuePlaces.Nodup :=
  n.pairwise_valuePlaces.imp Step.Precedes.ne

end Node

end Schemata
