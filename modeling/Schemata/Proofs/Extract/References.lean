import Schemata.Proofs.Extract.Walk
import Schemata.Proofs.Model.Size

/-!
# References through extraction

Extraction renames placed nodes and leaves references as they are. So every node that a type
depends on is either placed, or a reference that was there before.

Results:
* `Node.dependency_cases`: a dependency is placed below its type or is one of its references.
* `canonicalKind_blind`: a walk keeps whatever does not see names, such as references and sizes.
* `typesPlanner_outline`: declared types keep their heads, their references and their sizes.
-/

namespace Schemata

/-! ## The references of a tree -/

mutual
/-- The references of a tree; what is inside a reference is left aside. -/
def Node.refs : Node → List Node
  | ⟨h, k⟩ => if h.isRef then [⟨h, k⟩] else k.refs
/-- The references below the root of a tree. -/
def Kind.refs : Kind → List Node
  | .leaf _ => []
  | .array item _ => item.refs
  | .dictionary key value _ => key.refs ++ value.refs
  | .object fields _ => Field.allRefs fields
/-- The references of the types of fields. -/
def Field.allRefs : List Field → List Node
  | [] => []
  | ⟨_, type⟩ :: rest => type.refs ++ Field.allRefs rest
end

namespace Node

variable {n d : Node}

/-- What extraction keeps of a declared type: its head, its references and its size. -/
def outline (n : Node) : Head × List Node × Nat := (n.head, n.refs, n.size)

theorem refs_of_isRef (h : n.isRef = true) : n.refs = [n] := by
  obtain ⟨_, _⟩ := n
  exact if_pos h

theorem refs_of_not_ref (h : n.isRef = false) : n.refs = n.kind.refs := by
  obtain ⟨_, _⟩ := n
  exact if_neg (by simpa [isRef] using h)

theorem mem_refs_of_field {fields : List Field} {f : Field} (hf : f ∈ fields) :
    f.type.refs ⊆ Field.allRefs fields ∧
      f.type.placedAt true ⊆ Field.placedAll fields := by
  induction fields with
  | nil => exact absurd hf List.not_mem_nil
  | cons g rest ih =>
    obtain ⟨_, _⟩ := g
    rcases List.mem_cons.mp hf with rfl | hf
    · exact ⟨List.subset_append_left _ _, List.subset_append_left _ _⟩
    · exact ⟨List.subset_append_of_subset_right _ (ih hf).1,
        List.subset_append_of_subset_right _ (ih hf).2⟩

/-- A node stands among the references or the placed nodes of its own tree. -/
theorem self_cases (scalars : Bool) (h : n.isRef || scalars || n.kind.isComposite) :
    n ∈ n.refs ∨ n ∈ n.placedAt scalars := by
  cases hr : n.isRef with
  | true => exact Or.inl (by simp [refs_of_isRef hr])
  | false =>
    refine Or.inr ?_
    rw [placedAt_of_placed hr (by simpa [hr] using h)]
    exact List.mem_cons_self

/-- **A dependency is placed below its type, or is one of its references.** -/
theorem dependency_cases (hd : d ∈ n.dependencies) :
    d ∈ n.kind.refs ∨ d ∈ n.kind.placed := by
  obtain ⟨h, k⟩ := n
  cases k with
  | leaf spec => exact absurd hd List.not_mem_nil
  | array item s =>
    obtain ⟨hmem, hnamed⟩ := List.mem_filter.mp hd
    obtain rfl := List.mem_singleton.mp hmem
    exact self_cases false (by simpa [isNamed] using hnamed)
  | dictionary key value default =>
    obtain ⟨hmem, hnamed⟩ := List.mem_filter.mp hd
    have hself := self_cases (n := d) false (by simpa [isNamed] using hnamed)
    rcases List.mem_cons.mp hmem with rfl | hmem
    · exact hself.imp (List.mem_append_left _) (List.mem_append_left _)
    · obtain rfl := List.mem_singleton.mp hmem
      exact hself.imp (List.mem_append_right _) (List.mem_append_right _)
  | object fields default =>
    obtain ⟨f, hf, rfl⟩ := List.mem_map.mp hd
    obtain ⟨hrefs, hplaced⟩ := mem_refs_of_field hf
    exact (self_cases true (by simp)).imp (hrefs ·) (hplaced ·)

end Node

/-- The references below a node are those of its members. -/
theorem Kind.refs_eq (k : Kind) : k.refs = (k.children.map Node.refs).flatten := by
  have hfields : ∀ fields : List Field,
      Field.allRefs fields = ((fields.map (·.type)).map Node.refs).flatten := fun fields => by
    induction fields with
    | nil => rfl
    | cons f rest ih =>
      obtain ⟨_, _⟩ := f
      rw [Field.allRefs, ih, List.map_cons, List.map_cons, List.flatten_cons]
  cases k with
  | leaf spec => rfl
  | array item s => simp [Kind.refs, Kind.children]
  | dictionary key value d => simp [Kind.refs, Kind.children]
  | object fields d => exact hfields fields

theorem Kind.refs_of_child {k : Kind} {c : Node} (hc : c ∈ k.children) : c.refs ⊆ k.refs := by
  rw [Kind.refs_eq]
  exact fun r hr => List.mem_flatten.mpr ⟨c.refs, List.mem_map_of_mem hc, hr⟩

theorem Node.refs_inherited (rs : List Node) : Node.Inherited fun n => n.refs ⊆ rs := by
  intro n hr hn c hc
  rw [Node.refs_of_not_ref hr] at hn
  exact List.Subset.trans (Kind.refs_of_child hc) hn

theorem Node.refs_of_placedAt (scalars : Bool) (m n : Node) (hm : m ∈ n.placedAt scalars) :
    m.kind.refs ⊆ n.refs := by
  rw [← Node.refs_of_not_ref (Node.placedAt_spec scalars m n hm).1]
  exact (Node.refs_inherited n.refs).placedAt scalars m n (List.Subset.refl _) hm

/-- The references of a placed node are references of the tree. -/
theorem Kind.refs_of_placed (m : Node) (k : Kind) (hm : m ∈ k.placed) : m.kind.refs ⊆ k.refs := by
  rw [← Node.refs_of_not_ref (Kind.placed_spec m k hm).1]
  exact (Node.refs_inherited k.refs).placed m k (fun _ hc => Kind.refs_of_child hc) hm

/-! ## Measures that do not see names -/

namespace Node

/-- What is measured of a node that is no reference depends on its head, the name aside, and on what
is measured of its members. -/
def Blind {β : Type} (F : Node → β) : Prop :=
  ∀ (h : Head) (name : String) (k k' : Kind), h.isRef = false →
    k'.children.map F = k.children.map F → F (rename ⟨h, k'⟩ name) = F ⟨h, k⟩

theorem refs_blind : Blind refs := by
  intro h name k k' hr hmembers
  have hrenamed : (rename ⟨h, k'⟩ name).refs = k'.refs := refs_of_not_ref hr
  have hgiven : (Node.mk h k).refs = k.refs := refs_of_not_ref hr
  rw [hrenamed, hgiven, Kind.refs_eq, Kind.refs_eq k, hmembers]

theorem size_blind : Blind size := by
  intro h name k k' _ hmembers
  change k'.size + 1 = k.size + 1
  rw [Kind.size_eq, Kind.size_eq k, hmembers]

/-- Two measures at once. -/
theorem Blind.prod {β γ : Type} {F : Node → β} {G : Node → γ} (hF : Blind F) (hG : Blind G) :
    Blind fun n => (F n, G n) := by
  intro h name k k' hr hmembers
  have hfirst := congrArg (List.map Prod.fst) hmembers
  have hsecond := congrArg (List.map Prod.snd) hmembers
  rw [List.map_map, List.map_map] at hfirst hsecond
  exact Prod.ext (hF h name k k' hr hfirst) (hG h name k k' hr hsecond)

end Node

namespace Planner

open Node

/-! ## Walks keep what does not see names -/

mutual
/-- A walk keeps whatever does not see the names that it gives. -/
theorem canonicalize_blind {β : Type} {F : Node → β} (hF : Blind F) (p : Planner) (here : Place)
    (scalars : Bool) : ∀ n : Node, F (p.canonicalize here scalars n).1 = F n
  | ⟨h, k⟩ => by
    cases hr : Node.isRef ⟨h, k⟩ with
    | true => rw [canonicalize_of_isRef p here scalars hr]
    | false =>
      rw [canonicalize_eq p here scalars hr]
      obtain ⟨name, heq⟩ := exists_rename_settle (p.canonicalKind here k).2 here scalars
        ⟨h, (p.canonicalKind here k).1⟩
      rw [heq]
      exact hF h name k _ hr (canonicalKind_blind hF p here k)
theorem canonicalKind_blind {β : Type} {F : Node → β} (hF : Blind F) (p : Planner)
    (here : Place) : ∀ k : Kind, (p.canonicalKind here k).1.children.map F = k.children.map F
  | .leaf _ => rfl
  | .array item s => by
    rw [canonicalKind_array]
    exact congrArg (fun item => [item]) (canonicalize_blind hF p _ false item)
  | .dictionary key value d => by
    rw [canonicalKind_dictionary]
    exact congrArg₂ (fun key value => [key, value]) (canonicalize_blind hF p _ false key)
      (canonicalize_blind hF _ _ false value)
  | .object fields d => by
    rw [canonicalKind_object]
    exact canonicalFields_blind hF p here 0 fields
theorem canonicalFields_blind {β : Type} {F : Node → β} (hF : Blind F) (p : Planner)
    (here : Place) (index : Nat) : ∀ fields : List Field,
      ((p.canonicalFields here index fields).1.map (·.type)).map F =
        (fields.map (·.type)).map F
  | [] => rfl
  | ⟨h, type⟩ :: rest => by
    rw [canonicalFields_cons]
    exact congrArg₂ List.cons (canonicalize_blind hF p _ true type)
      (canonicalFields_blind hF _ here _ rest)
end

/-- The walk of the declared types keeps their heads too. -/
theorem typesPlanner_blind {β : Type} {F : Node → β} (hF : Blind F) (f : Forest) :
    f.typesPlanner.declared.map (fun n => (n.head, F n)) =
      f.types.map fun n => (n.head, F n) := by
  refine Forest.typesPlanner_induction (P := fun _ => True)
    (I := fun p _ => p.declared.map (fun n => (n.head, F n)) = f.types.map fun n => (n.head, F n))
    (fun p pre rest placed n hp hn _ hsame => ?_) (fun _ _ _ => trivial) rfl
  have hkeep : F ⟨n.head, (p.canonicalKind (typePlace pre.length n) n.kind).1⟩ = F n := by
    obtain ⟨h, k⟩ := n
    exact hF h h.name k _ hn (canonicalKind_blind hF p _ k)
  rw [walkType_of_not_ref hn hp, ← hsame, hp]
  simp only [List.map_append, List.map_cons, hkeep]

/-- **Declared types keep their heads, their references and their sizes.** -/
theorem typesPlanner_outline (f : Forest) :
    f.typesPlanner.declared.map outline = f.types.map outline :=
  typesPlanner_blind (refs_blind.prod size_blind) f

/-- The walk of the elements keeps whatever does not see names. -/
theorem finalElements_blind {β : Type} {F : Node → β} (hF : Blind F) :
    ∀ (elements : List Node) (p : Planner) (index : Nat),
      (p.finalElements index elements).map F = elements.map F
  | [], _, _ => rfl
  | n :: rest, p, index =>
    congrArg₂ List.cons (canonicalize_blind hF p (elementPlace index n) true n)
      (finalElements_blind hF rest _ _)

/-- Elements keep their references. -/
theorem finalElements_refs (elements : List Node) (p : Planner) (index : Nat) :
    (p.finalElements index elements).flatMap refs = elements.flatMap refs := by
  rw [List.flatMap_def, finalElements_blind refs_blind, ← List.flatMap_def]

end Planner

end Schemata
