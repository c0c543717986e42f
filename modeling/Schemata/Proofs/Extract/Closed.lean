import Schemata.Proofs.Extract.References
import Schemata.Proofs.Extract.Sharing

/-!
# The final forest is closed

A forest is closed when every reference stands for a declared type: it has the name of the type, and
its members. Extraction gives every placed node the name of a top-level type of its shape and keeps
all references, and declared types keep their names and sizes; so everything that a type of the final
forest depends on is a top-level type, and smaller than it.

Results:
* `Forest.extract_smaller`: what a final type depends on has the name of a smaller final type.
* `Forest.extract_elements`: every final element has the name of a final type.
* `Forest.extract_declares`: every name of a final type is the name of one that is no reference.
-/

namespace Schemata

/-- The types that stand for a name in lists of the same outlines have the same outline. -/
theorem declaring?_outline {types others : List Node}
    (h : types.map Node.outline = others.map Node.outline) (name : String) :
    (declaring? types name).map Node.outline = (declaring? others name).map Node.outline := by
  have hfind : ∀ ts : List Node, (declaring? ts name).map Node.outline =
      (ts.map Node.outline).find? fun o => o.1.name = name && !o.1.isRef := fun ts => by
    rw [List.find?_map]
    rfl
  rw [hfind, hfind, h]

namespace Forest

/-- The name of a type that is declared and no reference. -/
def Declares (f : Forest) (name : String) : Prop := ∃ t ∈ f.types, t.isRef = false ∧ t.name = name

/-- A reference stands for the declared type of its name: it has the members of that type. -/
def Anchors (f : Forest) (r : Node) : Prop :=
  ∃ t, declaring? f.types r.name = some t ∧ t.children = r.children

/-- Every reference of a forest stands for a declared type. -/
structure Closed (f : Forest) : Prop where
  /-- References of declared types. -/
  types : ∀ t ∈ f.types, ∀ r ∈ t.refs, f.Anchors r
  /-- References of elements. -/
  elements : ∀ n ∈ f.elements, ∀ r ∈ n.refs, f.Anchors r

variable {f : Forest}

theorem planner_outline (f : Forest) :
    f.planner.declared.map Node.outline = f.types.map Node.outline := by
  have helements := (Planner.walkElements_places f.elements f.typesPlanner 0).grows.declared
  rw [show f.planner.declared = _ from helements]
  exact Planner.typesPlanner_outline f

/-- The final type that stands for the name of a reference has the size of the reference. -/
theorem Anchors.extract {r : Node} (h : f.Anchors r) :
    ∃ t, declaring? f.extract.types r.name = some t ∧ t.size = r.size := by
  obtain ⟨d, hd, hchildren⟩ := h
  have houtline := declaring?_outline (planner_outline f) r.name
  rw [hd, Option.map_some] at houtline
  obtain ⟨t, ht, heq⟩ := Option.map_eq_some_iff.mp houtline
  refine ⟨t, ?_, ?_⟩
  · rw [extract_eq]
    exact declaring?_append ht _
  · rw [show t.size = d.size from congrArg (·.2.2) heq, d.size_eq, r.size_eq, d.kind.size_eq,
      r.kind.size_eq]
    exact congrArg (fun children => (List.map Node.size children).sum + 1) hchildren

theorem Anchors.declares {r : Node} (h : f.Anchors r) : f.extract.Declares r.name := by
  obtain ⟨t, ht, -⟩ := h.extract
  obtain ⟨hin, hname, hr⟩ := declaring?_eq_some ht
  exact ⟨t, hin, hr, hname⟩

/-- The references of the final trees stand for declared types. -/
theorem Closed.walked_types (hf : f.Closed) {c : Node} (hc : c ∈ f.walked.types) :
    ∀ r ∈ c.refs, f.Anchors r := by
  have hin : c.outline ∈ f.types.map Node.outline := by
    rw [← planner_outline]
    exact List.mem_map_of_mem hc
  obtain ⟨t, ht, houtline⟩ := List.mem_map.mp hin
  have hrefs : t.refs = c.refs := congrArg (·.2.1) houtline
  exact hrefs ▸ hf.types t ht

theorem Closed.walked_elements (hf : f.Closed) {c : Node} (hc : c ∈ f.walked.elements) :
    ∀ r ∈ c.refs, f.Anchors r := by
  intro r hr
  have hin : r ∈ f.finalElements.flatMap Node.refs := List.mem_flatMap.mpr ⟨c, hc, hr⟩
  rw [Forest.finalElements, Planner.finalElements_refs] at hin
  obtain ⟨n, hn, hr⟩ := List.mem_flatMap.mp hin
  exact hf.elements n hn r hr

/-- The references of a placed node stand for declared types. -/
theorem Closed.walked_placed (hf : f.Closed) {m : Node} (hm : m ∈ f.walked.placed) :
    ∀ r ∈ m.kind.refs, f.Anchors r := by
  intro r hr
  rcases mem_placed.mp hm with ⟨n, hn, hnot, hm⟩ | ⟨n, hn, hm⟩
  · refine hf.walked_types hn r ?_
    rw [Node.refs_of_not_ref hnot]
    exact Kind.refs_of_placed m n.kind hm hr
  · exact hf.walked_elements hn r (Node.refs_of_placedAt true m n hm hr)

/-- **What a final type depends on has the name of a smaller final type.** -/
theorem extract_smaller (hp : f.Plain) (hf : f.Closed) {t : Node} (ht : t ∈ f.extract.types)
    (hr : t.isRef = false) : ∀ d ∈ t.dependencies,
      ∃ u, declaring? f.extract.types d.name = some u ∧ u.size < t.size := by
  intro d hd
  have hlt := Node.size_lt_of_dependency hd
  rcases Node.dependency_cases hd with href | hplaced
  · have hanchors : f.Anchors d := by
      rw [extract_eq] at ht
      rcases List.mem_append.mp ht with ht | ht
      · exact hf.walked_types ht _ (by rwa [Node.refs_of_not_ref hr])
      · obtain ⟨e, he, rfl⟩ := List.mem_map.mp ht
        obtain ⟨m, hm, hkind, -⟩ := (walked_tracked f).source e he
        exact hf.walked_placed hm _ (hkind ▸ href)
    obtain ⟨u, hu, hsize⟩ := hanchors.extract
    exact ⟨u, hu, hsize ▸ hlt⟩
  · -- a type that shares its shape with a placed node is no reference either
    have hin : d ∈ f.extract.placed := mem_placed.mpr (Or.inl ⟨t, ht, hr, hplaced⟩)
    obtain ⟨u, hu, hshape⟩ := extract_shared hp d hin
    have hhead := (Node.shape_eq_iff.mp hshape).1
    have hur : u.isRef = false := by
      have hdr : d.isRef = false := not_ref_of_placed hin
      simp only [Head.sameShape, Bool.and_eq_true, decide_eq_true_eq] at hhead
      exact hhead.2.trans hdr
    exact ⟨u, declaring?_of_named? hu hur, Node.size_eq_of_shape_eq hshape ▸ hlt⟩

/-- What a final type depends on has the name of a final type. -/
theorem extract_dependencies (hp : f.Plain) (hf : f.Closed) {t : Node} (ht : t ∈ f.extract.types)
    (hr : t.isRef = false) : ∀ d ∈ t.dependencies, d.name ∈ f.extract.types.map Node.name := by
  intro d hd
  obtain ⟨u, hu, -⟩ := extract_smaller hp hf ht hr d hd
  obtain ⟨hin, hname, -⟩ := declaring?_eq_some hu
  exact hname ▸ List.mem_map_of_mem hin

/-- **Every final element has the name of a final type.** -/
theorem extract_elements (hp : f.Plain) (hf : f.Closed) {n : Node} (hn : n ∈ f.extract.elements) :
    n.name ∈ f.extract.types.map Node.name := by
  rcases Node.self_cases (n := n) true (by simp) with href | hplaced
  · rw [extract_eq] at hn
    obtain ⟨u, hu, -, hname⟩ := (hf.walked_elements hn _ href).declares
    exact hname ▸ List.mem_map_of_mem hu
  · exact (extract_shared hp n (mem_placed.mpr (Or.inr ⟨n, hn, hplaced⟩))).mem_names

/-- **Every name of a final type is the name of one that is no reference.** -/
theorem extract_declares (hf : f.Closed) {t : Node} (ht : t ∈ f.extract.types) :
    f.extract.Declares t.name := by
  cases hr : t.isRef with
  | false => exact ⟨t, ht, hr, rfl⟩
  | true =>
    rw [extract_eq] at ht
    rcases List.mem_append.mp ht with ht | ht
    · exact (hf.walked_types ht t (by simp [Node.refs_of_isRef hr])).declares
    · obtain ⟨e, he, rfl⟩ := List.mem_map.mp ht
      obtain ⟨m, hm, -, href, -⟩ := (walked_tracked f).source e he
      exact absurd (hr.symm.trans (href.trans (not_ref_of_placed hm))) (by simp)

end Forest

end Schemata
