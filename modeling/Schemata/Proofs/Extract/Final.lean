import Schemata.Proofs.Extract.Replay

/-!
# The final forest

A run of the planner leaves the final trees and new definitions. A definition is made from a placed
node of a final tree, so what is placed inside definitions is placed in the final trees as well; and
a placed node has been through the names tried for it, all of which are names of final types.

Results:
* `Forest.walked_tracked`: what the planner knows of the placed nodes of the final trees.
* `Forest.placed_extract_subset`: what is placed in the final forest is placed in a final tree.
* `Forest.extract_tried`: the names tried for a placed node before its own are names of final types.
-/

namespace Schemata

namespace Planner

open Node

/-- What is known of placed nodes: what is placed below them is one of them, the names tried for them
are names of types, and the new definitions are made from them. -/
structure Tracked (p : Planner) (placed : List Node) : Prop where
  /-- What is placed below a placed node is placed. -/
  closed : ∀ m ∈ placed, m.kind.placed ⊆ placed
  /-- The name of a placed node, and those tried before it, name types. -/
  tried : ∀ m ∈ placed, Tried p.registry m
  /-- Every new definition was made from a placed node. -/
  source : ∀ e ∈ p.hoisted, ∃ m ∈ placed, e.MadeFrom m

variable {p q : Planner} {placed pre rest raw final : List Node} {n : Node}

theorem Places.tried (h : Places p q raw final) : ∀ m ∈ final, Tried q.registry m := by
  obtain ⟨-, hfits, -⟩ := h
  induction hfits with
  | nil => exact fun _ hm => absurd hm List.not_mem_nil
  | cons hfit _ ih => exact List.forall_mem_cons.mpr ⟨hfit.tried, ih⟩

/-- More placed nodes are tracked too. -/
theorem Tracked.append (h : Tracked p placed) (hpq : Places p q raw final)
    (hclosed : ∀ m ∈ final, m.kind.placed ⊆ final) : Tracked q (placed ++ final) where
  closed m hm := by
    rcases List.mem_append.mp hm with hm | hm
    · exact List.subset_append_of_subset_left _ (h.closed m hm)
    · exact List.subset_append_of_subset_right _ (hclosed m hm)
  tried := List.forall_mem_append.mpr
    ⟨fun m hm => (h.tried m hm).mono hpq.grows.names, hpq.tried⟩
  source e he := by
    rcases hpq.source e he with he | ⟨m, hm, hmade⟩
    · obtain ⟨m, hm, hmade⟩ := h.source e he
      exact ⟨m, List.mem_append_left _ hm, hmade⟩
    · exact ⟨m, List.mem_append_right _ hm, hmade⟩

theorem walkType_tracked (h : Tracked p placed) (hp : p.declared = pre ++ n :: rest)
    (hn : n.isRef = false) : Tracked (p.walkType pre.length n)
      (placed ++ (p.canonicalKind (typePlace pre.length n) n.kind).1.placed) := by
  have hplaces := canonicalKind_places p (typePlace pre.length n) n.kind
  obtain ⟨hclosed, htried, hsource⟩ := h.append hplaces fun m hm => Kind.placed_subset hm
  rw [walkType_of_not_ref hn hp]
  refine ⟨hclosed, fun m hm => (htried m hm).mono ?_, hsource⟩
  -- the walked type keeps its name, so the names of the registry are the same
  simp [Planner.registry, hplaces.grows.declared, hp, Node.name]

end Planner

namespace Forest

/-- **What the planner knows of the placed nodes of the final trees.** -/
theorem walked_tracked (f : Forest) : Planner.Tracked f.planner f.walked.placed := by
  have htypes : Planner.Tracked f.typesPlanner
      (f.typesPlanner.declared.flatMap Node.placedBelow) :=
    typesPlanner_induction (P := fun _ => True)
      (fun p pre rest placed n hp hn _ h => Planner.walkType_tracked h hp hn)
      (fun _ _ _ => trivial) ⟨by simp, by simp, by simp⟩
  have helements := Planner.walkElements_places f.elements f.typesPlanner 0
  have hdeclared : f.planner.declared = f.typesPlanner.declared := helements.grows.declared
  unfold walked placed
  rw [hdeclared]
  refine htypes.append helements fun m hm x hx => ?_
  obtain ⟨n, hn, hm⟩ := List.mem_flatMap.mp hm
  exact List.mem_flatMap.mpr ⟨n, hn, Node.placedAt_subset hm hx⟩

/-- **What is placed in the final forest is placed in a final tree.** -/
theorem placed_extract_subset (f : Forest) : f.extract.placed ⊆ f.walked.placed := by
  intro m hm
  have htracked := walked_tracked f
  rw [extract_eq] at hm
  rcases mem_placed.mp hm with ⟨n, hn, hr, hm⟩ | ⟨n, hn, hm⟩
  · rcases List.mem_append.mp hn with hn | hn
    · exact mem_placed.mpr (Or.inl ⟨n, hn, hr, hm⟩)
    · obtain ⟨e, he, rfl⟩ := List.mem_map.mp hn
      obtain ⟨x, hx, hkind, -⟩ := htracked.source e he
      exact htracked.closed x hx (hkind ▸ hm)
  · exact mem_placed.mpr (Or.inr ⟨n, hn, hm⟩)

/-- **The names tried for a placed node before its own are names of final types.** -/
theorem extract_tried (f : Forest) : ∀ m ∈ f.extract.placed, Node.Tried f.extract.types m := by
  intro m hm
  have htried := (walked_tracked f).tried m (placed_extract_subset f hm)
  rwa [extract_eq]

end Forest

end Schemata
