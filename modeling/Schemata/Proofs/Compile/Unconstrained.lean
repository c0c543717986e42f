import Schemata.Proofs.Build.Places
import Schemata.Proofs.Extract.Final
import Schemata.Proofs.Extract.References
import Schemata.Proofs.Order.Emptying

/-!
# No constraints before binding

Constraints come to nodes in the last stage. Loading makes nodes without any, and references take
over what their targets have; extraction makes definitions from nodes of the loaded trees; ordering
passes on types that it was given or that stand inside them. So whatever is found at a node in the
end was put there by binding.

Results:
* `Entry.loadSection_unconstrained`: loaded trees have no constraints.
* `Forest.extract_unconstrained`: extraction brings none.
* `orderTypes_unconstrained`: neither does ordering.
-/

namespace Schemata

namespace Node

/-- A tree none of whose nodes has constraints, those inside references included. -/
inductive Unconstrained : Node → Prop
  /-- A node without constraints, all of whose members are such trees. -/
  | node {n : Node} (own : n.head.constraints = [])
    (members : ∀ c ∈ n.children, Unconstrained c) : Unconstrained n

variable {m n : Node}

theorem Unconstrained.own (h : n.Unconstrained) : n.head.constraints = [] := by
  cases h with
  | node own _ => exact own

theorem Unconstrained.members (h : n.Unconstrained) : ∀ c ∈ n.children, c.Unconstrained := by
  cases h with
  | node _ members => exact members

/-- A node with the constraints and the members of such a tree is one too. -/
theorem Unconstrained.congr (h : m.Unconstrained)
    (hown : n.head.constraints = m.head.constraints) (hmembers : n.children = m.children) :
    n.Unconstrained :=
  .node (hown.trans h.own) (hmembers ▸ h.members)

theorem unconstrained_iff :
    n.Unconstrained ↔ n.head.constraints = [] ∧ ∀ p ∈ n.children.map Unconstrained, p := by
  rw [List.forall_mem_map]
  exact ⟨fun h => ⟨h.own, h.members⟩, fun h => .node h.1 h.2⟩

theorem unconstrained_blind : Blind Unconstrained := by
  intro h name k k' _ hmembers
  have hrenamed : (rename ⟨h, k'⟩ name).children.map Unconstrained =
      (Node.mk h k).children.map Unconstrained := hmembers
  rw [unconstrained_iff, unconstrained_iff, hrenamed]
  rfl

end Node

/-! ## Loading -/

namespace Entry

variable {resolve : Resolver} {document : Json} {name : String} {v : Json} {m n : Node}

/-- A loaded node was declared at its entry and has members that were loaded or resolved, or it is
what the resolver answers at its site. -/
theorem load_origin (h : (load resolve name v).result = .ok (some n)) :
    (Declared name n.head ∧ ∀ c ∈ n.children, ∃ key,
      (∃ w, (load resolve key w).result = .ok (some c)) ∨
        ∃ site, (resolve key site).result = .ok (some c)) ∨
    ∃ site a, (resolve name site).result = .ok (some a) ∧ withFlag site (some a) = some n := by
  cases v with
  | object props =>
    have hparts := load_inv h
    -- a member comes from its own entry, or from the reference beside the container's type
    have hmember : ∀ {key : String} {c : Node},
        (memberOr resolve props key (loadMember resolve key props)).result = .ok (some c) →
          (∃ w, (load resolve key w).result = .ok (some c)) ∨
            ∃ site, (resolve key site).result = .ok (some c) := fun hc =>
      (memberOr_inv hc).imp (fun ⟨w, _, hw⟩ => ⟨w, hw⟩) And.right
    cases hd : declaration name props with
    | nothing => rw [hd] at hparts; cases hparts
    | unrecognized _ => rw [hd] at hparts; cases hparts
    | reference =>
      rw [hd] at hparts
      obtain ⟨node, hnode, hn⟩ := hparts
      cases node with
      | none => cases hn
      | some a => exact Or.inr ⟨props, a, hnode, hn.symm⟩
    | leaf tag spec =>
      rw [hd] at hparts
      obtain ⟨g, spec, hg, hn, -⟩ := hparts
      obtain rfl := Option.some.inj hn
      exact Or.inl ⟨hg, fun _ hc => absurd hc List.not_mem_nil⟩
    | array =>
      rw [hd] at hparts
      obtain ⟨g, item, s, hg, hn, hitem, -⟩ := hparts
      obtain rfl := Option.some.inj hn
      exact Or.inl ⟨hg, List.forall_mem_singleton.mpr ⟨_, hmember hitem⟩⟩
    | dictionary =>
      rw [hd] at hparts
      obtain ⟨g, key, value, d, hg, hn, hkey, hvalue, -⟩ := hparts
      obtain rfl := Option.some.inj hn
      obtain ⟨w, -, hw⟩ := loadMember_inv hkey
      exact Or.inl ⟨hg, List.forall_mem_cons.mpr ⟨⟨_, Or.inl ⟨w, hw⟩⟩,
        List.forall_mem_singleton.mpr ⟨_, hmember hvalue⟩⟩⟩
    | object =>
      rw [hd] at hparts
      obtain ⟨g, fields, d, hg, hn, hfields, -⟩ := hparts
      obtain rfl := Option.some.inj hn
      refine Or.inl ⟨hg, List.forall_mem_map.mpr fun f hf => ?_⟩
      rcases loadProperties_inv hfields with rfl | ⟨entries, -, hentries⟩
      · exact absurd hf List.not_mem_nil
      · obtain ⟨w, -, hw⟩ := loadFields_inv hentries f hf
        exact ⟨f.name, Or.inl ⟨w, hw⟩⟩
  | _ => simp [load] at h

/-- **Loaded trees have no constraints**, if what the resolver answers has none. -/
theorem load_unconstrained {resolve : Resolver} {name : String} {v : Json} {n : Node}
    (hR : ∀ name site a, (resolve name site).result = .ok (some a) → a.Unconstrained)
    (h : (load resolve name v).result = .ok (some n)) : n.Unconstrained := by
  rcases load_origin h with ⟨hdeclared, hmembers⟩ | ⟨site, a, ha, hn⟩
  · refine .node hdeclared.constraints_eq fun c hc => ?_
    obtain ⟨key, ⟨w, hw⟩ | ⟨site, hsite⟩⟩ := hmembers c hc
    · exact load_unconstrained hR hw
    · exact hR key site c hsite
  · obtain rfl := Option.some.inj hn
    exact (hR name site a ha).congr rfl rfl
termination_by n.size
decreasing_by exact Node.size_lt_of_child hc

/-- A reference has the constraints of its target, so it has none. -/
theorem resolver_unconstrained (document : Json) : ∀ (levels : Nat) (resolving : List String)
    (name : String) (site : Props) (n : Node),
      (resolver document levels resolving name site).result = .ok (some n) → n.Unconstrained
  | 0, _, _, _, _, h => by simp [resolver] at h
  | levels + 1, resolving, name, site, n, h => by
    obtain ⟨below, reference, key, target, node, hlevels, -, -, -, hnode, hsited, -⟩ :=
      resolver_inv h
    obtain rfl := Nat.succ.inj hlevels
    cases node with
    | none => cases hsited
    | some m =>
      obtain ⟨c, hc, hn⟩ := hsited
      obtain rfl := Option.some.inj hn
      obtain ⟨-, -, -, hkind, hown⟩ := atSite_eq_ok hc
      have hm : m.Unconstrained :=
        load_unconstrained (resolver_unconstrained document levels _) hnode
      exact hm.congr hown (override_children hkind)

/-- **The nodes of a section have no constraints.** -/
theorem loadSection_unconstrained {nodes : List Node}
    (h : (loadSection document name).result = .ok nodes) : ∀ n ∈ nodes, n.Unconstrained := by
  intro n hn
  rcases loadSection_inv h with ⟨rfl, -⟩ | ⟨entries, -, hload⟩
  · exact absurd hn List.not_mem_nil
  · obtain ⟨e, -, hnode⟩ := (loadEntries_spec entries nodes hload).1 n hn
    exact load_unconstrained (resolver_unconstrained document _ []) hnode

end Entry

/-! ## Extraction -/

theorem Node.unconstrained_inherited : Node.Inherited Node.Unconstrained :=
  fun _ _ hn => hn.members

namespace Forest

variable {f : Forest}

/-- The trees of a forest have no constraints. -/
structure Unconstrained (f : Forest) : Prop where
  /-- Those of the types. -/
  types : ∀ t ∈ f.types, t.Unconstrained
  /-- Those of the elements. -/
  elements : ∀ n ∈ f.elements, n.Unconstrained

/-- The final trees have no constraints, since the walk changes nothing but names. -/
theorem Unconstrained.walked (h : f.Unconstrained) : f.walked.Unconstrained where
  types t ht := by
    -- the walk of the elements leaves the types as they are, and that of the types sees only names
    have helements := (Planner.walkElements_places f.elements f.typesPlanner 0).grows.declared
    have hin : (t.head, t.Unconstrained) ∈ f.types.map fun n => (n.head, n.Unconstrained) := by
      rw [← Planner.typesPlanner_blind Node.unconstrained_blind f, ← helements]
      exact List.mem_map.mpr ⟨t, ht, rfl⟩
    obtain ⟨s, hs, heq⟩ := List.mem_map.mp hin
    have hsame : s.Unconstrained = t.Unconstrained := congrArg Prod.snd heq
    exact hsame ▸ h.types s hs
  elements n hn := by
    have hin : n.Unconstrained ∈ f.elements.map Node.Unconstrained := by
      rw [← Planner.finalElements_blind Node.unconstrained_blind f.elements f.typesPlanner 0]
      exact List.mem_map.mpr ⟨n, hn, rfl⟩
    obtain ⟨e, he, heq⟩ := List.mem_map.mp hin
    exact heq ▸ h.elements e he

theorem Unconstrained.placed (h : f.Unconstrained) {m : Node} (hm : m ∈ f.placed) :
    m.Unconstrained := by
  rcases mem_placed.mp hm with ⟨n, hn, -, hm⟩ | ⟨n, hn, hm⟩
  · exact Node.unconstrained_inherited.placed m n.kind (h.types n hn).members hm
  · exact Node.unconstrained_inherited.placedAt true m n (h.elements n hn) hm

/-- **Extraction brings no constraints.** -/
theorem extract_unconstrained (h : f.Unconstrained) : f.extract.Unconstrained := by
  rw [extract_eq]
  refine ⟨List.forall_mem_append.mpr ⟨h.walked.types, List.forall_mem_map.mpr fun e he => ?_⟩,
    h.walked.elements⟩
  obtain ⟨m, hm, hkind, -, hown⟩ := (walked_tracked f).source e he
  exact (h.walked.placed hm).congr hown (congrArg Kind.children hkind)

end Forest

/-! ## Ordering -/

/-- Nodes inside trees without constraints have none. -/
theorem Node.OccursIn.unconstrained {types : List Node} {n : Node} (h : n.OccursIn types)
    (htypes : ∀ t ∈ types, t.Unconstrained) : n.Unconstrained := by
  obtain ⟨t, ht, hpath⟩ := h
  induction hpath with
  | refl => exact htypes t ht
  | tail _ hd ih => exact ih.members _ (mem_children_of_dependency hd)

namespace Drain

variable {s : Drain}

/-- The pool and the output have no constraints. -/
structure Unconstrained (s : Drain) : Prop where
  /-- The pool. -/
  pool : ∀ t ∈ s.pool, t.Unconstrained
  /-- The output. -/
  sorted : ∀ t ∈ s.sorted, t.Unconstrained

theorem Unconstrained.take (h : s.Unconstrained) {node : Node} (hnode : node.Unconstrained) :
    (s.take node).Unconstrained := by
  unfold Drain.take
  cases hfound : s.pool.filter (·.name = node.name) with
  | nil => exact h
  | cons first rest =>
    have hall : ∀ t ∈ first :: rest, t.Unconstrained := fun t ht =>
      h.pool t (List.mem_filter.mp (hfound ▸ ht)).1
    refine ⟨fun t ht => h.pool t (List.mem_filter.mp ht).1,
      List.forall_mem_append.mpr ⟨h.sorted, List.forall_mem_singleton.mpr ?_⟩⟩
    unfold chosen
    split
    · rename_i n hn
      exact hall n (List.mem_of_find?_eq_some hn)
    · split
      · exact hall first List.mem_cons_self
      · exact hnode

end Drain

/-- **Ordering brings no constraints.** -/
theorem orderTypes_unconstrained {types out : List Node} {stats : ReorderStats}
    (h : (orderTypes types).result = .ok (out, stats)) (htypes : ∀ t ∈ types, t.Unconstrained) :
    ∀ t ∈ out, t.Unconstrained := by
  obtain ⟨-, hreorder⟩ := orderTypes_eq_ok h
  have hdrained : (types.foldl Drain.next ⟨types, []⟩).Unconstrained :=
    drain_induction (fun _ _ _ hn _ hs => hs.take (hn.unconstrained htypes))
      ⟨htypes, fun _ ht => absurd ht List.not_mem_nil⟩
  exact fun t ht => hdrained.sorted t ((reorder_spec hreorder).1.mem_iff.mp ht)

end Schemata
