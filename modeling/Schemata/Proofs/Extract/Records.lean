import Schemata.Proofs.Extract.Visits

/-!
# What a walk records

A visit gives a node its name. It records a rename when the name is new for the node, and a definition
when the name is new for the planner, so a definition is made from the first visited node of its name.
`Planner.Records` says this of a part of the walk, with the nodes as they were and as they are in the
end; the parts are put together by `Records.append`.

Results:
* `canonicalize_records`: what the walk of one tree records.
* `Forest.planner_records`: what the walk of a forest records.
-/

namespace Schemata

/-- Where a rename is carried out. -/
def Rename.address (r : Rename) : Root × List Step := (r.root, r.path)

namespace Planner

open Node

/-- The renames that lead from nodes to their final forms. -/
def changes : List Visit → List Visit → List Rename
  | v :: raw, w :: final =>
    (if w.node.name = v.node.name then [] else [⟨v.place.root, v.place.path, w.node.name⟩]) ++
      changes raw final
  | _, _ => []

/-- The names of the top-level types that a planner knows. -/
def names (p : Planner) : List String := p.registry.map Node.name

/-- The planner `q` comes after `p`, and in between the nodes of `raw` were visited, which are those of
`final` in the end. -/
structure Records (p q : Planner) (raw final : List Visit) : Prop where
  /-- The places are the same. -/
  places : final.map (·.place) = raw.map (·.place)
  /-- No name is forgotten. -/
  names : p.names ⊆ q.names
  /-- The names of the nodes are known in the end. -/
  known : ∀ v ∈ final, v.node.name ∈ q.names
  /-- Every new name of a node is recorded, and nothing else. -/
  renames : q.renames = p.renames ++ changes raw final
  /-- A new definition has a name that was unknown, and is made from the first node of the name. -/
  hoisted : ∃ new, q.hoisted = p.hoisted ++ new ∧ ∀ e ∈ new, ∃ front v back,
    final = front ++ v :: back ∧ e = v.definition ∧ v.node.name ∉ p.names ∧
      ∀ u ∈ front, u.node.name ≠ v.node.name

variable {p q r : Planner} {raw final : List Visit} {here : Place} {scalars : Bool} {n : Node}
  {k : Kind}

/-! ## Parts of a walk -/

theorem changes_append {raw' final' : List Visit} (h : final.length = raw.length) :
    changes (raw ++ raw') (final ++ final') = changes raw final ++ changes raw' final' := by
  induction raw generalizing final with
  | nil =>
    obtain rfl := List.length_eq_zero_iff.mp h
    rfl
  | cons v raw ih =>
    obtain ⟨w, final, rfl⟩ := List.exists_cons_of_length_eq_add_one h
    simp only [List.cons_append, changes, List.append_assoc]
    rw [ih (Nat.succ.inj h)]

/-- The renames have the places of nodes with other names. -/
theorem mem_changes {rename : Rename} (hplaces : final.map (·.place) = raw.map (·.place))
    (h : rename ∈ changes raw final) : ∃ v ∈ raw, rename.root = v.place.root ∧
      rename.path = v.place.path ∧ v.node.name ≠ rename.name := by
  induction raw generalizing final with
  | nil => cases final <;> exact absurd h List.not_mem_nil
  | cons v raw ih =>
    cases final with
    | nil => exact absurd h List.not_mem_nil
    | cons w final =>
      rcases List.mem_append.mp h with h | h
      · split at h
        · exact absurd h List.not_mem_nil
        · rename_i hne
          obtain rfl := List.mem_singleton.mp h
          exact ⟨v, List.mem_cons_self, rfl, rfl, Ne.symm hne⟩
      · obtain ⟨u, hu, hrest⟩ := ih (List.cons.inj hplaces).2 h
        exact ⟨u, List.mem_cons_of_mem _ hu, hrest⟩

/-- No place has two renames, unless it was visited twice. -/
theorem changes_addresses : ∀ raw final : List Visit,
    ((changes raw final).map Rename.address).Sublist (raw.map Visit.address)
  | [], final => by cases final <;> exact List.Sublist.slnil
  | v :: raw, [] => List.nil_sublist _
  | v :: raw, w :: final => by
    have ih := changes_addresses raw final
    rw [changes, List.map_append]
    split
    · exact ih.cons _
    · exact ih.cons_cons _

theorem Records.length (h : Records p q raw final) : final.length = raw.length := by
  simpa using congrArg List.length h.places

theorem Records.nil (p : Planner) : Records p p [] [] :=
  ⟨rfl, List.Subset.refl _, by simp, (List.append_nil _).symm, [], (List.append_nil _).symm, by simp⟩

theorem Records.append {raw' final' : List Visit} (hpq : Records p q raw final)
    (hqr : Records q r raw' final') : Records p r (raw ++ raw') (final ++ final') where
  places := by rw [List.map_append, List.map_append, hpq.places, hqr.places]
  names := List.Subset.trans hpq.names hqr.names
  known := List.forall_mem_append.mpr ⟨fun v hv => hqr.names (hpq.known v hv), hqr.known⟩
  renames := by rw [hqr.renames, hpq.renames, changes_append hpq.length, List.append_assoc]
  hoisted := by
    obtain ⟨new, hnew, hfirst⟩ := hpq.hoisted
    obtain ⟨new', hnew', hfirst'⟩ := hqr.hoisted
    refine ⟨new ++ new', by rw [hnew', hnew, List.append_assoc], List.forall_mem_append.mpr
      ⟨fun e he => ?_, fun e he => ?_⟩⟩
    · obtain ⟨front, v, back, rfl, hdef, hunknown, hbefore⟩ := hfirst e he
      exact ⟨front, v, back ++ final', by simp, hdef, hunknown, hbefore⟩
    · obtain ⟨front, v, back, rfl, hdef, hunknown, hbefore⟩ := hfirst' e he
      refine ⟨final ++ front, v, back, by simp, hdef, fun hin => hunknown (hpq.names hin),
        List.forall_mem_append.mpr ⟨fun u hu heq => ?_, hbefore⟩⟩
      -- a node visited before has a known name
      exact hunknown (heq ▸ hpq.known u hu)

/-- Planners with the same names, renames and definitions have recorded the same. -/
theorem Records.congr (h : Records p q raw final) (hnames : r.names = q.names)
    (hrenames : r.renames = q.renames) (hhoisted : r.hoisted = q.hoisted) :
    Records p r raw final where
  places := h.places
  names := hnames ▸ h.names
  known := hnames ▸ h.known
  renames := hrenames ▸ h.renames
  hoisted := hhoisted ▸ h.hoisted

/-! ## One visit -/

/-- A name that is known changes nothing, and one that is unknown makes a definition. -/
theorem place_cases (p : Planner) (origin : String) (n : Node) :
    p.choose n ∈ p.names ∧ p.place origin n = (p.choose n, p) ∨
      p.choose n ∉ p.names ∧ p.place origin n = (p.choose n,
        { p with hoisted := p.hoisted ++ [⟨definition n (p.choose n), origin⟩] }) := by
  have hiff : (p.lookup? (p.choose n)).isSome = true ↔ p.choose n ∈ p.names := by
    rw [lookup?_eq, names, ← not_iff_not, ← named?_eq_none_iff]
    simp
  unfold place
  simp only
  split
  · rename_i hsome
    exact Or.inl ⟨hiff.mp hsome, rfl⟩
  · rename_i hnone
    exact Or.inr ⟨fun hin => hnone (hiff.mpr hin), rfl⟩

/-- A visit gives the node the name of its place among the definitions, and records a new name. -/
theorem settle_eq (p : Planner) (here : Place) (h : (scalars || n.kind.isComposite) = true) :
    p.settle here scalars n = (n.rename (p.place ("/".intercalate here.trail) n).1,
      { (p.place ("/".intercalate here.trail) n).2 with
        renames := p.renames ++ if (p.place ("/".intercalate here.trail) n).1 = n.name then []
          else [⟨here.root, here.path, (p.place ("/".intercalate here.trail) n).1⟩] }) := by
  have hrenames := renames_place p ("/".intercalate here.trail) n
  unfold settle
  rw [if_pos h]
  simp only
  split
  · rename_i heq
    rw [List.append_nil, ← hrenames, heq, rename_self]
  · rw [hrenames]

/-- Placing a node records its name; its form before the visits below it does not matter. -/
theorem place_records (p : Planner) (here : Place) (n : Node) (k : Kind) :
    Records p
      { (p.place ("/".intercalate here.trail) n).2 with
        renames := p.renames ++ if (p.place ("/".intercalate here.trail) n).1 = n.name then []
          else [⟨here.root, here.path, (p.place ("/".intercalate here.trail) n).1⟩] }
      [⟨here, ⟨n.head, k⟩⟩] [⟨here, n.rename (p.place ("/".intercalate here.trail) n).1⟩] := by
  have hchanges : ∀ name, changes [⟨here, ⟨n.head, k⟩⟩] [⟨here, n.rename name⟩] =
      if name = n.name then [] else [⟨here.root, here.path, name⟩] := fun name => List.append_nil _
  rcases place_cases p ("/".intercalate here.trail) n with ⟨hin, heq⟩ | ⟨hnot, heq⟩ <;>
    rw [heq, ← hchanges]
  · exact ⟨rfl, List.Subset.refl _, List.forall_mem_singleton.mpr hin, rfl, [],
      (List.append_nil _).symm, by simp⟩
  · have hnames : ∀ renames, names ⟨p.declared,
        p.hoisted ++ [⟨definition n (p.choose n), "/".intercalate here.trail⟩], renames⟩ =
          p.names ++ [p.choose n] := fun renames => by
      simp only [names, registry, List.map_append, List.map_cons, List.map_nil, List.append_assoc]
      rfl
    refine ⟨rfl, ?_, List.forall_mem_singleton.mpr ?_, rfl, _, rfl, List.forall_mem_singleton.mpr
      ⟨[], _, [], rfl, rfl, hnot, by simp⟩⟩
    · rw [hnames]
      exact List.subset_append_left _ _
    · rw [hnames]
      exact List.mem_append_right _ List.mem_cons_self

/-- Giving a node its name visits it, behind what has been visited below it. -/
theorem settle_records (h : n.isRef = false) (hk : Records p q (k.visits here) (n.kind.visits here))
    (hcomp : n.kind.isComposite = k.isComposite) :
    Records p (q.settle here scalars n).2 (Node.visits here scalars ⟨n.head, k⟩)
      ((q.settle here scalars n).1.visits here scalars) := by
  rw [visits_of_not_ref (n := ⟨n.head, k⟩) here scalars h, ← hcomp]
  cases hs : scalars || n.kind.isComposite with
  | false =>
    rw [settle_of_inner q here hs, visits_of_not_ref here scalars h, hs]
    simpa using hk
  | true =>
    have hfinal : ∀ name, (n.rename name).visits here scalars =
        n.kind.visits here ++ [⟨here, n.rename name⟩] := fun name => by
      rw [visits_of_not_ref (n := n.rename name) here scalars h]
      exact congrArg (n.kind.visits here ++ ·) (if_pos hs)
    rw [settle_eq q here hs, hfinal, if_pos rfl]
    exact hk.append (place_records q here n k)

/-! ## One tree -/

mutual
/-- **What the walk of a tree records.** -/
theorem canonicalize_records (p : Planner) (here : Place) (scalars : Bool) : ∀ n : Node,
    Records p (p.canonicalize here scalars n).2 (n.visits here scalars)
      ((p.canonicalize here scalars n).1.visits here scalars)
  | ⟨h, k⟩ => by
    cases hr : Node.isRef ⟨h, k⟩ with
    | true =>
      rw [canonicalize_of_isRef p here scalars hr, visits_of_isRef here scalars hr]
      exact Records.nil p
    | false =>
      rw [canonicalize_eq p here scalars hr]
      exact settle_records (n := ⟨h, _⟩) hr (canonicalKind_records p here k)
        (isComposite_canonicalKind p here k)
theorem canonicalKind_records (p : Planner) (here : Place) : ∀ k : Kind,
    Records p (p.canonicalKind here k).2 (k.visits here) ((p.canonicalKind here k).1.visits here)
  | .leaf _ => Records.nil p
  | .array item s => by
    rw [canonicalKind_array]
    exact canonicalize_records p _ false item
  | .dictionary key value d => by
    rw [canonicalKind_dictionary]
    exact (canonicalize_records p _ false key).append (canonicalize_records _ _ false value)
  | .object fields d => by
    rw [canonicalKind_object]
    exact canonicalFields_records p here 0 fields
theorem canonicalFields_records (p : Planner) (here : Place) (index : Nat) :
    ∀ fields : List Field, Records p (p.canonicalFields here index fields).2
      (Field.visits here index fields)
      (Field.visits here index (p.canonicalFields here index fields).1)
  | [] => Records.nil p
  | ⟨h, type⟩ :: rest => by
    rw [canonicalFields_cons]
    exact (canonicalize_records p _ true type).append (canonicalFields_records _ here _ rest)
end

/-! ## The whole forest -/

theorem typeVisits_of_not_ref (index : Nat) (h : n.isRef = false) :
    n.typeVisits index = n.kind.visits (typePlace index n) := if_neg (by simp [h])

/-- The walk of a declared type replaces it and records what is inside it. -/
theorem walkType_records {pre rest : List Node} (hp : p.declared = pre ++ n :: rest) :
    ∃ c, (p.walkType pre.length n).declared = pre ++ c :: rest ∧
      Records p (p.walkType pre.length n) (n.typeVisits pre.length) (c.typeVisits pre.length) := by
  cases hn : n.isRef with
  | true =>
    have hnone : n.typeVisits pre.length = [] := if_pos hn
    refine ⟨n, by rw [walkType_of_isRef p _ hn, hp], ?_⟩
    rw [walkType_of_isRef p _ hn, hnone]
    exact Records.nil p
  | false =>
    have hkind := canonicalKind_records p (typePlace pre.length n) n.kind
    have hdeclared := (canonicalKind_places p (typePlace pre.length n) n.kind).grows.declared
    refine ⟨⟨n.head, _⟩, by rw [walkType_of_not_ref hn hp], ?_⟩
    rw [walkType_of_not_ref hn hp, typeVisits_of_not_ref _ hn,
      typeVisits_of_not_ref (n := ⟨n.head, _⟩) _ hn]
    refine hkind.congr ?_ rfl rfl
    -- the final form has the name of the type
    simp [names, registry, hdeclared, hp, Node.name]

theorem walkTypes_records : ∀ (types pre : List Node) (p : Planner), p.declared = pre ++ types →
    ∃ final, (p.walkTypes pre.length types).declared = pre ++ final ∧
      Records p (p.walkTypes pre.length types) (visitsFrom typeVisits pre.length types)
        (visitsFrom typeVisits pre.length final)
  | [], pre, p, hp => ⟨[], hp, Records.nil p⟩
  | n :: rest, pre, p, hp => by
    obtain ⟨c, hc, hfirst⟩ := walkType_records hp
    obtain ⟨final, hfinal, hrest⟩ := walkTypes_records rest (pre ++ [c]) (p.walkType pre.length n)
      (by rw [hc, List.append_assoc]; rfl)
    rw [List.length_append, List.length_singleton] at hfinal hrest
    exact ⟨c :: final, by rw [walkTypes, hfinal, List.append_assoc]; rfl, hfirst.append hrest⟩

/-- The final form of an element has the place of the element. -/
theorem elementPlace_canonicalize (p : Planner) (index : Nat) (n : Node) :
    elementPlace index (p.canonicalize (elementPlace index n) true n).1 = elementPlace index n := by
  obtain ⟨name, hhead⟩ := head_canonicalize p (elementPlace index n) true n
  have hlabel : (p.canonicalize (elementPlace index n) true n).1.label = n.label := by
    rw [Node.label, hhead]
    rfl
  exact congrArg (fun label => (⟨.element index, [], [s!"elements/{label}"]⟩ : Place)) hlabel

theorem walkElements_records : ∀ (elements : List Node) (p : Planner) (index : Nat),
    Records p (p.walkElements index elements) (visitsFrom elementVisits index elements)
      (visitsFrom elementVisits index (p.finalElements index elements))
  | [], p, _ => Records.nil p
  | n :: rest, p, index => by
    have hfirst := canonicalize_records p (elementPlace index n) true n
    refine Records.append ?_ (walkElements_records rest (p.walkElement index n) (index + 1))
    rw [elementVisits, elementVisits, elementPlace_canonicalize]
    exact hfirst

end Planner

/-- **What the walk of a forest records.** -/
theorem Forest.planner_records (f : Forest) :
    Planner.Records ⟨f.types, [], []⟩ f.planner f.visits f.walked.visits := by
  obtain ⟨final, hfinal, htypes⟩ := Planner.walkTypes_records f.types [] ⟨f.types, [], []⟩ rfl
  have hdeclared : f.planner.declared = final := f.planner_declared.trans hfinal
  rw [visits, visits, walked, hdeclared]
  exact htypes.append (Planner.walkElements_records f.elements f.typesPlanner 0)

end Schemata
