import Schemata.Proofs.Extract.Sharing

/-!
# Places before and after extraction

A place of a forest is a root and a path that enters no reference. Extraction keeps the places and
gives the nodes there new names at most. The node at a place was given its final form by a planner of
its own, in between the start and the end of the walk: while a declared type is walked, the types in
front of it have their final forms and the others, itself included, are still raw.

Results:
* `canonicalize_reach`: the node at the end of a path was given its final form in between.
* `walkTypes_at`, `walkElements_at`: the planners that walk one type and one element.
* `Forest.extract_reach`: every place of a forest is a place of the final forest.
* `Forest.extract_firstFit`: a placed node has the first name that fits it among the types as they
  were during its walk and the new definitions.
-/

namespace Schemata

/-! ## Places -/

/-- The node at the end of a path that enters no reference. -/
def Node.reach? (n : Node) : List Step → Option Node
  | [] => some n
  | step :: rest => if n.isRef then none else (n.child? step).bind fun child => child.reach? rest

/-- Whether scalars are placed at the end of a step. -/
def Step.placesScalars : Step → Bool
  | .field _ => true
  | .item | .key | .value => false

/-- Whether scalars are placed at the end of a path, given whether they are at its start. -/
def placesScalars (scalars : Bool) : List Step → Bool
  | [] => scalars
  | step :: rest => placesScalars step.placesScalars rest

namespace Forest

/-- The tree of a root. -/
def root? (f : Forest) : Root → Option Node
  | .type i => f.types[i]?
  | .element i => f.elements[i]?

/-- The node at a place of a forest. -/
def reach? (f : Forest) (root : Root) (path : List Step) : Option Node :=
  (f.root? root).bind fun n => n.reach? path

/-- The node at the end of a path down from a root, below references too. -/
def at? (f : Forest) (root : Root) (path : List Step) : Option Node :=
  (f.root? root).bind fun n => n.at? path

/-- Whether scalars are placed at a place of a forest. -/
def scalarsAt : Root → List Step → Bool
  | .type _, path => placesScalars false path
  | .element _, path => placesScalars true path

/-- A node at a place is placed. -/
structure PlacedAt (root : Root) (path : List Step) (n : Node) : Prop where
  /-- It is no reference. -/
  not_ref : n.isRef = false
  /-- It is no declared type. -/
  inner : ∀ i, root = .type i → path ≠ []
  /-- It is a composite, or scalars are placed there too. -/
  named : (scalarsAt root path || n.kind.isComposite) = true

/-- The declared types as they are while a tree is walked: those in front of a declared type have their
final forms, and for an element all of them have. -/
def typesDuring (f : Forest) : Root → List Node
  | .type j => f.planner.declared.take j ++ f.types.drop j
  | .element _ => f.planner.declared

end Forest

/-- Kinds that are not named after their members. -/
def Kind.ownName : Kind → Bool
  | .array .. | .dictionary .. => false
  | .leaf _ | .object .. => true

namespace Node

variable {n c x : Node} {step : Step} {path : List Step}

theorem baseName_of_ownName (h : n.kind.ownName = true) : n.baseName = n.name := by
  obtain ⟨_, k⟩ := n
  cases k with
  | leaf spec => rfl
  | object fields d => rfl
  | _ => cases h

theorem reach?_cons (h : n.reach? (step :: path) = some x) :
    n.isRef = false ∧ ∃ c, n.child? step = some c ∧ c.reach? path = some x := by
  rw [reach?] at h
  split at h
  · cases h
  · rename_i hr
    exact ⟨by simpa using hr, Option.bind_eq_some_iff.mp h⟩

theorem reach?_of_child (hr : n.isRef = false) (hc : n.child? step = some c) :
    n.reach? (step :: path) = c.reach? path := by
  rw [reach?, if_neg (by simp [hr]), hc, Option.bind_some]

theorem placedAt_of_mem_fields {fields : List Field} {f : Field} (h : f ∈ fields) :
    f.type.placedAt true ⊆ Field.placedAll fields := by
  induction fields with
  | nil => exact absurd h List.not_mem_nil
  | cons g rest ih =>
    obtain ⟨_, _⟩ := g
    rcases List.mem_cons.mp h with rfl | h
    · exact List.subset_append_left _ _
    · exact List.subset_append_of_subset_right _ (ih h)

/-- What is placed in a child is placed below the node. -/
theorem placedAt_of_child (h : n.child? step = some c) :
    c.placedAt step.placesScalars ⊆ n.kind.placed := by
  obtain ⟨_, k⟩ := n
  cases step <;> cases k <;> simp only [child?, reduceCtorEq, Option.some.injEq] at h
  · obtain ⟨f, hf, rfl⟩ := Option.map_eq_some_iff.mp h
    exact placedAt_of_mem_fields (List.mem_of_getElem? hf)
  · exact h ▸ List.Subset.refl _
  · exact h ▸ List.subset_append_left _ _
  · exact h ▸ List.subset_append_right _ _

/-- A node at the end of a path is placed in the tree. -/
theorem mem_placedAt_of_reach (hx : x.isRef = false) : ∀ (path : List Step) (scalars : Bool)
    (n : Node), n.reach? path = some x →
      (placesScalars scalars path || x.kind.isComposite) = true → x ∈ n.placedAt scalars
  | [], scalars, n, h, hs => by
    obtain rfl := Option.some.inj h
    rw [placedAt_of_placed hx (by exact hs)]
    exact List.mem_cons_self
  | step :: path, scalars, n, h, hs => by
    obtain ⟨hr, c, hc, hreach⟩ := reach?_cons h
    have hin := placedAt_of_child hc (mem_placedAt_of_reach hx path _ c hreach hs)
    cases hroot : scalars || n.kind.isComposite with
    | true =>
      rw [placedAt_of_placed hr hroot]
      exact List.mem_cons_of_mem _ hin
    | false => rwa [placedAt_of_inner hr hroot]

end Node

namespace Planner

open Node

variable {p q : Planner} {here : Place} {scalars : Bool} {n x c : Node}

/-! ## One tree -/

/-- The final form of a node has its head, but for the name. -/
theorem head_canonicalize (p : Planner) (here : Place) (scalars : Bool) (n : Node) :
    ∃ name, (p.canonicalize here scalars n).1.head = { n.head with name := name } := by
  cases hr : n.isRef with
  | true => exact ⟨n.name, by rw [canonicalize_of_isRef p here scalars hr]; rfl⟩
  | false =>
    obtain ⟨name, heq⟩ := exists_rename_settle (p.canonicalKind here n.kind).2 here scalars
      ⟨n.head, (p.canonicalKind here n.kind).1⟩
    exact ⟨name, by rw [canonicalize_eq p here scalars hr, heq]; rfl⟩

theorem isRef_canonicalize (p : Planner) (here : Place) (scalars : Bool) (n : Node) :
    (p.canonicalize here scalars n).1.isRef = n.isRef := by
  obtain ⟨name, h⟩ := head_canonicalize p here scalars n
  rw [isRef, h]
  rfl

theorem ownName_canonicalKind (p : Planner) (here : Place) (k : Kind) :
    (p.canonicalKind here k).1.ownName = k.ownName := by
  cases k with
  | leaf _ => rfl
  | array item s => rw [canonicalKind_array]; rfl
  | dictionary key value d => rw [canonicalKind_dictionary]; rfl
  | object fields d => rw [canonicalKind_object]; rfl

/-- Walking a node keeps whether it is a composite, and whether it is named after its members. -/
theorem kind_canonicalize (p : Planner) (here : Place) (scalars : Bool) (n : Node) :
    (p.canonicalize here scalars n).1.kind.isComposite = n.kind.isComposite ∧
      (p.canonicalize here scalars n).1.kind.ownName = n.kind.ownName := by
  cases hr : n.isRef with
  | true =>
    rw [canonicalize_of_isRef p here scalars hr]
    exact ⟨rfl, rfl⟩
  | false =>
    obtain ⟨name, heq⟩ := exists_rename_settle (p.canonicalKind here n.kind).2 here scalars
      ⟨n.head, (p.canonicalKind here n.kind).1⟩
    rw [canonicalize_eq p here scalars hr, heq]
    exact ⟨isComposite_canonicalKind p here n.kind, ownName_canonicalKind p here n.kind⟩

/-- A placed node gets the first name that fits it. -/
theorem canonicalize_firstFit (p : Planner) (here : Place) (hr : n.isRef = false)
    (hs : (scalars || n.kind.isComposite) = true) :
    FirstFit (p.canonicalize here scalars n).2.registry
      ((p.canonicalize here scalars n).1.rename n.name) (p.canonicalize here scalars n).1.name := by
  rw [canonicalize_eq p here scalars hr]
  rw [← isComposite_canonicalKind p here n.kind] at hs
  obtain ⟨name, q, heq, -, hfit, -⟩ :=
    settle_of_placed (n := ⟨n.head, (p.canonicalKind here n.kind).1⟩) (p.canonicalKind here n.kind).2
      here hs
  rw [heq]
  exact hfit

theorem canonicalFields_getElem? (here : Place) : ∀ (fields : List Field) (p : Planner)
    (index i : Nat) (f : Field), fields[i]? = some f → ∃ q there, Grows p q ∧
      Grows (q.canonicalize there true f.type).2 (p.canonicalFields here index fields).2 ∧
      ((p.canonicalFields here index fields).1[i]?).map (·.type) =
        some (q.canonicalize there true f.type).1
  | [], _, _, _, _, h => by simp at h
  | ⟨h, type⟩ :: rest, p, index, 0, f, hf => by
    obtain rfl := Option.some.inj hf
    rw [canonicalFields_cons]
    exact ⟨p, _, Grows.refl p, (canonicalFields_places _ here _ rest).grows, rfl⟩
  | ⟨h, type⟩ :: rest, p, index, i + 1, f, hf => by
    rw [canonicalFields_cons]
    obtain ⟨q, there, hpq, hq, heq⟩ := canonicalFields_getElem? here rest _ (index + 1) i f hf
    exact ⟨q, there, (canonicalize_places p _ true type).grows.trans hpq, hq, heq⟩

/-- A child was given its final form in between. -/
theorem canonicalKind_child (p : Planner) (here : Place) {step : Step}
    (hc : n.child? step = some c) : ∃ q there, Grows p q ∧
      Grows (q.canonicalize there step.placesScalars c).2 (p.canonicalKind here n.kind).2 ∧
      (⟨n.head, (p.canonicalKind here n.kind).1⟩ : Node).child? step =
        some (q.canonicalize there step.placesScalars c).1 := by
  obtain ⟨h, k⟩ := n
  cases step <;> cases k <;> simp only [child?, reduceCtorEq, Option.some.injEq] at hc
  · rename_i i fields d
    obtain ⟨f, hf, rfl⟩ := Option.map_eq_some_iff.mp hc
    simp only [canonicalKind_object]
    exact canonicalFields_getElem? here fields p 0 i f hf
  · subst hc
    simp only [canonicalKind_array]
    exact ⟨p, _, Grows.refl p, Grows.refl _, rfl⟩
  · subst hc
    simp only [canonicalKind_dictionary]
    exact ⟨p, _, Grows.refl p, (canonicalize_places _ _ false _).grows, rfl⟩
  · subst hc
    simp only [canonicalKind_dictionary]
    exact ⟨_, _, (canonicalize_places p _ false _).grows, Grows.refl _, rfl⟩

/-- **The node at the end of a path was given its final form in between.** -/
theorem canonicalize_reach : ∀ (path : List Step) (p : Planner) (here : Place) (scalars : Bool)
    (n : Node), n.reach? path = some x → ∃ q there, Grows p q ∧
      Grows (q.canonicalize there (placesScalars scalars path) x).2
        (p.canonicalize here scalars n).2 ∧
      (p.canonicalize here scalars n).1.reach? path =
        some (q.canonicalize there (placesScalars scalars path) x).1
  | [], p, here, scalars, n, h => by
    obtain rfl := Option.some.inj h
    exact ⟨p, here, Grows.refl p, Grows.refl _, rfl⟩
  | step :: path, p, here, scalars, n, h => by
    obtain ⟨hr, c, hc, hreach⟩ := reach?_cons h
    obtain ⟨q, there, hpq, hq, hchild⟩ := canonicalKind_child p here hc
    obtain ⟨q', there', hqq', hq', hx⟩ :=
      canonicalize_reach path q there step.placesScalars c hreach
    obtain ⟨name, heq⟩ := exists_rename_settle (p.canonicalKind here n.kind).2 here scalars
      ⟨n.head, (p.canonicalKind here n.kind).1⟩
    have hgrows := grows_settle (p.canonicalKind here n.kind).2 here scalars
      ⟨n.head, (p.canonicalKind here n.kind).1⟩
    rw [canonicalize_eq p here scalars hr]
    refine ⟨q', there', hpq.trans hqq', (hq'.trans hq).trans hgrows, ?_⟩
    rw [heq, reach?_of_child (n := Node.rename ⟨n.head, _⟩ name) hr hchild]
    exact hx

/-! ## The planners in between -/

/-- The walk of types keeps what stands before them, and their heads. -/
theorem walkTypes_prefix : ∀ (types pre : List Node) (p : Planner), p.declared = pre ++ types →
    ∃ final, (p.walkTypes pre.length types).declared = pre ++ final ∧
      p.hoisted <+: (p.walkTypes pre.length types).hoisted
  | [], pre, p, hp => ⟨[], hp, List.prefix_refl _⟩
  | n :: rest, pre, p, hp => by
    obtain ⟨c, hc, hgrows⟩ : ∃ c, (p.walkType pre.length n).declared = (pre ++ [c]) ++ rest ∧
        p.hoisted <+: (p.walkType pre.length n).hoisted := by
      cases hn : n.isRef with
      | true =>
        rw [walkType_of_isRef p _ hn]
        exact ⟨n, by rw [hp, List.append_assoc]; rfl, List.prefix_refl _⟩
      | false =>
        rw [walkType_of_not_ref hn hp]
        exact ⟨_, by rw [List.append_assoc]; rfl, (canonicalKind_places p _ n.kind).grows.hoisted⟩
    obtain ⟨final, hfinal, hrest⟩ := walkTypes_prefix rest (pre ++ [c]) _ hc
    rw [List.length_append, List.length_singleton] at hfinal hrest
    rw [walkTypes]
    exact ⟨c :: final, by rw [hfinal, List.append_assoc]; rfl, hgrows.trans hrest⟩

/-- **The planner that walks one type**: the types in front of it have their final forms, the others
are raw. -/
theorem walkTypes_at : ∀ (types pre : List Node) (p : Planner), p.declared = pre ++ types →
    ∀ (j : Nat) (n : Node), types[j]? = some n → n.isRef = false →
      ∃ q : Planner, q.declared =
          (p.walkTypes pre.length types).declared.take (pre.length + j) ++ types.drop j ∧
        (p.walkTypes pre.length types).declared[pre.length + j]? =
          some ⟨n.head, (q.canonicalKind (typePlace (pre.length + j) n) n.kind).1⟩ ∧
        (q.canonicalKind (typePlace (pre.length + j) n) n.kind).2.hoisted <+:
          (p.walkTypes pre.length types).hoisted
  | [], _, _, _, _, _, h, _ => by simp at h
  | n :: rest, pre, p, hp, 0, m, hm, hr => by
    obtain rfl := Option.some.inj hm
    have hwalk := walkType_of_not_ref hr hp
    obtain ⟨final, hfinal, hrest⟩ := walkTypes_prefix rest
      (pre ++ [⟨n.head, (p.canonicalKind (typePlace pre.length n) n.kind).1⟩])
      (p.walkType pre.length n) (by rw [hwalk, List.append_assoc]; rfl)
    rw [List.length_append, List.length_singleton] at hfinal hrest
    rw [walkTypes, Nat.add_zero]
    refine ⟨p, ?_, ?_, ?_⟩
    · rw [hfinal, List.append_assoc, List.take_left, List.drop_zero, hp]
    · rw [hfinal, List.append_assoc, List.getElem?_append_right (Nat.le_refl _), Nat.sub_self,
        List.singleton_append, List.getElem?_cons_zero]
    · have hkept : (p.walkType pre.length n).hoisted =
          (p.canonicalKind (typePlace pre.length n) n.kind).2.hoisted := by
        simp only [hwalk]
      rwa [hkept] at hrest
  | n :: rest, pre, p, hp, j + 1, m, hm, hr => by
    obtain ⟨c, hc⟩ : ∃ c, (p.walkType pre.length n).declared = (pre ++ [c]) ++ rest := by
      cases hn : n.isRef with
      | true =>
        rw [walkType_of_isRef p _ hn]
        exact ⟨n, by rw [hp, List.append_assoc]; rfl⟩
      | false =>
        rw [walkType_of_not_ref hn hp]
        exact ⟨_, by rw [List.append_assoc]; rfl⟩
    obtain ⟨q, hq, hget, hhoisted⟩ := walkTypes_at rest (pre ++ [c]) _ hc j m hm hr
    rw [List.length_append, List.length_singleton, Nat.add_assoc, Nat.add_comm 1 j] at *
    rw [walkTypes]
    exact ⟨q, hq, hget, hhoisted⟩

/-- **The planner that walks one element**: all types have their final forms. -/
theorem walkElements_at : ∀ (elements : List Node) (p : Planner) (index j : Nat) (n : Node),
    elements[j]? = some n → ∃ (q : Planner) (there : Place), q.declared = p.declared ∧
      (p.finalElements index elements)[j]? = some (q.canonicalize there true n).1 ∧
      (q.canonicalize there true n).2.hoisted <+: (p.walkElements index elements).hoisted
  | [], _, _, _, _, h => by simp at h
  | n :: rest, p, index, 0, m, hm => by
    obtain rfl := Option.some.inj hm
    exact ⟨p, elementPlace index n, rfl, rfl, (walkElements_places rest _ _).grows.hoisted⟩
  | n :: rest, p, index, j + 1, m, hm => by
    obtain ⟨q, there, hq, hget, hhoisted⟩ :=
      walkElements_at rest (p.walkElement index n) (index + 1) j m hm
    have hgrows := (canonicalize_places p (elementPlace index n) true n).grows
    exact ⟨q, there, hq.trans hgrows.declared, hget, hhoisted⟩

end Planner

/-! ## The whole forest -/

namespace Forest

variable {f : Forest} {root : Root} {path : List Step} {n m x : Node} {j : Nat}

theorem planner_declared (f : Forest) : f.planner.declared = f.typesPlanner.declared :=
  (planner_places f).grows.declared

theorem types_extract (f : Forest) :
    f.extract.types = f.planner.declared ++ f.planner.hoisted.map (·.node) := by
  rw [extract_eq]
  rfl

theorem elements_extract (f : Forest) : f.extract.elements = f.finalElements := by
  rw [extract_eq]

/-- The node at a place inside a declared type was given its final form while the type was walked. -/
theorem extract_reach_type {step : Step} (h : f.reach? (.type j) (step :: path) = some x) :
    ∃ (q : Planner) (there : Planner.Place), q.declared = f.typesDuring (.type j) ∧
      (q.canonicalize there (scalarsAt (.type j) (step :: path)) x).2.hoisted <+:
        f.planner.hoisted ∧
      f.extract.reach? (.type j) (step :: path) =
        some (q.canonicalize there (scalarsAt (.type j) (step :: path)) x).1 := by
  obtain ⟨n, hn, hreach⟩ := Option.bind_eq_some_iff.mp h
  obtain ⟨hr, c, hc, hbelow⟩ := Node.reach?_cons hreach
  obtain ⟨q, hq, hget, hhoisted⟩ :=
    Planner.walkTypes_at f.types [] ⟨f.types, [], []⟩ rfl j n hn hr
  rw [List.length_nil, Nat.zero_add] at hq hget hhoisted
  obtain ⟨q', there, hqq', hq', hchild⟩ :=
    Planner.canonicalKind_child q (Planner.typePlace j n) hc
  obtain ⟨q'', there', hqq'', hq'', hx⟩ :=
    Planner.canonicalize_reach path q' there step.placesScalars c hbelow
  refine ⟨q'', there', ?_, ?_, ?_⟩
  · rw [(hqq'.trans hqq'').declared, hq, typesDuring, planner_declared]
    rfl
  · exact ((hq''.trans hq').hoisted.trans hhoisted).trans (planner_places f).grows.hoisted
  · have hin : f.extract.types[j]? =
        some ⟨n.head, (q.canonicalKind (Planner.typePlace j n) n.kind).1⟩ := by
      have hget : f.typesPlanner.declared[j]? = some _ := hget
      rw [types_extract, planner_declared,
        List.getElem?_append_left (List.getElem?_eq_some_iff.mp hget).1]
      exact hget
    rw [reach?, root?, hin, Option.bind_some, Node.reach?_of_child (n := ⟨n.head, _⟩) hr hchild]
    exact hx

/-- The node at a place inside an element was given its final form while the element was walked. -/
theorem extract_reach_element (h : f.reach? (.element j) path = some x) :
    ∃ (q : Planner) (there : Planner.Place), q.declared = f.typesDuring (.element j) ∧
      (q.canonicalize there (scalarsAt (.element j) path) x).2.hoisted <+: f.planner.hoisted ∧
      f.extract.reach? (.element j) path =
        some (q.canonicalize there (scalarsAt (.element j) path) x).1 := by
  obtain ⟨n, hn, hreach⟩ := Option.bind_eq_some_iff.mp h
  obtain ⟨q, there, hq, hget, hhoisted⟩ := Planner.walkElements_at f.elements f.typesPlanner 0 j n hn
  obtain ⟨q', there', hqq', hq', hx⟩ := Planner.canonicalize_reach path q there true n hreach
  refine ⟨q', there', ?_, hq'.hoisted.trans hhoisted, ?_⟩
  · rw [hqq'.declared, hq, typesDuring, planner_declared]
  · rw [reach?, root?, elements_extract, show f.finalElements[j]? = _ from hget, Option.bind_some]
    exact hx

/-- **Every place of a forest is a place of the final forest.** The node there was given its final form
by a planner with the types as they were during its walk. -/
theorem extract_reach (hinner : ∀ i, root = .type i → path ≠ [])
    (h : f.reach? root path = some x) :
    ∃ (q : Planner) (there : Planner.Place), q.declared = f.typesDuring root ∧
      (q.canonicalize there (scalarsAt root path) x).2.hoisted <+: f.planner.hoisted ∧
      f.extract.reach? root path = some (q.canonicalize there (scalarsAt root path) x).1 := by
  cases root with
  | element j => exact extract_reach_element h
  | type j =>
    cases path with
    | nil => exact absurd rfl (hinner j rfl)
    | cons step path => exact extract_reach_type h

/-- **A placed node has the first name that fits it** among the types as they were during its walk and
the new definitions. -/
theorem extract_firstFit (h : f.reach? root path = some x) (hx : PlacedAt root path x)
    (hm : f.extract.reach? root path = some m) :
    PlacedAt root path m ∧ m.kind.ownName = x.kind.ownName ∧
      Node.FirstFit (f.typesDuring root ++ f.planner.hoisted.map (·.node)) (m.rename x.name)
        m.name := by
  obtain ⟨q, there, hq, hhoisted, heq⟩ := extract_reach hx.inner h
  obtain rfl := Option.some.inj (hm.symm.trans heq)
  have hgrows := (Planner.canonicalize_places q there (scalarsAt root path) x).grows
  obtain ⟨hcomposite, hown⟩ := Planner.kind_canonicalize q there (scalarsAt root path) x
  refine ⟨⟨?_, hx.inner, by rw [hcomposite, hx.named]⟩, hown, ?_⟩
  · rw [Planner.isRef_canonicalize, hx.not_ref]
  · obtain ⟨new, hnew⟩ := hhoisted
    have hfit := (Planner.canonicalize_firstFit q there hx.not_ref hx.named).append
      (new.map (·.node))
    rwa [Planner.registry, hgrows.declared, hq, List.append_assoc, ← List.map_append, hnew] at hfit

/-- A placed node of the final forest is among its placed nodes. -/
theorem mem_placed_of_reach (h : f.reach? root path = some x) (hx : PlacedAt root path x) :
    x ∈ f.placed := by
  rw [mem_placed]
  cases root with
  | element j =>
    obtain ⟨n, hn, hreach⟩ := Option.bind_eq_some_iff.mp h
    exact Or.inr ⟨n, List.mem_of_getElem? hn,
      Node.mem_placedAt_of_reach hx.not_ref path true n hreach hx.named⟩
  | type j =>
    obtain ⟨n, hn, hreach⟩ := Option.bind_eq_some_iff.mp h
    cases path with
    | nil => exact absurd rfl (hx.inner j rfl)
    | cons step path =>
      obtain ⟨hr, c, hc, hbelow⟩ := Node.reach?_cons hreach
      exact Or.inl ⟨n, List.mem_of_getElem? hn, hr, Node.placedAt_of_child hc
        (Node.mem_placedAt_of_reach hx.not_ref path _ c hbelow hx.named)⟩

end Forest

end Schemata
