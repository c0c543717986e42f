import Schemata.Proofs.Extract.Reach

/-!
# The places that a walk visits

A walk visits the placed nodes of a forest one after the other, each behind those below it: first the
nodes inside the declared types, then the elements with the nodes inside them. Here the visits are read
off the forest alone, each with its place as the planner keeps it.

Results:
* `Forest.mem_visits`: a visited node stands at its place, is no reference and no declared type, and the
  planner has the words for the way to it.
* `Forest.nodup_visits`: no place is visited twice.
-/

namespace Schemata

/-- A node with the place where it stands. -/
structure Visit where
  /-- The place. -/
  place : Planner.Place
  /-- The node. -/
  node : Node

namespace Visit

/-- The tree and the path down from its root that lead to the node. -/
def address (v : Visit) : Root × List Step := (v.place.root, v.place.path)

/-- The new definition that is made from the node: it has the node's name for a label, too, and is
marked as nested. -/
def definition (v : Visit) : Hoisted :=
  ⟨⟨{ v.node.head with label := v.node.name, isNested := true }, v.node.kind⟩,
    "/".intercalate v.place.trail⟩

end Visit

/-! ## Paths in words -/

/-- The word for a step down from a node. -/
def Node.word (n : Node) : Step → String
  | .item => "items"
  | .key => "keys"
  | .value => "values"
  | .field i =>
    match n.kind with
    | .object fields _ => (fields[i]?.map (·.head.name)).getD ""
    | _ => ""

/-- The words for the steps of a path. -/
def Node.trail (n : Node) : List Step → List String
  | [] => []
  | step :: rest => n.word step :: (n.child? step).elim [] fun child => child.trail rest

/-- The words for a place of a forest, those for its root first. -/
def Forest.trail (f : Forest) : Root → List Step → List String
  | .type i, path => f.types[i]?.elim [] fun n => s!"types/{n.name}" :: n.trail path
  | .element i, path => f.elements[i]?.elim [] fun n => s!"elements/{n.label}" :: n.trail path

/-! ## The order of visits -/

mutual
/-- The placed nodes of a tree in the order of a walk, each behind those below it. -/
def Node.visits (here : Planner.Place) (scalars : Bool) : Node → List Visit
  | ⟨h, k⟩ =>
    if h.isRef then []
    else k.visits here ++ if scalars || k.isComposite then [⟨here, ⟨h, k⟩⟩] else []
/-- The placed nodes below the root of a tree. -/
def Kind.visits (here : Planner.Place) : Kind → List Visit
  | .leaf _ => []
  | .array item _ => item.visits (here.down .item "items") false
  | .dictionary key value _ =>
    key.visits (here.down .key "keys") false ++ value.visits (here.down .value "values") false
  | .object fields _ => Field.visits here 0 fields
/-- The placed nodes of the types of fields from position `index` on. -/
def Field.visits (here : Planner.Place) (index : Nat) : List Field → List Visit
  | [] => []
  | ⟨h, type⟩ :: rest =>
    type.visits (here.down (.field index) h.name) true ++ Field.visits here (index + 1) rest
end

/-- The visits of the trees from position `index` on. -/
def visitsFrom (visit : Nat → Node → List Visit) (index : Nat) : List Node → List Visit
  | [] => []
  | n :: rest => visit index n ++ visitsFrom visit (index + 1) rest

/-- The visits of a declared type: it keeps its own name, and a reference is passed over. -/
def Node.typeVisits (index : Nat) (n : Node) : List Visit :=
  if n.isRef then [] else n.kind.visits (Planner.typePlace index n)

/-- The visits of an element. -/
def Node.elementVisits (index : Nat) (n : Node) : List Visit :=
  n.visits (Planner.elementPlace index n) true

/-- The placed nodes of a forest in the order of a walk. -/
def Forest.visits (f : Forest) : List Visit :=
  visitsFrom Node.typeVisits 0 f.types ++ visitsFrom Node.elementVisits 0 f.elements

variable {here : Planner.Place} {scalars : Bool} {n c : Node} {k : Kind} {v : Visit}
  {step : Step} {label : String} {path : List Step} {index : Nat}

theorem Node.visits_of_isRef (here : Planner.Place) (scalars : Bool) (h : n.isRef = true) :
    n.visits here scalars = [] := by
  obtain ⟨_, _⟩ := n
  exact if_pos h

theorem Node.visits_of_not_ref (here : Planner.Place) (scalars : Bool) (h : n.isRef = false) :
    n.visits here scalars =
      n.kind.visits here ++ if scalars || n.kind.isComposite then [⟨here, n⟩] else [] := by
  obtain ⟨_, _⟩ := n
  exact if_neg (by simpa [isRef] using h)

/-! ## Visited places -/

/-- A visit leads from a place down a path to a node that is no reference. -/
structure Visit.Leads (here : Planner.Place) (n : Node) (path : List Step) (v : Visit) : Prop where
  /-- It stays in the tree. -/
  root : v.place.root = here.root
  /-- It goes along the path. -/
  along : v.place.path = here.path ++ path
  /-- The planner has the words for the path. -/
  words : v.place.trail = here.trail ++ n.trail path
  /-- The node stands at the end of the path, below no reference. -/
  reach : n.reach? path = some v.node
  /-- The node is no reference. -/
  not_ref : v.node.isRef = false

theorem Visit.Leads.down (h : Leads (here.down step label) c path v) (hr : n.isRef = false)
    (hc : n.child? step = some c) (hword : n.word step = label) : Leads here n (step :: path) v where
  root := h.root
  along := by rw [h.along, Planner.Place.down, List.append_assoc, List.singleton_append]
  words := by
    rw [h.words, Planner.Place.down, List.append_assoc, List.singleton_append, Node.trail, hc, hword]
    rfl
  reach := by rw [Node.reach?_of_child hr hc, h.reach]
  not_ref := h.not_ref

mutual
/-- A visit of a tree leads down from its root. -/
theorem Node.visits_lead (v : Visit) (here : Planner.Place) (scalars : Bool) :
    ∀ n : Node, v ∈ n.visits here scalars → ∃ path, v.Leads here n path
  | ⟨h, k⟩, hv => by
    cases hr : Node.isRef ⟨h, k⟩ with
    | true =>
      rw [Node.visits_of_isRef here scalars hr] at hv
      exact absurd hv List.not_mem_nil
    | false =>
      rw [Node.visits_of_not_ref here scalars hr] at hv
      rcases List.mem_append.mp hv with hv | hv
      · obtain ⟨step, path, hlead⟩ := Kind.visits_lead v here h hr k hv
        exact ⟨step :: path, hlead⟩
      · obtain rfl : v = ⟨here, ⟨h, k⟩⟩ := by
          split at hv
          · exact List.mem_singleton.mp hv
          · exact absurd hv List.not_mem_nil
        exact ⟨[], rfl, (List.append_nil _).symm, (List.append_nil _).symm, rfl, hr⟩
/-- A visit below the root of a tree leads down at least one step. -/
theorem Kind.visits_lead (v : Visit) (here : Planner.Place) (h : Head) (hr : h.isRef = false) :
    ∀ k : Kind, v ∈ k.visits here → ∃ step path, v.Leads here ⟨h, k⟩ (step :: path)
  | .leaf _, hv => absurd hv List.not_mem_nil
  | .array item _, hv => by
    obtain ⟨path, hlead⟩ := Node.visits_lead v _ false item hv
    exact ⟨.item, path, hlead.down hr rfl rfl⟩
  | .dictionary key value _, hv => by
    rcases List.mem_append.mp hv with hv | hv
    · obtain ⟨path, hlead⟩ := Node.visits_lead v _ false key hv
      exact ⟨.key, path, hlead.down hr rfl rfl⟩
    · obtain ⟨path, hlead⟩ := Node.visits_lead v _ false value hv
      exact ⟨.value, path, hlead.down hr rfl rfl⟩
  | .object fields d, hv => by
    obtain ⟨i, path, -, hlead⟩ := Field.visits_lead v here h hr d fields [] hv
    exact ⟨.field i, path, hlead⟩
theorem Field.visits_lead (v : Visit) (here : Planner.Place) (h : Head) (hr : h.isRef = false)
    (d : Option Json) : ∀ fields pre : List Field, v ∈ Field.visits here pre.length fields →
      ∃ i path, pre.length ≤ i ∧ v.Leads here ⟨h, .object (pre ++ fields) d⟩ (.field i :: path)
  | [], _, hv => absurd hv List.not_mem_nil
  | ⟨fh, type⟩ :: rest, pre, hv => by
    rcases List.mem_append.mp hv with hv | hv
    · obtain ⟨path, hlead⟩ := Node.visits_lead v _ true type hv
      exact ⟨pre.length, path, Nat.le_refl _,
        hlead.down hr (by simp [Node.child?]) (by simp [Node.word])⟩
    · obtain ⟨i, path, hle, hlead⟩ := Field.visits_lead v here h hr d rest (pre ++ [⟨fh, type⟩])
        (by rwa [List.length_append])
      rw [List.length_append, List.length_singleton] at hle
      rw [List.append_assoc] at hlead
      exact ⟨i, path, Nat.le_of_succ_le hle, hlead⟩
end

/-- A visit below a step leads along this step. -/
theorem Node.visits_down (hv : v ∈ c.visits (here.down step label) scalars) :
    ∃ path, v.place.path = here.path ++ step :: path := by
  obtain ⟨path, hlead⟩ := Node.visits_lead v _ scalars c hv
  exact ⟨path, by rw [hlead.along, Planner.Place.down, List.append_assoc, List.singleton_append]⟩

/-- A visit of fields leads along one of them. -/
theorem Field.visits_down {fields : List Field} (hv : v ∈ Field.visits here index fields) :
    ∃ i path, index ≤ i ∧ v.place.path = here.path ++ .field i :: path := by
  induction fields generalizing index with
  | nil => exact absurd hv List.not_mem_nil
  | cons f rest ih =>
    obtain ⟨_, _⟩ := f
    rcases List.mem_append.mp hv with hv | hv
    · obtain ⟨path, hpath⟩ := Node.visits_down hv
      exact ⟨index, path, Nat.le_refl _, hpath⟩
    · obtain ⟨i, path, hle, hpath⟩ := ih hv
      exact ⟨i, path, Nat.le_of_succ_le hle, hpath⟩

/-- Visits along different steps have different paths. -/
theorem disjoint_paths (here : Planner.Place) {as bs : List Visit} (h : ∀ v ∈ as, ∀ w ∈ bs, ∃ s t p q, s ≠ t ∧
      v.place.path = here.path ++ s :: p ∧ w.place.path = here.path ++ t :: q) :
    List.Disjoint (as.map (·.place.path)) (bs.map (·.place.path)) := by
  intro path hp hq
  obtain ⟨v, hv, rfl⟩ := List.mem_map.mp hp
  obtain ⟨w, hw, heq⟩ := List.mem_map.mp hq
  obtain ⟨s, t, p, q, hne, hvp, hwq⟩ := h v hv w hw
  rw [hvp, hwq] at heq
  exact hne (List.cons.inj (List.append_cancel_left heq)).1.symm

mutual
/-- No place of a tree is visited twice. -/
theorem Node.nodup_visits (here : Planner.Place) (scalars : Bool) :
    ∀ n : Node, ((n.visits here scalars).map (·.place.path)).Nodup
  | ⟨h, k⟩ => by
    cases hr : Node.isRef ⟨h, k⟩ with
    | true =>
      rw [Node.visits_of_isRef here scalars hr]
      exact List.nodup_nil
    | false =>
      rw [Node.visits_of_not_ref here scalars hr, List.map_append]
      refine (Kind.nodup_visits here k).append ?_ ?_
      · split <;> simp
      · intro path hp hq
        obtain ⟨v, hv, rfl⟩ := List.mem_map.mp hp
        obtain ⟨step, path, hlead⟩ := Kind.visits_lead v here h hr k hv
        rw [hlead.along] at hq
        split at hq <;> simp at hq
theorem Kind.nodup_visits (here : Planner.Place) :
    ∀ k : Kind, ((k.visits here).map (·.place.path)).Nodup
  | .leaf _ => List.nodup_nil
  | .array item _ => Node.nodup_visits _ false item
  | .dictionary key value _ => by
    rw [Kind.visits, List.map_append]
    refine (Node.nodup_visits _ false key).append (Node.nodup_visits _ false value)
      (disjoint_paths here fun v hv w hw => ?_)
    obtain ⟨p, hp⟩ := Node.visits_down hv
    obtain ⟨q, hq⟩ := Node.visits_down hw
    exact ⟨.key, .value, p, q, by simp, hp, hq⟩
  | .object fields _ => Field.nodup_visits here 0 fields
theorem Field.nodup_visits (here : Planner.Place) (index : Nat) :
    ∀ fields : List Field, ((Field.visits here index fields).map (·.place.path)).Nodup
  | [] => List.nodup_nil
  | ⟨_, type⟩ :: rest => by
    rw [Field.visits, List.map_append]
    refine (Node.nodup_visits _ true type).append (Field.nodup_visits here (index + 1) rest)
      (disjoint_paths here fun v hv w hw => ?_)
    obtain ⟨p, hp⟩ := Node.visits_down hv
    obtain ⟨i, q, hle, hq⟩ := Field.visits_down hw
    exact ⟨.field index, .field i, p, q, by simp; omega, hp, hq⟩
end

/-! ## Visits of a forest -/

variable {visit : Nat → Node → List Visit} {nodes : List Node}

theorem mem_visitsFrom (h : v ∈ visitsFrom visit index nodes) :
    ∃ j n, nodes[j]? = some n ∧ v ∈ visit (index + j) n := by
  induction nodes generalizing index with
  | nil => exact absurd h List.not_mem_nil
  | cons n rest ih =>
    rcases List.mem_append.mp h with h | h
    · exact ⟨0, n, rfl, h⟩
    · obtain ⟨j, m, hm, hv⟩ := ih h
      exact ⟨j + 1, m, hm, by rwa [Nat.add_assoc, Nat.add_comm 1 j] at hv⟩

/-- Where the trees have different roots and no place of a tree is visited twice, no place is. -/
theorem nodup_visitsFrom {root : Nat → Root} (hinj : ∀ i j, root i = root j → i = j)
    (hroot : ∀ i n, ∀ v ∈ visit i n, v.place.root = root i)
    (hnodup : ∀ i n, ((visit i n).map (·.place.path)).Nodup) (nodes : List Node) (index : Nat) :
    ((visitsFrom visit index nodes).map Visit.address).Nodup := by
  induction nodes generalizing index with
  | nil => exact List.nodup_nil
  | cons n rest ih =>
    rw [visitsFrom, List.map_append]
    refine List.Nodup.append ?_ (ih (index + 1)) fun a ha hb => ?_
    · refine List.Nodup.of_map Prod.snd ?_
      rw [List.map_map]
      exact hnodup index n
    · obtain ⟨v, hv, rfl⟩ := List.mem_map.mp ha
      obtain ⟨w, hw, heq⟩ := List.mem_map.mp hb
      obtain ⟨j, m, -, hw⟩ := mem_visitsFrom hw
      have hsame : w.place.root = v.place.root := congrArg Prod.fst heq
      rw [hroot _ _ w hw, hroot _ _ v hv] at hsame
      have := hinj _ _ hsame
      omega

theorem Node.typeVisits_lead (h : v ∈ n.typeVisits index) :
    n.isRef = false ∧ ∃ step path, v.Leads (Planner.typePlace index n) n (step :: path) := by
  unfold typeVisits at h
  split at h
  · exact absurd h List.not_mem_nil
  · rename_i hr
    have hr : n.isRef = false := by simpa using hr
    have hlead := Kind.visits_lead v _ n.head hr n.kind h
    exact ⟨hr, n.eta ▸ hlead⟩

namespace Forest

variable {f : Forest}

/-- **A visited node stands at its place**, is no reference and no declared type, and the planner has
the words for the way to it. -/
theorem mem_visits (h : v ∈ f.visits) : f.reach? v.place.root v.place.path = some v.node ∧
    v.node.isRef = false ∧ (∀ i, v.place.root = .type i → v.place.path ≠ []) ∧
      v.place.trail = f.trail v.place.root v.place.path := by
  rcases List.mem_append.mp h with h | h
  · obtain ⟨j, n, hn, hv⟩ := mem_visitsFrom h
    obtain ⟨-, step, path, hlead⟩ := Node.typeVisits_lead hv
    rw [Nat.zero_add] at hlead
    have hpath : v.place.path = step :: path := hlead.along
    rw [hlead.root, hpath]
    refine ⟨?_, hlead.not_ref, fun _ _ => List.cons_ne_nil _ _, ?_⟩
    · simp only [reach?, Planner.typePlace, root?, hn, Option.bind_some]
      exact hlead.reach
    · simp only [Planner.typePlace, trail, hn, Option.elim_some]
      exact hlead.words
  · obtain ⟨j, n, hn, hv⟩ := mem_visitsFrom h
    obtain ⟨path, hlead⟩ := Node.visits_lead v _ true n hv
    rw [Nat.zero_add] at hlead
    have hroot : v.place.root = .element j := hlead.root
    have hpath : v.place.path = path := hlead.along
    rw [hroot, hpath]
    refine ⟨?_, hlead.not_ref, by simp, ?_⟩
    · simp only [reach?, root?, hn, Option.bind_some]
      exact hlead.reach
    · simp only [trail, hn, Option.elim_some]
      exact hlead.words

/-- **No place is visited twice.** -/
theorem nodup_visits (f : Forest) : (f.visits.map Visit.address).Nodup := by
  rw [visits, List.map_append]
  have htype : ∀ i n, ∀ v ∈ Node.typeVisits i n, v.place.root = .type i := fun i n v hv => by
    obtain ⟨-, _, _, hlead⟩ := Node.typeVisits_lead hv
    exact hlead.root
  have helement : ∀ i n, ∀ v ∈ Node.elementVisits i n, v.place.root = .element i :=
    fun i n v hv => by
      obtain ⟨_, hlead⟩ := Node.visits_lead v _ true n hv
      exact hlead.root
  refine (nodup_visitsFrom (fun _ _ => Root.type.inj) htype (fun i n => ?_) f.types 0).append
    (nodup_visitsFrom (fun _ _ => Root.element.inj) helement
      (fun i n => Node.nodup_visits _ true n) f.elements 0) fun a ha hb => ?_
  · unfold Node.typeVisits
    split
    · exact List.nodup_nil
    · exact Kind.nodup_visits _ n.kind
  · obtain ⟨v, hv, rfl⟩ := List.mem_map.mp ha
    obtain ⟨w, hw, heq⟩ := List.mem_map.mp hb
    obtain ⟨i, n, -, hv⟩ := mem_visitsFrom hv
    obtain ⟨j, m, -, hw⟩ := mem_visitsFrom hw
    have hsame : w.place.root = v.place.root := congrArg Prod.fst heq
    rw [htype _ _ v hv, helement _ _ w hw] at hsame
    exact absurd hsame (by simp)

end Forest

end Schemata
