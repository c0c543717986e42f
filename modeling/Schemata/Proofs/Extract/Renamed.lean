import Schemata.Proofs.Extract.Kept
import Schemata.Proofs.Extract.Records

/-!
# A plan and what carrying it out does

The renames of a plan are carried out one after the other, but no two of them meet: each has a place of
its own, and the final forest has the new name at every place that has one and is otherwise the same.
The definitions of a plan are made during the walk, from nodes with final names; each is the node that
stands in the final forest where its name was met first.

Results:
* `Node.withNames_update`: a new name for one place is one rename.
* `Forest.renameAll_withNames`: renames of different places give their nodes the new names.
* `Forest.mem_plan_renames`, `Forest.nodup_plan_renames`: where the renames of a plan lead.
* `Forest.walked_eq_withNames`: the final trees have the new names and differ in nothing else.
* `Forest.mem_plan_hoisted`: a new definition is made from the first visited node of its name.
* `Forest.apply_plan`: what carrying out the plan of a forest does.
-/

namespace Schemata

/-! ## Trees with other names -/

mutual
/-- The tree in which nodes have other names, where `names` has one for the path down to them. -/
def Node.withNames (names : List Step → Option String) : Node → Node
  | ⟨h, k⟩ => ⟨{ h with name := (names []).getD h.name }, k.withNames names⟩
/-- The kind of a node below which nodes have other names. -/
def Kind.withNames (names : List Step → Option String) : Kind → Kind
  | .leaf spec => .leaf spec
  | .array item s => .array (item.withNames fun path => names (.item :: path)) s
  | .dictionary key value d =>
    .dictionary (key.withNames fun path => names (.key :: path))
      (value.withNames fun path => names (.value :: path)) d
  | .object fields d => .object (Field.withNames names 0 fields) d
/-- Fields from position `index` on, other names in their types. -/
def Field.withNames (names : List Step → Option String) (index : Nat) : List Field → List Field
  | [] => []
  | ⟨h, type⟩ :: rest =>
    ⟨h, type.withNames fun path => names (.field index :: path)⟩ ::
      Field.withNames names (index + 1) rest
end

namespace Node

variable {names names' : List Step → Option String} {n c x : Node} {step : Step}

theorem getElem?_fields_withNames (names : List Step → Option String) (fields : List Field)
    (index i : Nat) : (Field.withNames names index fields)[i]? =
      fields[i]?.map fun f => ⟨f.head, f.type.withNames fun path => names (.field (index + i) :: path)⟩ := by
  induction fields generalizing index i with
  | nil => rfl
  | cons f rest ih =>
    obtain ⟨_, _⟩ := f
    cases i with
    | zero => rfl
    | succ i =>
      rw [Field.withNames, List.getElem?_cons_succ, List.getElem?_cons_succ, ih, Nat.add_assoc,
        Nat.add_comm 1 i]

theorem child?_withNames (names : List Step → Option String) (hc : n.child? step = some c) :
    (n.withNames names).child? step = some (c.withNames fun path => names (step :: path)) := by
  obtain ⟨_, k⟩ := n
  cases step <;> cases k <;> simp_all [child?, withNames, Kind.withNames]
  obtain ⟨f, hf, rfl⟩ := hc
  simp [getElem?_fields_withNames, hf]

/-- Names that differ in the child at a step only differ in this child. -/
theorem withNames_withChild (hc : n.child? step = some c)
    (hsame : ∀ path, path.head? ≠ some step → names' path = names path) :
    n.withNames names' =
      (n.withNames names).withChild step (c.withNames fun path => names' (step :: path)) := by
  obtain ⟨h, k⟩ := n
  have hroot : names' [] = names [] := hsame [] (by simp)
  have hchild : ∀ {s}, s ≠ step → (fun path => names' (s :: path)) = fun path => names (s :: path) :=
    fun hne => funext fun path => hsame _ (by simpa using hne)
  cases step <;> cases k <;> simp only [child?, reduceCtorEq, Option.some.injEq] at hc <;>
    simp only [withNames, Kind.withNames, withChild, hroot]
  · rename_i i fields d
    obtain ⟨f, hf, rfl⟩ := Option.map_eq_some_iff.mp hc
    have hfields : Field.withNames names' 0 fields = (Field.withNames names 0 fields).modify i
        fun g => ⟨g.head, f.type.withNames fun path => names' (.field i :: path)⟩ :=
      List.ext_getElem? fun j => by
        rw [List.getElem?_modify, getElem?_fields_withNames, getElem?_fields_withNames, Nat.zero_add]
        split
        · subst j
          simp [hf]
        · rename_i hne
          rw [hchild (by simpa using Ne.symm hne)]
          simp
    rw [hfields]
  · rw [hc]
  · rw [hc, hchild (s := .value) (by simp)]
  · rw [hc, hchild (s := .key) (by simp)]

/-- Names below the root do not change it. -/
theorem rename_withNames (n : Node) (names : List Step → Option String) (name : String) :
    n.withNames (Function.update names [] (some name)) = (n.withNames names).rename name := by
  obtain ⟨h, k⟩ := n
  cases k with
  | leaf spec => rfl
  | array item s => rfl
  | dictionary key value d => rfl
  | object fields d =>
    have hfields : Field.withNames (Function.update names [] (some name)) 0 fields =
        Field.withNames names 0 fields := List.ext_getElem? fun i => by
      rw [getElem?_fields_withNames, getElem?_fields_withNames]
      rfl
    simp only [withNames, Kind.withNames, hfields]
    rfl

/-- **A new name for one place is one rename.** -/
theorem withNames_update (name : String) : ∀ (path : List Step) (n : Node)
    (names : List Step → Option String), n.at? path = some x →
      n.withNames (Function.update names path (some name)) = (n.withNames names).edit (path, name)
  | [], n, names, _ => rename_withNames n names name
  | step :: path, n, names, h => by
    obtain ⟨c, hc, h⟩ := Option.bind_eq_some_iff.mp h
    have hbelow : (fun p => Function.update names (step :: path) (some name) (step :: p)) =
        Function.update (fun p => names (step :: p)) path (some name) := by
      funext p
      simp [Function.update_apply]
    rw [edit_down (child?_withNames names hc), ← withNames_update name path c _ h, ← hbelow]
    refine withNames_withChild hc fun p hp => Function.update_of_ne ?_ _ _
    rintro rfl
    exact hp rfl

end Node

mutual
theorem Node.withNames_none : ∀ n : Node, n.withNames (fun _ => none) = n
  | ⟨h, k⟩ => congrArg (Node.mk h) (Kind.withNames_none k)
theorem Kind.withNames_none : ∀ k : Kind, k.withNames (fun _ => none) = k
  | .leaf _ => rfl
  | .array item s => congrArg (Kind.array · s) (Node.withNames_none item)
  | .dictionary key value d => by
    rw [Kind.withNames, Node.withNames_none key, Node.withNames_none value]
  | .object fields d => congrArg (Kind.object · d) (Field.withNames_none 0 fields)
theorem Field.withNames_none (index : Nat) :
    ∀ fields : List Field, Field.withNames (fun _ => none) index fields = fields
  | [] => rfl
  | ⟨h, type⟩ :: rest => by
    rw [Field.withNames, Node.withNames_none type, Field.withNames_none (index + 1) rest]
end

/-! ## Forests with other names -/

/-- The new name for a place. -/
def newName? (renames : List Rename) (root : Root) (path : List Step) : Option String :=
  (renames.find? (·.address = (root, path))).map (·.name)

theorem newName?_eq_none {renames : List Rename} {root : Root} {path : List Step}
    (h : (root, path) ∉ renames.map Rename.address) : newName? renames root path = none := by
  rw [newName?, Option.map_eq_none_iff, List.find?_eq_none]
  intro r hr heq
  exact h (List.mem_map.mpr ⟨r, hr, by simpa using heq⟩)

namespace Forest

variable {f : Forest} {r : Rename} {x t : Node}
  {trees : List Node} {i : Nat} {root : Root} {path : List Step} {name : String}

/-- The forest in which nodes have other names, where `names` has one for their place. -/
def withNames (f : Forest) (names : Root → List Step → Option String) : Forest :=
  ⟨f.types.mapIdx fun i n => n.withNames (names (.type i)),
    f.elements.mapIdx fun i n => n.withNames (names (.element i))⟩

theorem withNames_none (f : Forest) : f.withNames (fun _ _ => none) = f := by
  have hid : ∀ trees : List Node, (trees.mapIdx fun _ n => n) = trees := fun trees =>
    List.ext_getElem? fun j => by rw [List.getElem?_mapIdx, Option.map_id']
  simp only [withNames, Node.withNames_none, hid]

/-- A rename in one tree is a change of its names. -/
theorem renameIn_mapIdx (form form' : Nat → Node → Node) (ht : trees[i]? = some t)
    (hedit : form' i t = (form i t).edit (path, name)) (hsame : ∀ j ≠ i, form' j = form j) :
    renameIn (trees.mapIdx form) i path name = trees.mapIdx form' := by
  refine List.ext_getElem? fun j => ?_
  rw [renameIn_eq_modify, List.getElem?_modify, List.getElem?_mapIdx, List.getElem?_mapIdx]
  by_cases hij : i = j
  · subst hij
    simp [ht, hedit]
  · simp [hij, hsame j (Ne.symm hij)]

/-- One rename gives the node at its place the new name. -/
theorem rename_withNames (names names' : Root → List Step → Option String)
    (h : f.at? r.root r.path = some x)
    (hname : names' r.root = Function.update (names r.root) r.path (some r.name))
    (hsame : ∀ root ≠ r.root, names' root = names root) :
    (f.withNames names).rename r = f.withNames names' := by
  obtain ⟨root, path, name⟩ := r
  obtain ⟨t, ht, h⟩ := Option.bind_eq_some_iff.mp h
  have hedit := Node.withNames_update name path t (names root) h
  rw [← hname] at hedit
  cases root with
  | type i =>
    have htypes := renameIn_mapIdx (fun i n => n.withNames (names (.type i)))
      (fun i n => n.withNames (names' (.type i))) ht hedit
      fun j hj => by simp only [hsame (.type j) (by simpa using hj)]
    have helements : ∀ j, names' (.element j) = names (.element j) := fun j => hsame _ (by simp)
    simp only [rename, withNames, htypes, helements]
  | element i =>
    have helements := renameIn_mapIdx (fun i n => n.withNames (names (.element i)))
      (fun i n => n.withNames (names' (.element i))) ht hedit
      fun j hj => by simp only [hsame (.element j) (by simpa using hj)]
    have htypes : ∀ j, names' (.type j) = names (.type j) := fun j => hsame _ (by simp)
    simp only [rename, withNames, helements, htypes]

/-- **Renames of different places give their nodes the new names.** -/
theorem renameAll_withNames : ∀ (renames : List Rename) (names : Root → List Step → Option String),
    (∀ r ∈ renames, (f.at? r.root r.path).isSome) → (renames.map Rename.address).Nodup →
      (f.withNames names).renameAll renames =
        f.withNames fun root path => (newName? renames root path).or (names root path)
  | [], _, _, _ => rfl
  | r :: renames, names, hplaces, hnodup => by
    obtain ⟨hplace, hplaces⟩ := List.forall_mem_cons.mp hplaces
    obtain ⟨hfresh, hnodup⟩ := List.nodup_cons.mp hnodup
    obtain ⟨x, hx⟩ := Option.isSome_iff_exists.mp hplace
    have hfirst := rename_withNames names (fun root path =>
      if (root, path) = r.address then some r.name else names root path) hx
      (by funext path; simp [Rename.address, Function.update_apply])
      (fun root hne => by funext path; simp [Rename.address, hne])
    rw [renameAll, List.foldl_cons, hfirst]
    refine (renameAll_withNames renames _ hplaces hnodup).trans (congrArg f.withNames ?_)
    funext root path
    by_cases haddr : (root, path) = r.address
    · rw [newName?_eq_none (haddr ▸ hfresh), if_pos haddr, newName?,
        List.find?_cons_of_pos (by simp [haddr])]
      rfl
    · rw [if_neg haddr, newName?, newName?, List.find?_cons_of_neg (by simpa using Ne.symm haddr)]

/-! ## Carrying out the plan of a forest -/

theorem plan_renames (f : Forest) : f.plan.renames = Planner.changes f.visits f.walked.visits :=
  (planner_records f).renames

/-- **The plan of a forest renames no node twice.** -/
theorem nodup_plan_renames (f : Forest) : (f.plan.renames.map Rename.address).Nodup := by
  rw [plan_renames]
  exact (nodup_visits f).sublist (Planner.changes_addresses _ _)

/-- **A rename of the plan leads to a node with another name**, which is no declared type and no
reference, and not below one. -/
theorem mem_plan_renames (h : r ∈ f.plan.renames) : ∃ n, f.reach? r.root r.path = some n ∧
    n.isRef = false ∧ n.name ≠ r.name ∧ ∀ i, r.root = .type i → r.path ≠ [] := by
  rw [plan_renames] at h
  obtain ⟨v, hv, hroot, hpath, hne⟩ := Planner.mem_changes (planner_records f).places h
  obtain ⟨hreach, href, hinner, -⟩ := mem_visits hv
  rw [hroot, hpath]
  exact ⟨v.node, hreach, href, hne, hinner⟩

theorem at?_of_reach (h : f.reach? root path = some x) : f.at? root path = some x := by
  obtain ⟨t, ht, h⟩ := Option.bind_eq_some_iff.mp h
  have hat : t.at? (path ++ []) = x.at? [] := Node.at?_append_of_reach path t h
  rw [List.append_nil] at hat
  rw [at?, ht, Option.bind_some, hat]
  rfl

/-- The final forest has the new names of the plan, and differs in nothing else. -/
theorem walked_eq_withNames (f : Forest) : f.walked = f.withNames (newName? f.plan.renames) := by
  have hplaces : ∀ r ∈ f.plan.renames, (f.at? r.root r.path).isSome := fun r hr => by
    obtain ⟨n, hreach, -⟩ := mem_plan_renames hr
    rw [at?_of_reach hreach]
    rfl
  have hall := renameAll_withNames f.plan.renames (fun _ _ => none) hplaces (nodup_plan_renames f)
  rw [withNames_none, renameAll_plan] at hall
  simpa only [Option.or_none] using hall

/-- Carrying out the plan appends the new definitions to the final types. -/
theorem apply_plan_eq (f : Forest) : f.apply f.plan =
    ⟨f.walked.types ++ f.plan.hoisted.map (·.node), f.walked.elements⟩ := extract_eq f

/-- The new definitions stand behind all places of the forest. -/
theorem apply_plan_at (h : f.walked.at? root path = some x) :
    (f.apply f.plan).at? root path = some x := by
  obtain ⟨t, ht, h⟩ := Option.bind_eq_some_iff.mp h
  have hroot : (f.apply f.plan).root? root = some t := by
    rw [apply_plan_eq]
    cases root with
    | type i =>
      have ht : f.walked.types[i]? = some t := ht
      rw [root?, List.getElem?_append_left (List.getElem?_eq_some_iff.mp ht).1, ht]
    | element i => exact ht
  rw [at?, hroot, Option.bind_some, h]

/-- A new definition is made from the first visited node of its name, in final form. -/
theorem mem_plan_hoisted {e : Hoisted} (h : e ∈ f.plan.hoisted) : ∃ front v back,
    f.walked.visits = front ++ v :: back ∧ (∀ u ∈ front, u.node.name ≠ v.node.name) ∧
      e = v.definition := by
  obtain ⟨new, hnew, hfirst⟩ := (planner_records f).hoisted
  have hnew : f.plan.hoisted = new := hnew
  obtain ⟨front, v, back, hvisits, hdef, -, hbefore⟩ := hfirst e (hnew ▸ h)
  exact ⟨front, v, back, hvisits, hbefore, hdef⟩

/-- The final form of a visited node stands at its place, and the planner has the words for the way to
it that the forest had at the start. -/
theorem mem_walked_visits {v : Visit} (h : v ∈ f.walked.visits) :
    (f.apply f.plan).at? v.place.root v.place.path = some v.node ∧
      v.place.trail = f.trail v.place.root v.place.path := by
  refine ⟨apply_plan_at (at?_of_reach (mem_visits h).1), ?_⟩
  have hplace := List.mem_map_of_mem (f := Visit.place) h
  rw [(planner_records f).places] at hplace
  obtain ⟨u, hu, heq⟩ := List.mem_map.mp hplace
  rw [← heq]
  exact (mem_visits hu).2.2.2

/-- **What carrying out the plan of a forest does.** Its renames lead to different places, each of a node
with another name that is no declared type and no reference and stands below none. The trees have the
new names at these places and are otherwise the same, references and everything below them stay, and
the new definitions follow the declared types, each with one note, so that every placed node names a
type. Each definition is, up to its label and its mark, the node that stands in the final forest where
its name was met first, and the origin it notes has the words for this place. -/
theorem apply_plan (f : Forest) :
    let renamed := f.withNames (newName? f.plan.renames)
    (∀ r ∈ f.plan.renames, ∃ n, f.at? r.root r.path = some n ∧ f.reach? r.root r.path = some n ∧
      n.isRef = false ∧ n.name ≠ r.name ∧ ∀ i, r.root = .type i → r.path ≠ []) ∧
    (f.plan.renames.map fun r => (r.root, r.path)).Nodup ∧
    f.apply f.plan = ⟨renamed.types ++ f.plan.hoisted.map (·.node), renamed.elements⟩ ∧
    (∀ root path n, f.at? root path = some n → n.isRef = true →
      (f.apply f.plan).at? root path = some n) ∧
    f.plan.diagnostics = f.plan.hoisted.map (fun e => .hoisted e.node.name e.origin) ∧
    (∀ v ∈ renamed.visits, v.node.name ∈ (f.apply f.plan).types.map Node.name) ∧
    ∀ e ∈ f.plan.hoisted, ∃ front v back, renamed.visits = front ++ v :: back ∧
      (∀ u ∈ front, u.node.name ≠ v.node.name) ∧
      (f.apply f.plan).at? v.place.root v.place.path = some v.node ∧
      e.node = ⟨{ v.node.head with label := v.node.name, isNested := true }, v.node.kind⟩ ∧
      e.origin = "/".intercalate (f.trail v.place.root v.place.path) := by
  intro renamed
  have hrenamed : f.walked = renamed := walked_eq_withNames f
  refine ⟨fun r hr => ?_, nodup_plan_renames f, ?_, fun root path n => extract_at_of_isRef, rfl,
    fun v hv => ?_, fun e he => ?_⟩
  · obtain ⟨n, hreach, hrest⟩ := mem_plan_renames hr
    exact ⟨n, at?_of_reach hreach, hreach, hrest⟩
  · rw [← hrenamed]
    exact apply_plan_eq f
  · rw [← hrenamed] at hv
    rw [apply_plan_eq]
    exact (planner_records f).known v hv
  · obtain ⟨front, v, back, hvisits, hbefore, rfl⟩ := mem_plan_hoisted he
    obtain ⟨hat, hwords⟩ := mem_walked_visits (f := f) (v := v) (by rw [hvisits]; simp)
    exact ⟨front, v, back, hrenamed ▸ hvisits, hbefore, hat, rfl,
      congrArg ("/".intercalate) hwords⟩

end Forest

namespace Sample

/-- An element with a field for an array of arrays of texts. -/
def matrix : Forest :=
  let items : ArraySpec := ⟨"entry", none, none, none⟩
  let text : Node := ⟨Head.fresh "items" .string, .leaf (.string ⟨none, none, none, none⟩)⟩
  let rows : Node :=
    ⟨Head.fresh "rows" .array, .array ⟨Head.fresh "items" .array, .array text items⟩ items⟩
  ⟨[], [⟨Head.fresh "matrix" .object, .object [⟨⟨"rows", "", false, none⟩, rows⟩] none⟩]⟩

end Sample

/-- The inner array is renamed and made a definition before the outer one, and the element keeps its
name. -/
theorem apply_plan_matrix :
    Sample.matrix.plan.renames = [⟨.element 0, [.field 0, .item], "string_array"⟩,
      ⟨.element 0, [.field 0], "array_array"⟩] ∧
    Sample.matrix.plan.hoisted.map (fun e => (e.node.name, e.origin)) =
      [("string_array", "elements/matrix/rows/items"), ("array_array", "elements/matrix/rows"),
        ("matrix", "elements/matrix")] ∧
    (Sample.matrix.apply Sample.matrix.plan).elements =
      (Sample.matrix.withNames (newName? Sample.matrix.plan.renames)).elements ∧
    (Sample.matrix.at? (.element 0) [.field 0, .item]).map Node.name = some "items" ∧
    ((Sample.matrix.apply Sample.matrix.plan).at? (.element 0) [.field 0, .item]).map Node.name =
      some "string_array" := by
  obtain ⟨-, -, happly, -⟩ := Forest.apply_plan Sample.matrix
  exact ⟨by decide, by decide, by rw [happly], by decide, by decide⟩

end Schemata
