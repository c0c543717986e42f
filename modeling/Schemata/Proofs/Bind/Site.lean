import Schemata.Bind
import Schemata.Proofs.Extract.Reach

/-!
# Where constraints are attached

Binding searches the forest anew for every constraint, in lists that change under it. But nothing
that it searches for changes: where a constraint is attached can be read off the forest as it was at
the start (`Bind.site`). So the constraints of a node are, in the end, those that it had, and behind
them the ones whose site it is, in order.

Results:
* `Bind.bindOne_eq`: one constraint is attached at its site, or reported if it has none.
* `bindConstraints_eq`: what binding comes to, as one equation.
* `root?_bindConstraints`: the node at the root of each tree afterwards.
-/

namespace Schemata

namespace Node

/-- The node with more constraints at the end of its list. -/
def addConstraints (n : Node) (cs : List Constraint) : Node :=
  ⟨{ n.head with constraints := n.head.constraints ++ cs }, n.kind⟩

variable (n : Node) (c : Constraint) (cs ds : List Constraint)

@[simp] theorem addConstraints_nil : n.addConstraints [] = n := by
  obtain ⟨_, _⟩ := n
  simp only [addConstraints, List.append_nil]

@[simp] theorem addConstraint_addConstraints :
    (n.addConstraint c).addConstraints cs = n.addConstraints (c :: cs) := by
  simp [addConstraint, addConstraints]

end Node

/-- The forest with a constraint attached at the root of a tree. -/
def Forest.attach (f : Forest) (c : Constraint) : Root → Forest
  | .type i => { f with types := f.types.modify i (·.addConstraint c) }
  | .element i => { f with elements := f.elements.modify i (·.addConstraint c) }

namespace Bind

variable {f : Forest} {c : Constraint} {test : Node → Bool} {name : String} {root : Root}

/-- **Where a constraint is attached**: at the first element that its scope names, or else at the
first type with such a field. -/
def site (f : Forest) (c : Constraint) : Option Root :=
  match f.elements.findIdx? (namesElement c.scopeName) with
  | some i => some (.element i)
  | none => (f.types.findIdx? (ownsField c.scopeName)).map .type

/-- The constraints of a list that are attached at a root. -/
def attachedAt (f : Forest) (cs : List Constraint) (root : Root) : List Constraint :=
  cs.filter fun c => site f c = some root

/-- The constraints of a list that have no site, reported. -/
def reported (f : Forest) (cs : List Constraint) : Diagnostics :=
  (cs.filter fun c => site f c = none).map fun c => .unresolvedScope c.id c.scope

/-! ## One constraint -/

theorem attachFirst_eq (test : Node → Bool) (c : Constraint) (nodes : List Node) :
    attachFirst test c nodes =
      (nodes.findIdx? test).map fun i => nodes.modify i (·.addConstraint c) := by
  induction nodes with
  | nil => rfl
  | cons n rest ih =>
    rw [attachFirst, List.findIdx?_cons]
    split
    · rfl
    · rw [ih, Option.map_map, Option.map_map]
      rfl

/-- **One constraint is attached at its site**, or reported if it has none. -/
theorem bindOne_eq (b : Bound) (c : Constraint) : bindOne b c =
    match site b.forest c with
    | some root => ⟨b.forest.attach c root, b.count + 1, b.diagnostics⟩
    | none => ⟨b.forest, b.count, b.diagnostics ++ [.unresolvedScope c.id c.scope]⟩ := by
  unfold bindOne site
  rw [attachFirst_eq, attachFirst_eq]
  cases b.forest.elements.findIdx? (namesElement c.scopeName) with
  | some i => rfl
  | none =>
    cases b.forest.types.findIdx? (ownsField c.scopeName) with
    | some i => rfl
    | none => rfl

/-! ## Sites stay where they are -/

/-- A search that does not look at constraints finds the same. -/
theorem findIdx?_modify (htest : ∀ n, test (n.addConstraint c) = test n) (nodes : List Node)
    (i : Nat) : (nodes.modify i (·.addConstraint c)).findIdx? test = nodes.findIdx? test := by
  induction nodes generalizing i with
  | nil => simp
  | cons n rest ih =>
    cases i with
    | zero => rw [List.modify_zero_cons, List.findIdx?_cons, List.findIdx?_cons, htest]
    | succ i => rw [List.modify_succ_cons, List.findIdx?_cons, List.findIdx?_cons, ih]

/-- Attaching a constraint does not change where others are attached. -/
theorem site_attach (f : Forest) (c d : Constraint) (root : Root) :
    site (f.attach c root) d = site f d := by
  cases root with
  | type i =>
    unfold site
    rw [show (f.attach c (.type i)).elements = f.elements from rfl,
      show (f.attach c (.type i)).types = f.types.modify i (·.addConstraint c) from rfl,
      findIdx?_modify fun _ => rfl]
  | element i =>
    unfold site
    rw [show (f.attach c (.element i)).types = f.types from rfl,
      show (f.attach c (.element i)).elements = f.elements.modify i (·.addConstraint c) from rfl,
      findIdx?_modify fun _ => rfl]

/-- The site of a constraint is the root of a tree. -/
theorem exists_root_of_site (h : site f c = some root) : ∃ n, f.root? root = some n := by
  unfold site at h
  split at h
  · rename_i i hi
    obtain rfl := Option.some.inj h
    obtain ⟨hlt, -⟩ := List.findIdx?_eq_some_iff_getElem.mp hi
    exact ⟨f.elements[i], List.getElem?_eq_getElem hlt⟩
  · obtain ⟨i, hi, rfl⟩ := Option.map_eq_some_iff.mp h
    obtain ⟨hlt, -⟩ := List.findIdx?_eq_some_iff_getElem.mp hi
    exact ⟨f.types[i], List.getElem?_eq_getElem hlt⟩

/-! ## All constraints -/

/-- The forest with every constraint of a list attached at its site. -/
def attached (f : Forest) (cs : List Constraint) : Forest where
  types := f.types.mapIdx fun i n => n.addConstraints (attachedAt f cs (.type i))
  elements := f.elements.mapIdx fun i n => n.addConstraints (attachedAt f cs (.element i))

theorem attached_nil (f : Forest) : attached f [] = f := by
  have hsame : ∀ nodes : List Node, nodes.mapIdx (fun _ n => n) = nodes := fun nodes =>
    List.mapIdx_eq_iff.mpr fun i => Option.map_id'.symm
  simp only [attached, attachedAt, List.filter_nil, Node.addConstraints_nil, hsame]

theorem attachedAt_cons (f : Forest) (c : Constraint) (cs : List Constraint) (root : Root) :
    attachedAt f (c :: cs) root =
      if site f c = some root then c :: attachedAt f cs root else attachedAt f cs root := by
  rw [attachedAt, List.filter_cons]
  simp [attachedAt]

theorem attachedAt_attach (f : Forest) (c : Constraint) (cs : List Constraint) (root at_ : Root) :
    attachedAt (f.attach c root) cs at_ = attachedAt f cs at_ :=
  List.filter_congr fun d _ => by rw [site_attach]

/-- One more constraint at a position, before or with those that follow. -/
theorem mapIdx_modify (nodes : List Node) (i : Nat) (c : Constraint)
    (rest : Nat → List Constraint) :
    (nodes.modify i (·.addConstraint c)).mapIdx (fun j n => n.addConstraints (rest j)) =
      nodes.mapIdx fun j n => n.addConstraints (if i = j then c :: rest j else rest j) := by
  refine List.ext_getElem? fun j => ?_
  rw [List.getElem?_mapIdx, List.getElem?_mapIdx, List.getElem?_modify]
  cases nodes[j]? with
  | none => rfl
  | some n =>
    by_cases hij : i = j
    · simp [hij]
    · simp [hij]

theorem attached_cons_of_site (h : site f c = some root) (cs : List Constraint) :
    attached (f.attach c root) cs = attached f (c :: cs) := by
  unfold attached
  simp only [attachedAt_attach, attachedAt_cons, h]
  cases root with
  | type i =>
    refine congrArg₂ Forest.mk ?_ ?_
    · rw [show (f.attach c (.type i)).types = f.types.modify i (·.addConstraint c) from rfl,
        mapIdx_modify f.types i c fun j => attachedAt f cs (.type j)]
      simp
    · simp [Forest.attach]
  | element i =>
    refine congrArg₂ Forest.mk ?_ ?_
    · simp [Forest.attach]
    · rw [show (f.attach c (.element i)).elements =
        f.elements.modify i (·.addConstraint c) from rfl,
        mapIdx_modify f.elements i c fun j => attachedAt f cs (.element j)]
      simp

theorem attached_cons_of_no_site (h : site f c = none) (cs : List Constraint) :
    attached f (c :: cs) = attached f cs := by
  simp [attached, attachedAt_cons, h]

theorem reported_cons (f : Forest) (c : Constraint) (cs : List Constraint) :
    reported f (c :: cs) =
      if site f c = none then .unresolvedScope c.id c.scope :: reported f cs
      else reported f cs := by
  unfold reported
  rw [List.filter_cons]
  cases site f c <;> rfl

theorem reported_attach (f : Forest) (c : Constraint) (root : Root) (cs : List Constraint) :
    reported (f.attach c root) cs = reported f cs := by
  simp only [reported, site_attach]

/-- **All constraints of a list**, one after the other. -/
theorem foldl_bindOne_eq (cs : List Constraint) (b : Bound) : cs.foldl bindOne b =
    ⟨attached b.forest cs, b.count + cs.countP fun c => (site b.forest c).isSome,
      b.diagnostics ++ reported b.forest cs⟩ := by
  induction cs generalizing b with
  | nil => simp [attached_nil, reported]
  | cons c cs ih =>
    rw [List.foldl_cons, ih, bindOne_eq, reported_cons, List.countP_cons]
    cases hsite : site b.forest c with
    | some root =>
      simp only [attached_cons_of_site hsite, reported_attach, site_attach]
      simp [Nat.add_assoc, Nat.add_comm]
    | none => simp [attached_cons_of_no_site hsite]

end Bind

/-- **What binding comes to**: every constraint is attached at its site, in order, and those without
a site are reported. -/
theorem bindConstraints_eq (f : Forest) (cs : List Constraint) : bindConstraints f cs =
    ⟨Bind.attached f cs, cs.countP fun c => (Bind.site f c).isSome, Bind.reported f cs⟩ := by
  rw [bindConstraints, Bind.foldl_bindOne_eq, Nat.zero_add, List.nil_append]

/-- **The node at the root of each tree after binding**: what it was, with the constraints whose
site it is behind those that it had. -/
theorem root?_bindConstraints (f : Forest) (cs : List Constraint) (root : Root) :
    (bindConstraints f cs).forest.root? root =
      (f.root? root).map fun n => n.addConstraints (Bind.attachedAt f cs root) := by
  rw [bindConstraints_eq]
  cases root with
  | type i => exact List.getElem?_mapIdx
  | element i => exact List.getElem?_mapIdx

end Schemata
