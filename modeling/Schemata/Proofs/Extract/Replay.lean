import Schemata.Proofs.Extract.Walk

/-!
# Renames give the final forest

The planner never changes the forest: it answers the final form of every tree beside the renames
that lead there. Carrying out the renames recorded while a tree is walked gives its final form, and
carrying out all of them gives the final forest.

Results:
* `canonicalize_replay`: the renames of one tree lead to its final form.
* `walkTypes_replay`: the renames of the declared types lead to their final forms.
* `Forest.renameAll_plan`: the renames of a plan lead to the final trees.
* `Forest.extract_eq`: extraction answers the registry of the planner that has walked the whole
  forest, and the final forms of the elements.
-/

namespace Schemata

/-! ## Edits -/

theorem modify_append_cons {α : Type} (pre rest : List α) (a : α) (g : α → α) :
    (pre ++ a :: rest).modify pre.length g = pre ++ g a :: rest := by
  simp [List.modify_eq_take_cons_drop]

namespace Node

/-- A tree after a rename; one that leads nowhere changes nothing. -/
def edit (n : Node) (e : List Step × String) : Node := (n.renameAt? e.1 e.2).getD n

variable {n child : Node} {step : Step}

theorem withChild_child (h : n.child? step = some child) : n.withChild step child = n := by
  obtain ⟨_, k⟩ := n
  cases step <;> cases k <;> simp_all [child?, withChild]
  rename_i i fields d
  obtain ⟨f, hf, rfl⟩ := h
  exact List.ext_getElem? fun j => by
    rw [List.getElem?_modify]
    split
    · subst j
      rw [hf]
      cases f
      rfl
    · simp

theorem child?_withChild (h : n.child? step = some child) (c : Node) :
    (n.withChild step c).child? step = some c := by
  obtain ⟨_, k⟩ := n
  cases step <;> cases k <;> simp_all [child?, withChild]
  obtain ⟨f, hf, -⟩ := h
  simp [hf]

theorem withChild_withChild (n : Node) (step : Step) (c d : Node) :
    (n.withChild step c).withChild step d = n.withChild step d := by
  obtain ⟨_, k⟩ := n
  cases step <;> cases k <;> simp [withChild, List.modify_modify_eq, Function.comp_def]

/-- A rename one step down is a rename of the child. -/
theorem edit_down (h : n.child? step = some child) (path : List Step) (name : String) :
    n.edit (step :: path, name) = n.withChild step (child.edit (path, name)) := by
  unfold edit
  simp only [renameAt?, h, Option.bind_eq_bind, Option.bind_some]
  cases child.renameAt? path name with
  | none => exact (withChild_child h).symm
  | some c => rfl

/-- Renames one step down are renames of the child. -/
theorem foldl_edit_down (step : Step) : ∀ (edits : List (List Step × String)) (n child : Node),
    n.child? step = some child →
      (edits.map fun e => (step :: e.1, e.2)).foldl edit n =
        n.withChild step (edits.foldl edit child)
  | [], _, _, h => (withChild_child h).symm
  | (path, name) :: edits, n, child, h => by
    rw [List.map_cons, List.foldl_cons, List.foldl_cons, edit_down h,
      foldl_edit_down step edits _ _ (child?_withChild h _), withChild_withChild]

end Node

namespace Planner

/-- A rename below a place, as a rename in the forest. -/
def Place.rename (here : Place) (e : List Step × String) : Rename :=
  ⟨here.root, here.path ++ e.1, e.2⟩

/-- Between the planners `p` and `q`, renames below a place were recorded that lead from `n`
to `c`. -/
def Replay (p q : Planner) (here : Place) (n c : Node) : Prop :=
  ∃ edits : List (List Step × String), q.renames = p.renames ++ edits.map here.rename ∧
    edits.foldl Node.edit n = c

section
variable {p q r : Planner} {here : Place} {n c d : Node}

theorem Replay.refl (h : q.renames = p.renames) : Replay p q here n n := ⟨[], by simp [h], rfl⟩

theorem Replay.trans (hnc : Replay p q here n c) (hcd : Replay q r here c d) :
    Replay p r here n d := by
  obtain ⟨es, hes, rfl⟩ := hnc
  obtain ⟨fs, hfs, rfl⟩ := hcd
  exact ⟨es ++ fs, by rw [hfs, hes, List.map_append, List.append_assoc], List.foldl_append⟩

/-- Renames below a child lead from the node to the node with the final child. -/
theorem Replay.down {step : Step} {label : String} {child : Node} (hn : n.child? step = some child)
    (h : Replay p q (here.down step label) child c) : Replay p q here n (n.withChild step c) := by
  obtain ⟨edits, hedits, rfl⟩ := h
  refine ⟨edits.map fun e => (step :: e.1, e.2), ?_, Node.foldl_edit_down step edits n child hn⟩
  rw [hedits, List.map_map]
  refine congrArg (p.renames ++ ·) (List.map_congr_left fun e _ => ?_)
  simp [Place.rename, Place.down]

/-! ## One tree -/

theorem settle_replay (p : Planner) (here : Place) (scalars : Bool) (n : Node) :
    Replay p (p.settle here scalars n).2 here n (p.settle here scalars n).1 := by
  cases hs : scalars || n.kind.isComposite with
  | false =>
    rw [settle_of_inner p here hs]
    exact Replay.refl rfl
  | true =>
    obtain ⟨name, q, heq, -, -, -, hrenames⟩ := settle_of_placed p here hs
    rw [heq]
    by_cases hname : name = n.name
    · rw [if_pos hname, List.append_nil] at hrenames
      rw [hname, n.rename_self]
      exact Replay.refl hrenames
    · rw [if_neg hname] at hrenames
      exact ⟨[([], name)], by simp [hrenames, Place.rename], rfl⟩

mutual
/-- **The renames of one tree lead to its final form.** -/
theorem canonicalize_replay (p : Planner) (here : Place) (scalars : Bool) : ∀ n : Node,
    Replay p (p.canonicalize here scalars n).2 here n (p.canonicalize here scalars n).1
  | ⟨h, k⟩ => by
    cases hr : Node.isRef ⟨h, k⟩ with
    | true =>
      rw [canonicalize_of_isRef p here scalars hr]
      exact Replay.refl rfl
    | false =>
      rw [canonicalize_eq p here scalars hr]
      exact (canonicalKind_replay p here h k).trans (settle_replay _ here scalars _)
theorem canonicalKind_replay (p : Planner) (here : Place) (h : Head) : ∀ k : Kind,
    Replay p (p.canonicalKind here k).2 here ⟨h, k⟩ ⟨h, (p.canonicalKind here k).1⟩
  | .leaf _ => Replay.refl rfl
  | .array item s => by
    rw [canonicalKind_array]
    exact Replay.down (n := ⟨h, .array item s⟩) rfl (canonicalize_replay p _ false item)
  | .dictionary key value d => by
    rw [canonicalKind_dictionary]
    have hkey : Node.child? ⟨h, .dictionary key value d⟩ .key = some key := rfl
    refine (Replay.down hkey
      (canonicalize_replay p (here.down .key "keys") false key)).trans ?_
    exact Replay.down (n := ⟨h, .dictionary _ value d⟩) rfl (canonicalize_replay _ _ false value)
  | .object fields d => by
    rw [canonicalKind_object]
    exact canonicalFields_replay p here h d fields []
theorem canonicalFields_replay (p : Planner) (here : Place) (h : Head) (d : Option Json) :
    ∀ fields pre : List Field,
      Replay p (p.canonicalFields here pre.length fields).2 here ⟨h, .object (pre ++ fields) d⟩
        ⟨h, .object (pre ++ (p.canonicalFields here pre.length fields).1) d⟩
  | [], _ => Replay.refl rfl
  | ⟨fh, type⟩ :: rest, pre => by
    rw [canonicalFields_cons]
    have hchild : Node.child? ⟨h, .object (pre ++ ⟨fh, type⟩ :: rest) d⟩ (.field pre.length) =
        some type := by
      simp [Node.child?]
    have htype := Replay.down hchild
      (canonicalize_replay p (here.down (.field pre.length) fh.name) true type)
    have hrest := canonicalFields_replay
      (p.canonicalize (here.down (.field pre.length) fh.name) true type).2 here h d rest
      (pre ++ [⟨fh, (p.canonicalize (here.down (.field pre.length) fh.name) true type).1⟩])
    rw [Node.withChild, modify_append_cons] at htype
    rw [List.length_append, List.append_assoc, List.append_assoc] at hrest
    exact htype.trans hrest
end

end

end Planner

/-! ## Renames in one tree of the forest -/

namespace Forest

/-- A rename in a list of trees is an edit of one of them. -/
theorem renameIn_eq_modify (trees : List Node) (i : Nat) (path : List Step) (name : String) :
    renameIn trees i path name = trees.modify i (·.edit (path, name)) := by
  unfold renameIn
  cases ht : trees[i]? with
  | none => rw [Option.bind_none, List.modify_eq_self (List.getElem?_eq_none_iff.mp ht)]
  | some t =>
    obtain ⟨hi, rfl⟩ := List.getElem?_eq_some_iff.mp ht
    rw [Option.bind_some, List.modify_eq_set_getElem?, ht]
    show _ = trees.set i (trees[i].edit (path, name))
    unfold Node.edit
    cases trees[i].renameAt? path name with
    | some c => rfl
    | none => exact (List.set_getElem_self hi).symm

/-- Renames of a tree leave the trees before and behind it. -/
theorem foldl_renameIn (pre rest : List Node) (edits : List (List Step × String)) (n : Node) :
    edits.foldl (fun trees e => renameIn trees pre.length e.1 e.2) (pre ++ n :: rest) =
      pre ++ edits.foldl Node.edit n :: rest := by
  induction edits generalizing n with
  | nil => rfl
  | cons e edits ih =>
    rw [List.foldl_cons, List.foldl_cons, renameIn_eq_modify, modify_append_cons, ih]

theorem renameAll_append (f : Forest) (as bs : List Rename) :
    f.renameAll (as ++ bs) = (f.renameAll as).renameAll bs :=
  List.foldl_append

theorem renameAll_type (f : Forest) (i : Nat) (edits : List (List Step × String)) :
    f.renameAll (edits.map fun e => ⟨.type i, e.1, e.2⟩) =
      ⟨edits.foldl (fun trees e => renameIn trees i e.1 e.2) f.types, f.elements⟩ := by
  induction edits generalizing f with
  | nil => rfl
  | cons e edits ih => exact ih _

theorem renameAll_element (f : Forest) (i : Nat) (edits : List (List Step × String)) :
    f.renameAll (edits.map fun e => ⟨.element i, e.1, e.2⟩) =
      ⟨f.types, edits.foldl (fun trees e => renameIn trees i e.1 e.2) f.elements⟩ := by
  induction edits generalizing f with
  | nil => rfl
  | cons e edits ih => exact ih _

end Forest

/-! ## The whole forest -/

namespace Planner

/-- **The renames of the declared types lead to the declared types the planner has.** -/
theorem walkTypes_replay (f : Forest) : f.renameAll f.typesPlanner.renames =
    ⟨f.typesPlanner.declared, f.elements⟩ := by
  refine Forest.typesPlanner_induction (P := fun _ => True)
    (I := fun p _ => f.renameAll p.renames = ⟨p.declared, f.elements⟩)
    (fun p pre rest placed n hp hn _ hrenames => ?_) (fun _ _ _ => trivial) rfl
  obtain ⟨edits, hedits, hfinal⟩ := canonicalKind_replay p (typePlace pre.length n) n.head n.kind
  have hmoved := Forest.foldl_renameIn pre rest edits n
  rw [n.eta] at hfinal
  rw [hfinal] at hmoved
  rw [walkType_of_not_ref hn hp, hedits, Forest.renameAll_append, hrenames, hp]
  exact (Forest.renameAll_type _ pre.length edits).trans (congrArg (Forest.mk · _) hmoved)

/-- **The renames recorded so far lead to the final forms of the elements.** -/
theorem walkElements_replay (f : Forest) (types : List Node) :
    ∀ (elements pre : List Node) (p : Planner),
      f.renameAll p.renames = ⟨types, pre ++ elements⟩ →
        f.renameAll (p.walkElements pre.length elements).renames =
          ⟨types, pre ++ p.finalElements pre.length elements⟩
  | [], _, _, hrenames => hrenames
  | n :: rest, pre, p, hrenames => by
    obtain ⟨edits, hedits, hfinal⟩ := canonicalize_replay p (elementPlace pre.length n) true n
    have hstep : f.renameAll (p.walkElement pre.length n).renames =
        ⟨types, pre ++ (p.canonicalize (elementPlace pre.length n) true n).1 :: rest⟩ := by
      rw [walkElement_eq, hedits, Forest.renameAll_append, hrenames, ← hfinal]
      exact (Forest.renameAll_element _ pre.length edits).trans
        (congrArg (Forest.mk _) (Forest.foldl_renameIn pre rest edits n))
    have hrest := walkElements_replay f types rest
      (pre ++ [(p.canonicalize (elementPlace pre.length n) true n).1])
      (p.walkElement pre.length n) (by rw [hstep, List.append_assoc]; rfl)
    rw [List.length_append, List.append_assoc] at hrest
    exact hrest

end Planner

namespace Forest

/-- **The renames of a plan lead to the final trees.** -/
theorem renameAll_plan (f : Forest) : f.renameAll f.plan.renames = f.walked := by
  have helements := Planner.walkElements_replay f f.typesPlanner.declared f.elements []
    f.typesPlanner (Planner.walkTypes_replay f)
  rw [walked, (planner_places f).grows.declared]
  exact helements

/-- **Extraction answers what the planner knows in the end.** -/
theorem extract_eq (f : Forest) : f.extract = ⟨f.planner.registry, f.finalElements⟩ := by
  rw [extract, apply]
  simp only [renameAll_plan]
  rfl

end Forest

end Schemata
