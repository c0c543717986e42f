import Schemata.Proofs.Extract.Closed
import Schemata.Proofs.Extract.Reach

/-!
# What extraction keeps

Extraction leaves references as they are, with everything below them, and declared types keep their
names. Any other node that stands for a type gets the first name that fits it, so it keeps its name
when that is the one.

Results:
* `Forest.extract_at_of_isRef`: every reference of a forest stands at its place in the final forest.
* `Forest.extract_name_iff`: when the node at a place keeps its name.
* `Forest.extract_declaring`: where each name is declared once, a declared type is the final type of
  its name.
* `Forest.extract_named`: a named node that is no reference has a final type of its name and shape.
-/

namespace Schemata

namespace Node

variable {n r x : Node} {path front back : List Step}

/-- The way to a reference passes a first one. -/
theorem exists_first_ref : ∀ (path : List Step) (n : Node), n.at? path = some x → x.isRef = true →
    ∃ front back r, path = front ++ back ∧ n.reach? front = some r ∧ r.isRef = true ∧
      r.at? back = some x
  | path, n, h, hx => by
    cases hn : n.isRef with
    | true => exact ⟨[], path, n, rfl, rfl, hn, h⟩
    | false =>
      cases path with
      | nil =>
        obtain rfl := Option.some.inj h
        exact absurd (hx.symm.trans hn) (by simp)
      | cons step path =>
        obtain ⟨c, hc, h⟩ := Option.bind_eq_some_iff.mp h
        obtain ⟨front, back, r, rfl, hr, hrr, hback⟩ := exists_first_ref path c h hx
        exact ⟨step :: front, back, r, rfl, by rw [reach?_of_child hn hc]; exact hr, hrr, hback⟩

theorem at?_append_of_reach : ∀ (front : List Step) (n : Node), n.reach? front = some r →
    n.at? (front ++ back) = r.at? back
  | [], n, h => by rw [Option.some.inj h, List.nil_append]
  | step :: front, n, h => by
    obtain ⟨-, c, hc, h⟩ := reach?_cons h
    rw [List.cons_append, at?, hc, Option.bind_some]
    exact at?_append_of_reach front c h

end Node

namespace Forest

variable {f : Forest} {root : Root} {path : List Step} {n m r x : Node} {i : Nat}

/-! ## Declared types -/

/-- The final form of a declared type has its head, and is the same if it is a reference. -/
theorem extract_type (h : f.types[i]? = some n) :
    ∃ m, f.extract.types[i]? = some m ∧ f.planner.declared[i]? = some m ∧ m.head = n.head ∧
      (n.isRef = true → m = n) := by
  have hout := congrArg (·[i]?) (planner_outline f)
  simp only [List.getElem?_map, h, Option.map_some] at hout
  obtain ⟨m, hm, heq⟩ := Option.map_eq_some_iff.mp hout
  have hhead : m.head = n.head := congrArg Prod.fst heq
  refine ⟨m, ?_, hm, hhead, fun hr => ?_⟩
  · rw [types_extract, List.getElem?_append_left (List.getElem?_eq_some_iff.mp hm).1, hm]
  · have hrefs : m.refs = n.refs := congrArg (·.2.1) heq
    rw [Node.refs_of_isRef hr, Node.refs_of_isRef (n := m) (by rw [Node.isRef, hhead]; exact hr)] at hrefs
    exact (List.cons.inj hrefs).1

/-! ## References -/

/-- The first reference on a path stands at its place in the final forest. -/
theorem extract_reach_of_isRef (h : f.reach? root path = some r) (hr : r.isRef = true) :
    f.extract.reach? root path = some r := by
  by_cases hroot : ∃ i, root = .type i ∧ path = []
  · obtain ⟨i, rfl, rfl⟩ := hroot
    obtain ⟨n, hn, hnr⟩ := Option.bind_eq_some_iff.mp h
    obtain rfl := Option.some.inj hnr
    obtain ⟨m, hm, -, -, hsame⟩ := extract_type hn
    rw [reach?, root?, hm, hsame hr]
    rfl
  · obtain ⟨q, there, -, -, hm⟩ :=
      extract_reach (fun i hi hpath => hroot ⟨i, hi, hpath⟩) h
    rwa [Planner.canonicalize_of_isRef q there _ hr] at hm

/-- **Every reference of a forest stands at its place in the final forest.** -/
theorem extract_at_of_isRef (h : f.at? root path = some x) (hx : x.isRef = true) :
    f.extract.at? root path = some x := by
  obtain ⟨t, ht, h⟩ := Option.bind_eq_some_iff.mp h
  obtain ⟨front, back, r, rfl, hr, hrr, hback⟩ := Node.exists_first_ref path t h hx
  have hfirst : f.reach? root front = some r := by
    rw [reach?, ht]
    exact hr
  obtain ⟨t', ht', hr'⟩ := Option.bind_eq_some_iff.mp (extract_reach_of_isRef hfirst hrr)
  rw [at?, ht', Option.bind_some, Node.at?_append_of_reach front t' hr']
  exact hback

/-! ## Names -/

/-- A node at a place stands for a top-level type: it is a declared type, a reference, or placed. -/
def NamedAt (root : Root) (path : List Step) (n : Node) : Prop :=
  (∃ i, root = .type i ∧ path = []) ∨ n.isRef = true ∨ PlacedAt root path n

/-- A name is the first that fits a node, given the types as they are while the node is walked and the
new definitions. -/
def FirstFits (f : Forest) (root : Root) (m : Node) (name : String) : Prop :=
  Node.FirstFit (f.typesDuring root ++ f.plan.hoisted.map (·.node)) (m.rename name) name

/-- **When the node at a place keeps its name**: if it is a declared type or a reference, or if its name
is the first that fits its final form. -/
theorem extract_name_iff (h : f.reach? root path = some n) (hn : NamedAt root path n) :
    ∃ m, f.extract.reach? root path = some m ∧
      (m.name = n.name ↔
        (∃ i, root = .type i ∧ path = []) ∨ n.isRef = true ∨ f.FirstFits root m n.name) := by
  rcases hn with ⟨i, rfl, rfl⟩ | hr | hplaced
  · obtain ⟨t, ht, htn⟩ := Option.bind_eq_some_iff.mp h
    obtain rfl := Option.some.inj htn
    obtain ⟨m, hm, -, hhead, -⟩ := extract_type ht
    refine ⟨m, by rw [reach?, root?, hm]; rfl, ?_⟩
    exact iff_of_true (congrArg Head.name hhead) (Or.inl ⟨i, rfl, rfl⟩)
  · exact ⟨n, extract_reach_of_isRef h hr, iff_of_true rfl (Or.inr (Or.inl hr))⟩
  · obtain ⟨_, _, -, -, hm⟩ := extract_reach hplaced.inner h
    obtain ⟨-, -, hfit⟩ := extract_firstFit h hplaced hm
    refine ⟨_, hm, fun hname => ?_, fun hkeep => ?_⟩
    · rw [← hname] at hfit ⊢
      exact Or.inr (Or.inr hfit)
    · rcases hkeep with ⟨i, hi, hpath⟩ | hr | hkeep
      · exact absurd hpath (hplaced.inner i hi)
      · exact absurd (hr.symm.trans hplaced.not_ref) (by simp)
      · exact hfit.unique hkeep

/-! ## The types of kept names -/

/-- Each name is the name of at most one declared type that is no reference. -/
def DeclaredOnce (f : Forest) : Prop :=
  ∀ (i j : Nat) (t u : Node), f.types[i]? = some t → f.types[j]? = some u → t.isRef = false →
    u.isRef = false → t.name = u.name → i = j

/-- **Where each name is declared once, a declared type is the final type of its name.** -/
theorem extract_declaring (hf : f.DeclaredOnce) (h : f.types[i]? = some n) (hn : n.isRef = false)
    (hm : f.extract.types[i]? = some m) : declaring? f.extract.types m.name = some m := by
  obtain ⟨m', hm', hdeclared, hhead, -⟩ := extract_type h
  obtain rfl := Option.some.inj (hm.symm.trans hm')
  obtain ⟨hi, hget⟩ := List.getElem?_eq_some_iff.mp hdeclared
  have hr : m.isRef = false := (congrArg Head.isRef hhead).trans hn
  rw [types_extract]
  refine declaring?_append (List.find?_eq_some_iff_getElem.mpr
    ⟨by simp [hr], i, hi, hget, fun j hj => ?_⟩) _
  -- an earlier type of the name was declared under the name, too
  have hj' : j < f.types.length := by
    have hlen := congrArg List.length (planner_outline f)
    rw [List.length_map, List.length_map] at hlen
    omega
  obtain ⟨u, -, hu, huhead, -⟩ := extract_type (List.getElem?_eq_getElem hj')
  obtain ⟨_, hgetu⟩ := List.getElem?_eq_some_iff.mp hu
  rw [hgetu]
  by_contra hmatch
  simp only [Bool.not_eq_true', Bool.not_eq_false, Bool.and_eq_true, decide_eq_true_eq] at hmatch
  obtain ⟨hname, hur⟩ := hmatch
  have hji := hf j i f.types[j] n (List.getElem?_eq_getElem hj') h
    ((congrArg Head.isRef huhead).symm.trans hur) hn
    ((congrArg Head.name huhead).symm.trans (hname.trans (congrArg Head.name hhead)))
  omega

/-- **A named node that is no reference has a final type of its name and shape.** -/
theorem extract_named (hp : f.Plain) (hf : f.DeclaredOnce) (h : f.reach? root path = some n)
    (hnamed : NamedAt root path n) (hn : n.isRef = false) (hm : f.extract.reach? root path = some m) :
    ∃ d, declaring? f.extract.types m.name = some d ∧ d.shape = m.shape := by
  rcases hnamed with ⟨i, rfl, rfl⟩ | hr | hplaced
  · obtain ⟨t, ht, htn⟩ := Option.bind_eq_some_iff.mp h
    obtain rfl := Option.some.inj htn
    obtain ⟨u, hu, hum⟩ := Option.bind_eq_some_iff.mp hm
    obtain rfl := Option.some.inj hum
    exact ⟨u, extract_declaring hf ht hn hu, rfl⟩
  · exact absurd (hr.symm.trans hn) (by simp)
  · obtain ⟨hfinal, -, -⟩ := extract_firstFit h hplaced hm
    obtain ⟨d, hd, hshape⟩ := extract_shared hp m (mem_placed_of_reach hm hfinal)
    have hr : d.isRef = false := (Node.isRef_eq_of_shape_eq hshape).trans hfinal.not_ref
    exact ⟨d, declaring?_of_named? hd hr, hshape⟩

end Forest

end Schemata
