import Schemata.Compile
import Schemata.Proofs.Build.Loading
import Schemata.Proofs.Model.Erasure
import Schemata.Proofs.Model.Lookup

/-!
# What a compilation came through

A compilation is a value only if every stage was: loading, extraction, ordering and binding. The
last stage changes nothing about a node but its constraints.

Results:
* `bindConstraints_frame`: binding leaves types and elements as they are, constraints aside.
* `Compile.document_stages`: the stages behind a compilation, with what each of them recorded.
* `Compile.document_inv`: the types and elements of a compilation, constraints aside.
* `Compile.document_outcome`: a compilation succeeds and fails as its loads and its ordering do.
-/

namespace Schemata

/-! ## Binding -/

/-- The node without its constraints. -/
def Node.unbound (n : Node) : Node := ⟨{ n.head with constraints := [] }, n.kind⟩

theorem Node.unbound_eq {t u : Node} (h : t.unbound = u.unbound) :
    t.name = u.name ∧ t.isRef = u.isRef ∧ t.dependencies = u.dependencies := by
  have hname : t.unbound.name = u.unbound.name := by rw [h]
  have href : t.unbound.isRef = u.unbound.isRef := by rw [h]
  have hdeps : t.unbound.dependencies = u.unbound.dependencies := by rw [h]
  exact ⟨hname, href, hdeps⟩

/-- Lists that agree without constraints have the same names. -/
theorem names_of_unbound_eq {ts us : List Node} (h : ts.map Node.unbound = us.map Node.unbound) :
    ts.map Node.name = us.map Node.name := by
  have hnames := congrArg (List.map Node.name) h
  rwa [List.map_map, List.map_map] at hnames

/-- Lists that agree without constraints have types of one shape under each name. -/
theorem named?_of_unbound_eq {ts us : List Node} (h : ts.map Node.unbound = us.map Node.unbound)
    {name : String} {u : Node} (hu : Node.named? us name = some u) :
    ∃ t, Node.named? ts name = some t ∧ t.shape = u.shape := by
  have hfind : ∀ nodes : List Node, (Node.named? nodes name).map Node.unbound =
      Node.named? (nodes.map Node.unbound) name := fun nodes => by
    rw [Node.named?, Node.named?, List.find?_map]
    rfl
  have heq := hfind ts
  rw [h, ← hfind us, hu, Option.map_some] at heq
  obtain ⟨t, ht, hsame⟩ := Option.map_eq_some_iff.mp heq
  have hshape : t.unbound.shape = u.unbound.shape := congrArg Node.shape hsame
  exact ⟨t, ht, hshape⟩

/-- Lists that agree without constraints agree place by place. -/
theorem getElem?_of_unbound_eq {ts us : List Node} (h : ts.map Node.unbound = us.map Node.unbound)
    {i : Nat} {t : Node} (ht : ts[i]? = some t) : ∃ u, us[i]? = some u ∧ t.unbound = u.unbound := by
  have hi : (us.map Node.unbound)[i]? = some t.unbound := by
    rw [← h, List.getElem?_map, ht, Option.map_some]
  rw [List.getElem?_map] at hi
  obtain ⟨u, hu, heq⟩ := Option.map_eq_some_iff.mp hi
  exact ⟨u, hu, heq.symm⟩

namespace Bind

theorem attachFirst_frame {test : Node → Bool} {c : Constraint} {nodes out : List Node}
    (h : attachFirst test c nodes = some out) :
    out.map Node.unbound = nodes.map Node.unbound := by
  induction nodes generalizing out with
  | nil => exact absurd h (by simp [attachFirst])
  | cons n rest ih =>
    rw [attachFirst] at h
    split at h
    · obtain rfl := Option.some.inj h
      rfl
    · obtain ⟨others, hothers, rfl⟩ := Option.map_eq_some_iff.mp h
      rw [List.map_cons, List.map_cons, ih hothers]

/-- One constraint changes nothing but the constraints of nodes. -/
theorem bindOne_frame (b : Bound) (c : Constraint) :
    (bindOne b c).forest.types.map Node.unbound = b.forest.types.map Node.unbound ∧
      (bindOne b c).forest.elements.map Node.unbound = b.forest.elements.map Node.unbound := by
  unfold bindOne
  split
  · rename_i elements heq
    exact ⟨rfl, attachFirst_frame heq⟩
  · split
    · rename_i types heq
      exact ⟨attachFirst_frame heq, rfl⟩
    · exact ⟨rfl, rfl⟩

theorem foldl_bindOne_frame (constraints : List Constraint) (b : Bound) :
    (constraints.foldl bindOne b).forest.types.map Node.unbound =
        b.forest.types.map Node.unbound ∧
      (constraints.foldl bindOne b).forest.elements.map Node.unbound =
        b.forest.elements.map Node.unbound := by
  induction constraints generalizing b with
  | nil => exact ⟨rfl, rfl⟩
  | cons c rest ih =>
    obtain ⟨htypes, helements⟩ := bindOne_frame b c
    obtain ⟨htypes', helements'⟩ := ih (bindOne b c)
    exact ⟨htypes'.trans htypes, helements'.trans helements⟩

end Bind

/-- **Binding changes nothing but the constraints of nodes.** -/
theorem bindConstraints_frame (f : Forest) (constraints : List Constraint) :
    (bindConstraints f constraints).forest.types.map Node.unbound = f.types.map Node.unbound ∧
      (bindConstraints f constraints).forest.elements.map Node.unbound =
        f.elements.map Node.unbound :=
  Bind.foldl_bindOne_frame constraints ⟨f, 0, []⟩

/-! ## The stages -/

/-- A forest is loaded section by section. -/
theorem loadForest_sections {document : Json} {f : Forest}
    (h : (Compile.loadForest document).result = .ok f) :
    (Entry.loadSection document "types").result = .ok f.types ∧
      (Entry.loadSection document "elements").result = .ok f.elements := by
  simp only [Compile.loadForest, Loaded.bind_eq_ok, Loaded.pure_eq_ok] at h
  obtain ⟨types, htypes, elements, helements, rfl⟩ := h
  exact ⟨htypes, helements⟩

namespace Compile

/-- A validator lets a document pass or not, and changes nothing else. -/
theorem document_of_validator {validator : Option Validator} {definition : String} {doc : Json}
    {digest : Checksum} {c : Compilation}
    (h : document validator definition doc digest = .ok c) :
    document none definition doc digest = .ok c := by
  cases validator with
  | none => exact h
  | some v =>
    unfold document at h
    obtain ⟨_, -, h⟩ := Except.bind_eq_ok.mp h
    exact h

/-- **The stages behind a compilation**, with what each of them recorded. -/
theorem document_stages {validator : Option Validator} {definition : String} {doc : Json}
    {digest : Checksum} {c : Compilation}
    (h : document validator definition doc digest = .ok c) :
    ∃ (f : Forest) (out : List Node) (stats : ReorderStats) (bound : Bind.Bound),
      (loadForest doc).result = .ok f ∧
      (orderTypes f.extract.types).result = .ok (out, stats) ∧
      bindConstraints ⟨out, f.extract.elements⟩ (Constraint.loadSection doc).1 = bound ∧
      c.data.types = bound.forest.types ∧ c.data.elements = bound.forest.elements ∧
      c.diagnostics = (loadForest doc).diagnostics ++ (f.plan.diagnostics ++
        ((orderTypes f.extract.types).diagnostics ++
          ((Constraint.loadSection doc).2 ++ bound.diagnostics))) := by
  have hplain := document_of_validator h
  unfold document at hplain
  obtain ⟨⟨forest, stats⟩, hstages, h⟩ := Except.bind_eq_ok.mp hplain
  obtain rfl := Except.ok.inj h
  unfold stages at hstages ⊢
  obtain ⟨f, hload, hstages⟩ := Loaded.bind_eq_ok.mp hstages
  obtain ⟨extracted, hextract, hstages⟩ := Loaded.bind_eq_ok.mp hstages
  obtain rfl : f.extract = extracted := Except.ok.inj hextract
  obtain ⟨⟨out, work⟩, horder, hstages⟩ := Loaded.bind_eq_ok.mp hstages
  obtain ⟨bound, hbind, hstages⟩ := Loaded.bind_eq_ok.mp hstages
  obtain ⟨rfl, rfl⟩ := Prod.mk.inj (Loaded.pure_eq_ok.mp hstages)
  obtain rfl := Except.ok.inj hbind
  refine ⟨f, out, work, _, hload, horder, rfl, rfl, rfl, ?_⟩
  simp only [Loaded.diagnostics_bind hload, Loaded.diagnostics_bind hextract,
    Loaded.diagnostics_bind horder, Loaded.diagnostics_bind hbind]
  rw [show (pure _ : Loaded (Forest × ReorderStats)).diagnostics = [] from rfl, List.append_nil]
  rfl

/-- **The types and elements of a compilation**, constraints aside. -/
theorem document_inv {definition : String} {doc : Json} {digest : Checksum} {c : Compilation}
    (h : document none definition doc digest = .ok c) :
    ∃ (f : Forest) (out : List Node) (stats : ReorderStats),
      (Entry.loadSection doc "types").result = .ok f.types ∧
      (Entry.loadSection doc "elements").result = .ok f.elements ∧
      (orderTypes f.extract.types).result = .ok (out, stats) ∧
      c.data.types.map Node.unbound = out.map Node.unbound ∧
      c.data.elements.map Node.unbound = f.extract.elements.map Node.unbound := by
  obtain ⟨f, out, stats, -, hload, horder, rfl, htypes, helements, -⟩ := document_stages h
  obtain ⟨hboundTypes, hboundElements⟩ :=
    bindConstraints_frame ⟨out, f.extract.elements⟩ (Constraint.loadSection doc).1
  exact ⟨f, out, stats, (loadForest_sections hload).1, (loadForest_sections hload).2, horder,
    htypes ▸ hboundTypes, helements ▸ hboundElements⟩

/-- **How a compilation without a validator comes out**: as the loading of types and elements and
the ordering of the final types do. -/
theorem document_outcome (definition : String) (doc : Json) (digest : Checksum) :
    (document none definition doc digest).map (fun _ => ()) = (do
      let types ← (Entry.loadSection doc "types").result
      let elements ← (Entry.loadSection doc "elements").result
      let _ ← (orderTypes (Forest.extract ⟨types, elements⟩).types).result
      return ()) := by
  have hstages : (document none definition doc digest).map (fun _ => ()) =
      (stages doc).result.map fun _ => () := by
    simp only [document]
    cases (stages doc).result <;> rfl
  rw [hstages]
  have hbind : ∀ f, (bind doc f).result =
      .ok (bindConstraints f (Constraint.loadSection doc).1).forest := fun _ => rfl
  simp only [stages, loadForest, extract, Loaded.result_bind, Loaded.result_pure, hbind]
  cases (Entry.loadSection doc "types").result with
  | error e => rfl
  | ok types =>
    cases (Entry.loadSection doc "elements").result with
    | error e => rfl
    | ok elements =>
      simp only [Except.ok_bind]
      cases (orderTypes (Forest.extract ⟨types, elements⟩).types).result <;> rfl

end Compile

end Schemata
