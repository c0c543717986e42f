import Schemata.Proofs.Build.Agreement
import Schemata.Proofs.Build.Naming
import Schemata.Proofs.Build.Pointers
import Schemata.Proofs.Compile.Stages
import Schemata.Proofs.Extract.Closed
import Schemata.Proofs.Order.Topological

/-!
# Compiled types are closed and in order

The references of a document usually point at entries of `types`. Then the forest that is loaded
is closed: the resolver answers each reference with the name of an entry that declares a type, and
with the members of that type, which is among the loaded types. The final forest is closed too, and
ordering puts each type behind all it depends on.

Results:
* `Pointer.resolve_intoTypes`: what a pointer into `types` resolves to.
* `loadForest_closed`: such a document loads as a closed forest.
* `extract_sound`: nodes share a type only with nodes of their shape, in any document that loads.
* `compile_closed`: compiled types are named once, are no references, and have all that they depend
  on before them.
-/

namespace Schemata

/-! ## Pointers at types -/

/-- The reference `#/types/` and a written key. -/
def IntoTypes (reference : String) : Prop :=
  ∃ step : List Char, reference = "#/types/" ++ String.ofList step ∧ '/' ∉ step

/-- The reference `#/types/` and a written key, which is the key of an entry of `types`. -/
def TypePointer (document : Json) (reference : String) : Prop :=
  ∃ (step : List Char) (types : List (String × Json)),
    reference = "#/types/" ++ String.ofList step ∧ '/' ∉ step ∧
      document.get? "types" = some (.object types) ∧
      (types.lookup (Pointer.unescape step)).isSome = true

theorem TypePointer.intoTypes {document : Json} {reference : String}
    (h : TypePointer document reference) : IntoTypes reference := by
  obtain ⟨step, -, rfl, hstep, -⟩ := h
  exact ⟨step, rfl, hstep⟩

/-- **What a pointer into `types` resolves to**: the value of its key there. -/
theorem Pointer.resolve_intoTypes {document : Json} {reference key : String} {target : Json}
    (h : IntoTypes reference) (hresolve : Pointer.resolve document reference = .ok (key, target)) :
    ∃ types, document.get? "types" = some types ∧ types.step? key = some target := by
  obtain ⟨step, rfl, hstep⟩ := h
  have hsteps : stepsOf (String.ofList step) = [unescape step] := by
    rw [stepsOf, String.toList_ofList, Text.splitBy_of_not_mem hstep, List.map_singleton]
  have hinto : "#/types/" ++ String.ofList step = into "types" (String.ofList step) := rfl
  rw [hinto, resolve_section sectionKey_types] at hresolve
  cases htypes : document.get? "types" with
  | none => simp [htypes] at hresolve
  | some types =>
    refine ⟨types, rfl, ?_⟩
    cases hat : types.step? (unescape step) with
    | none => simp [htypes, hsteps, Json.at?, hat] at hresolve
    | some found =>
      simp only [htypes, hsteps, Json.at?, hat, Option.bind_some] at hresolve
      obtain ⟨rfl, rfl⟩ := Prod.mk.inj (Except.ok.inj hresolve)
      simpa [hsteps] using hat

/-! ## Loading a closed forest -/

section
variable {document : Json} {f : Forest}

/-- A document declares a type under a name, and what is loaded there has the members of a kind. -/
def DeclaredIn (document : Json) (name : String) (k : Kind) : Prop :=
  ∃ types v, document.get? "types" = some (.object types) ∧ types.lookup name = some v ∧
    Entry.DeclaresType name v ∧
    ∀ n, (Entry.loadIn document name v).result = .ok (some n) → n.children = k.children

theorem resolveIn_answers (hrefs : ∀ r ∈ document.references, IntoTypes r)
    (htypes : (Entry.loadSection document "types").result = .ok f.types) :
    (Entry.resolveIn document).Answers (· ∈ document.references) (DeclaredIn document) := by
  refine Entry.resolver_answers (fun key name site k k' hk hoverride => ?_)
    (fun reference hreference key target hresolve => ?_) _ _
  · obtain ⟨types, v, hsection, hlookup, hv, hmembers⟩ := hk
    exact ⟨types, v, hsection, hlookup, hv, fun n hn =>
      (hmembers n hn).trans (Entry.override_children hoverride).symm⟩
  · obtain ⟨types, hsection, hstep⟩ := Pointer.resolve_intoTypes (hrefs reference hreference) hresolve
    rcases Entry.loadSection_inv htypes with ⟨-, hnull⟩ | ⟨entries, hentries, -⟩
    · obtain rfl := hnull types hsection
      cases hstep
    · obtain rfl := Option.some.inj (hentries.symm.trans hsection)
      refine ⟨fun s hs => Json.references_of_get? hsection ?_, fun levels resolving m hm hv => ?_⟩
      · exact Json.references_of_mem (Json.mem_of_lookup hstep) hs
      · refine ⟨entries, target, hsection, hstep, hv, fun n hn => ?_⟩
        have hagree := Entry.load_agree hn hm
        rw [Option.some.inj hagree]
        rfl

/-- **A document whose references point into `types` loads as a closed forest.** -/
theorem loadForest_closed_of_intoTypes (hrefs : ∀ r ∈ document.references, IntoTypes r)
    (htypes : (Entry.loadSection document "types").result = .ok f.types)
    (helements : (Entry.loadSection document "elements").result = .ok f.elements) : f.Closed := by
  have hR := resolveIn_answers hrefs htypes
  have hanchors : ∀ r : Node, DeclaredIn document r.name r.kind → f.Anchors r := by
    rintro r ⟨types, v, hsection, hlookup, hv, hmembers⟩
    obtain ⟨n, hn, hdeclaring⟩ := Entry.declaring?_of_loadSection htypes hsection hlookup hv
    exact ⟨n, hdeclaring, hmembers n hn⟩
  refine ⟨fun t ht r hr => hanchors r ?_, fun n hn r hr => hanchors r ?_⟩
  · obtain ⟨key, -, hknown⟩ := Entry.loadSection_built hR (fun _ hs => hs) htypes t ht
    exact hknown r hr
  · obtain ⟨key, -, hknown⟩ := Entry.loadSection_built hR (fun _ hs => hs) helements n hn
    exact hknown r hr

theorem loadForest_closed (hrefs : ∀ r ∈ document.references, TypePointer document r)
    (htypes : (Entry.loadSection document "types").result = .ok f.types)
    (helements : (Entry.loadSection document "elements").result = .ok f.elements) : f.Closed :=
  loadForest_closed_of_intoTypes (fun r hr => (hrefs r hr).intoTypes) htypes helements

end

/-! ## Sharing in documents -/

/-- **Nodes share a type only with nodes of their shape.** When the types of a document have been
loaded and extracted with any elements, every placed node names one of the final types, and the
first type of its name has its shape. -/
theorem extract_sound {document : Json} {types : List Node}
    (htypes : (Entry.loadSection document "types").result = .ok types) (elements : List Node) :
    ∀ m ∈ (Forest.extract ⟨types, elements⟩).placed, ∃ d,
      (Forest.extract ⟨types, elements⟩).types.find? (·.name = m.name) = some d ∧
        m.sameShape d = true := by
  intro m hm
  have hplain : Forest.Plain ⟨types, elements⟩ := Entry.loadSection_plain htypes
  obtain ⟨d, hd, hshape⟩ := Forest.extract_shared hplain m hm
  exact ⟨d, hd, (Node.sameShape_iff m d).mpr hshape.symm⟩

namespace Sample

/-- The declaration of an array of arrays of texts. -/
def grid : Json := .object [("type", .string "array"),
  ("items", .object [("type", .string "array"), ("items", .object [("type", .string "string")])])]

/-- A type with a field for a grid, a declared grid under the name that the field's type is tried
with first, and an element that is a grid. -/
def grids : Json := .object [
  ("types", .object [
    ("Board", .object [("type", .string "object"), ("properties", .object [("cells", grid)])]),
    ("array_array", grid)]),
  ("elements", .object [("grid", grid)])]

end Sample

/-- When the field is walked, the declared grid is still raw and has another shape, so the field gets
a type of its own. The element is walked last and shares the declared grid. -/
theorem extract_sound_grids : ∃ types elements,
    (Entry.loadSection Sample.grids "types").result = .ok types ∧
      (Entry.loadSection Sample.grids "elements").result = .ok elements ∧
      (Forest.extract ⟨types, elements⟩).placed.map Node.name =
        ["array_array-array", "string_array", "string_array", "string_array", "array_array",
          "string_array"] ∧
      ∀ m ∈ (Forest.extract ⟨types, elements⟩).placed, ∃ d,
        (Forest.extract ⟨types, elements⟩).types.find? (·.name = m.name) = some d ∧
          m.sameShape d = true := by
  have hnames : (Compile.loadForest Sample.grids).result.toOption.map
      (fun f => f.extract.placed.map Node.name) =
        some ["array_array-array", "string_array", "string_array", "string_array", "array_array",
          "string_array"] := by
    decide +kernel
  cases hload : (Compile.loadForest Sample.grids).result with
  | error e =>
    rw [hload] at hnames
    cases hnames
  | ok f =>
    rw [hload] at hnames
    simp only [Compile.loadForest, Loaded.bind_eq_ok, Loaded.pure_eq_ok] at hload
    obtain ⟨types, htypes, elements, helements, rfl⟩ := hload
    exact ⟨types, elements, htypes, helements, Option.some.inj hnames,
      extract_sound htypes elements⟩

/-! ## Compiled documents -/

/-- **Compiled types are closed and in order.** If every reference of a document points at an entry
of `types`, then the types of its compilation have distinct names and none is a reference, whatever
a type depends on stands before it, and every element has the name of a type. -/
theorem compile_closed {definition : String} {document : Json} {digest : Checksum}
    {c : Compilation} (hrefs : ∀ r ∈ document.references, TypePointer document r)
    (hc : Compile.document none definition document digest = .ok c) :
    (c.data.types.map Node.name).Nodup ∧
      (∀ t ∈ c.data.types, t.isRef = false) ∧
      (∀ (i : Nat) (t : Node), c.data.types[i]? = some t → ∀ d ∈ t.dependencies,
        ∃ j, j < i ∧ (c.data.types[j]?).map Node.name = some d.name) ∧
      ∀ e ∈ c.data.elements, e.name ∈ c.data.types.map Node.name := by
  obtain ⟨f, out, stats, htypes, helements, horder, hout, hbound⟩ := Compile.document_inv hc
  have hplain : f.Plain := Entry.loadSection_plain htypes
  have hclosed : f.Closed := loadForest_closed hrefs htypes helements
  have hordered := orderTypes_ordered horder
  have hnames := names_of_unbound_eq hout
  have hkept : ∀ t ∈ out, t ∈ f.extract.types ∧ t.isRef = false := by
    intro t ht
    obtain ⟨u, hu, hname⟩ := List.mem_map.mp ((hordered.names t.name).mp (List.mem_map_of_mem ht))
    obtain ⟨v, hv, hr, hvname⟩ := Forest.extract_declares hclosed hu
    exact hordered.kept t ht ⟨v, hv, hvname.trans hname, hr⟩
  refine ⟨hnames ▸ hordered.nodup, fun t ht => ?_, fun i t ht d hd => ?_, fun e he => ?_⟩
  · obtain ⟨i, hi⟩ := List.mem_iff_getElem?.mp ht
    obtain ⟨u, hu, heq⟩ := getElem?_of_unbound_eq hout hi
    obtain ⟨-, href, -⟩ := Node.unbound_eq heq
    exact href.trans (hkept u (List.mem_of_getElem? hu)).2
  · obtain ⟨u, hu, heq⟩ := getElem?_of_unbound_eq hout ht
    obtain ⟨-, -, hdeps⟩ := Node.unbound_eq heq
    obtain ⟨hmem, hr⟩ := hkept u (List.mem_of_getElem? hu)
    have hin := Forest.extract_dependencies hplain hclosed hmem hr d (hdeps ▸ hd)
    obtain ⟨j, hj, hname⟩ := hordered.before i u hu d (hdeps ▸ hd) ((hordered.names _).mpr hin)
    refine ⟨j, hj, ?_⟩
    rw [← List.getElem?_map, hnames, List.getElem?_map]
    exact hname
  · obtain ⟨i, hi⟩ := List.mem_iff_getElem?.mp he
    obtain ⟨n, hn, heq⟩ := getElem?_of_unbound_eq hbound hi
    obtain ⟨hname, -, -⟩ := Node.unbound_eq heq
    rw [hname, hnames, hordered.names]
    exact Forest.extract_elements hplain hclosed (List.mem_of_getElem? hn)

namespace Sample

/-- Two points make a line, and the border is an array of lines. The key of the point's entry holds a
slash. -/
def border : Json := .object [
  ("types", .object [
    ("Line", .object [("type", .string "object"), ("properties", .object [
      ("from", .object [("$ref", .string "#/types/geo~1Point")]),
      ("to", .object [("$ref", .string "#/types/geo~1Point")])])]),
    ("geo/Point", .object [("type", .string "object"), ("properties", .object [
      ("x", .object [("type", .string "int")]),
      ("y", .object [("type", .string "int")])])])]),
  ("elements", .object [("border", .object [("type", .string "array"),
    ("items", .object [("$ref", .string "#/types/Line")])])])]

end Sample

/-- The border compiles, each type behind those it depends on. -/
theorem compile_closed_border :
    (∀ r ∈ Sample.border.references, TypePointer Sample.border r) ∧
      ∃ c, Compile.document none "border.yaml" Sample.border (Checksum.ofBytes []) = .ok c ∧
        c.data.types.map Node.name = ["x", "y", "geo/Point", "Line", "Line_array"] ∧
        (c.data.types.map Node.name).Nodup ∧
        (∀ t ∈ c.data.types, t.isRef = false) ∧
        (∀ (i : Nat) (t : Node), c.data.types[i]? = some t → ∀ d ∈ t.dependencies,
          ∃ j, j < i ∧ (c.data.types[j]?).map Node.name = some d.name) ∧
        ∀ e ∈ c.data.elements, e.name ∈ c.data.types.map Node.name := by
  have hpoint : TypePointer Sample.border "#/types/geo~1Point" :=
    ⟨"geo~1Point".toList, _, by decide, by decide, rfl, by decide⟩
  have hline : TypePointer Sample.border "#/types/Line" :=
    ⟨"Line".toList, _, by decide, by decide, rfl, by decide⟩
  have hrefs : ∀ r ∈ Sample.border.references, TypePointer Sample.border r :=
    List.forall_mem_cons.mpr ⟨hpoint, List.forall_mem_cons.mpr ⟨hpoint,
      List.forall_mem_cons.mpr ⟨hline, List.forall_mem_nil _⟩⟩⟩
  have hnames : (Compile.document none "border.yaml" Sample.border
      (Checksum.ofBytes [])).toOption.map (fun c => c.data.types.map Node.name) =
        some ["x", "y", "geo/Point", "Line", "Line_array"] := by
    decide +kernel
  refine ⟨hrefs, ?_⟩
  cases hc : Compile.document none "border.yaml" Sample.border (Checksum.ofBytes []) with
  | error e =>
    rw [hc] at hnames
    cases hnames
  | ok c =>
    rw [hc] at hnames
    exact ⟨c, rfl, Option.some.inj hnames, compile_closed hrefs hc⟩

end Schemata
