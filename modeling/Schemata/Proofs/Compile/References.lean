import Schemata.Proofs.Build.Places
import Schemata.Proofs.Compile.Stages
import Schemata.Proofs.Extract.Kept
import Schemata.Proofs.Order.Topological

/-!
# What references name

A reference is given the name of the node that its pointer leads to. Extraction leaves references as
they are but may give that node another name, so a reference names the definition of its target
exactly when the target has kept its name. Entries of `types` and references always do; any other
target does when the name it was declared under is the first that fits it.

Results:
* `loadForest_place`: the node at a place of a loaded forest was loaded from the value at its keys.
* `loadForest_standsFor`: every reference of a loaded forest stands for a pointer.
* `reference_name_iff`: when a reference has the name that its target has in the end, and what the
  compiled types have under that name.
* `reference_without_type`: a document with a reference whose name is that of no compiled type.
-/

namespace Schemata

open Forest

section
variable {document : Json} {f : Forest} {root : Root} {path : List Step} {n x : Node}

/-! ## Places of the loaded forest -/

/-- The tree of a root is among the nodes of its section. -/
theorem loadForest_root (h : (Compile.loadForest document).result = .ok f)
    (hn : f.root? root = some n) : ∃ nodes,
      (Entry.loadSection document root.sectionName).result = .ok nodes ∧ n ∈ nodes := by
  obtain ⟨htypes, helements⟩ := loadForest_sections h
  cases root with
  | type i => exact ⟨_, htypes, List.mem_of_getElem? hn⟩
  | element i => exact ⟨_, helements, List.mem_of_getElem? hn⟩

/-- **The node at a place of a loaded forest was loaded from the value at its keys.** -/
theorem loadForest_place (hd : document.distinct = true)
    (hf : (Compile.loadForest document).result = .ok f) (h : f.reach? root path = some n)
    {key : String} {target : Json} (hlast : (f.keysTo root path).getLast? = some key)
    (htarget : document.at? (f.keysTo root path) = some target) :
    (Entry.loadIn document key target).result = .ok (some n) := by
  obtain ⟨t, ht, hn⟩ := Option.bind_eq_some_iff.mp h
  obtain ⟨nodes, hload, hin⟩ := loadForest_root hf ht
  have hkeys : f.keysTo root path = [root.sectionName, t.label] ++ t.keysTo path := by
    rw [keysTo, ht]
    rfl
  have hplace := Entry.loadSection_place hd hload hin hn (hkeys ▸ htarget)
  rw [hkeys, List.getLast?_append, show [root.sectionName, t.label].getLast? = some t.label from rfl,
    Option.or_some, Option.some.injEq] at hlast
  exact hlast ▸ hplace

/-- **Every reference of a loaded forest stands for a pointer.** -/
theorem loadForest_standsFor (hd : document.distinct = true)
    (hf : (Compile.loadForest document).result = .ok f) (h : f.at? root path = some x)
    (hx : x.isRef = true) : ∃ reference, Entry.StandsFor document reference x := by
  obtain ⟨t, ht, h⟩ := Option.bind_eq_some_iff.mp h
  obtain ⟨nodes, hload, hin⟩ := loadForest_root hf ht
  obtain ⟨v, hv, hnode⟩ := Entry.loadSection_entry hd hload hin
  exact Entry.exists_standsFor hd _ _ _ v t (Json.distinct_at _ _ hd hv) hnode path x h hx

/-- A document declares each name once. -/
theorem loadForest_declaredOnce (hd : document.distinct = true)
    (hf : (Compile.loadForest document).result = .ok f) : f.DeclaredOnce := by
  obtain ⟨htypes, -⟩ := loadForest_sections hf
  have hlabels := Entry.loadSection_labels hd htypes
  have hname : ∀ (i : Nat) (t : Node), f.types[i]? = some t → t.isRef = false → t.name = t.label :=
    fun i t ht hr => by
      obtain ⟨v, -, hnode⟩ := Entry.loadSection_entry hd htypes (List.mem_of_getElem? ht)
      exact (Entry.loadIn_plain hnode hr).1
  intro i j t u ht hu htr hur heq
  have hsame : (f.types.map Node.label)[i]? = (f.types.map Node.label)[j]? := by
    rw [List.getElem?_map, List.getElem?_map, ht, hu, Option.map_some, Option.map_some,
      ← hname i t ht htr, ← hname j u hu hur, heq]
  have hi : i < (f.types.map Node.label).length := by
    rw [List.length_map]
    exact (List.getElem?_eq_some_iff.mp ht).1
  exact (List.getElem?_inj hi hlabels).mp hsame

end

/-! ## Compiled references -/

/-- **When a reference has the name of its target's definition.** Take a document that compiles, a
reference `x` anywhere in its loaded types and elements, and a pointer that `x` stands for. If the keys
of the pointer are those of a node that stands for a top-level type, then `x` has the name that this
node was loaded with. It is the name the node has after extraction exactly when the node is an entry of
`types` or a reference, or its name is the first that fits it; and then the compiled types have, under
that name, a type of the node's shape. -/
theorem reference_name_iff {validator : Option Validator} {definition : String} {document : Json}
    {digest : Checksum} {c : Compilation} (hd : document.distinct = true)
    (hc : Compile.document validator definition document digest = .ok c) :
    ∃ f, (Compile.loadForest document).result = .ok f ∧
      ∀ site inner x, f.at? site inner = some x → x.isRef = true →
        f.extract.at? site inner = some x ∧
        (∃ reference, Entry.StandsFor document reference x) ∧
        ∀ reference, Entry.StandsFor document reference x → ∀ root path n,
          f.reach? root path = some n → NamedAt root path n →
          Pointer.keys? reference = some (f.keysTo root path) →
            ∃ m, f.extract.reach? root path = some m ∧ x.name = n.name ∧
              (x.name = m.name ↔
                (∃ i, root = .type i ∧ path = []) ∨ n.isRef = true ∨
                  f.FirstFits root m n.name) ∧
              (n.isRef = false → x.name = m.name →
                ∃ d, Node.named? c.data.types x.name = some d ∧ d.sameShape m = true) := by
  obtain ⟨f, out, stats, htypes, helements, horder, hout, -⟩ :=
    Compile.document_inv (Compile.document_of_validator hc)
  have hf : (Compile.loadForest document).result = .ok f := by
    simp only [Compile.loadForest, Loaded.bind_eq_ok, Loaded.pure_eq_ok]
    exact ⟨f.types, htypes, f.elements, helements, rfl⟩
  have hplain : f.Plain := Entry.loadSection_plain htypes
  refine ⟨f, hf, fun site inner x hx hxr => ⟨extract_at_of_isRef hx hxr,
    loadForest_standsFor hd hf hx hxr, fun reference hstands root path n hn hnamed hkeys => ?_⟩⟩
  obtain ⟨m, hm, hiff⟩ := extract_name_iff hn hnamed
  have hname : x.name = n.name :=
    hstands.name_eq hkeys fun key target hlast htarget => loadForest_place hd hf hn hlast htarget
  refine ⟨m, hm, hname, by rw [hname, eq_comm, hiff], fun hnr hkeep => ?_⟩
  obtain ⟨d, hdeclaring, hshape⟩ :=
    extract_named hplain (loadForest_declaredOnce hd hf) hn hnamed hnr hm
  obtain ⟨t, ht, hsame⟩ := named?_of_unbound_eq hout (orderTypes_declaring horder hdeclaring)
  exact ⟨t, hkeep ▸ ht, (Node.sameShape_iff t m).mpr (hsame.trans hshape)⟩

namespace Sample

/-- A home is the stop of a route, which is declared in place. -/
def homes : Json := .object [
  ("types", .object [("Route", .object [("type", .string "object"), ("properties", .object [
    ("stop", .object [("type", .string "object"), ("properties", .object [
      ("code", .object [("type", .string "string")])])])])])]),
  ("elements", .object [("home", .object [("$ref", .string "#/types/Route/properties/stop")])])]

/-- The node of a stop. -/
def stop : Node := object "stop" [text "code"]

/-- The homes as they are loaded. -/
def homesForest : Forest := ⟨[object "Route" [stop]], [reference "home" stop]⟩

/-- There are tags, and more of them. -/
def tags : Json := .object [("elements", .object [
  ("tags", .object [("type", .string "array"), ("items", .object [("type", .string "string")])]),
  ("more", .object [("$ref", .string "#/elements/tags")])])]

/-- The node of an array of tags. -/
def tagList : Node := ⟨Head.fresh "tags" .array, .array (text "items") ⟨"entry", none, none, none⟩⟩

/-- The tags as they are loaded. -/
def tagsForest : Forest := ⟨[], [tagList, reference "more" tagList]⟩

end Sample

/-- The home has the name of the stop, which is that of a compiled type of its shape. -/
theorem reference_name_iff_homes : Sample.homes.distinct = true ∧
    ∃ c, Compile.document none "homes.yaml" Sample.homes (Checksum.ofBytes []) = .ok c ∧
      Sample.homesForest.at? (.element 0) [] = some (Sample.reference "home" Sample.stop) ∧
      Entry.StandsFor Sample.homes "#/types/Route/properties/stop"
        (Sample.reference "home" Sample.stop) ∧
      ∃ d, Node.named? c.data.types "stop" = some d ∧ d.sameShape Sample.stop = true := by
  have hd : Sample.homes.distinct = true := by decide +kernel
  have hload : (Compile.loadForest Sample.homes).result.toOption = some Sample.homesForest := by
    decide +kernel
  have hcompiles : (Compile.document none "homes.yaml" Sample.homes
      (Checksum.ofBytes [])).toOption.isSome = true := by
    decide +kernel
  obtain ⟨c, hc⟩ := Option.isSome_iff_exists.mp hcompiles
  have hsite : (Entry.resolver Sample.homes 1 [] "home"
      [("$ref", .string "#/types/Route/properties/stop")]).result.toOption =
        some (some (Sample.reference "home" Sample.stop)) := by
    decide +kernel
  have hstands : Entry.StandsFor Sample.homes "#/types/Route/properties/stop"
      (Sample.reference "home" Sample.stop) :=
    ⟨_, _, _, _, _, rfl, Except.eq_ok_of_toOption hsite, Or.inl rfl⟩
  obtain ⟨f, hf, hall⟩ := reference_name_iff hd (Except.eq_ok_of_toOption hc)
  obtain rfl := Except.ok.inj (hf.symm.trans (Except.eq_ok_of_toOption hload))
  have hx : Sample.homesForest.at? (.element 0) [] = some (Sample.reference "home" Sample.stop) := by
    decide +kernel
  obtain ⟨-, -, hname⟩ := hall (.element 0) [] _ hx rfl
  obtain ⟨m, hm, -, -, htype⟩ := hname _ hstands (.type 0) [.field 0] Sample.stop (by decide +kernel)
    (Or.inr (Or.inr ⟨rfl, by simp, rfl⟩)) (by decide +kernel)
  have hfinal : Sample.homesForest.extract.reach? (.type 0) [.field 0] = some Sample.stop := by
    decide +kernel
  obtain rfl := Option.some.inj (hm.symm.trans hfinal)
  exact ⟨hd, c, Except.eq_ok_of_toOption hc, hx, hstands, htype rfl rfl⟩

/-- **A reference may have a name that no type has.** The array of tags becomes `string_array`, while
the reference to it is still called `tags`. -/
theorem reference_without_type : Sample.tags.distinct = true ∧
    (Compile.loadForest Sample.tags).result = .ok Sample.tagsForest ∧
    (∃ c, Compile.document none "tags.yaml" Sample.tags (Checksum.ofBytes []) = .ok c ∧
      c.data.types.map Node.name = ["string_array"]) ∧
    Sample.tagsForest.extract.at? (.element 1) [] = some (Sample.reference "more" Sample.tagList) ∧
    Entry.StandsFor Sample.tags "#/elements/tags" (Sample.reference "more" Sample.tagList) ∧
    Pointer.keys? "#/elements/tags" = some (Sample.tagsForest.keysTo (.element 0) []) ∧
    Sample.tagsForest.reach? (.element 0) [] = some Sample.tagList ∧
    PlacedAt (.element 0) [] Sample.tagList ∧
    Sample.tagsForest.extract.reach? (.element 0) [] =
      some (Sample.tagList.rename "string_array") ∧
    (Sample.reference "more" Sample.tagList).name = "tags" := by
  have hload : (Compile.loadForest Sample.tags).result.toOption = some Sample.tagsForest := by
    decide +kernel
  have hnames : (Compile.document none "tags.yaml" Sample.tags
      (Checksum.ofBytes [])).toOption.map (fun c => c.data.types.map Node.name) =
        some ["string_array"] := by
    decide +kernel
  obtain ⟨c, hc, hnames⟩ := Option.map_eq_some_iff.mp hnames
  have hsite : (Entry.resolver Sample.tags 1 [] "more"
      [("$ref", .string "#/elements/tags")]).result.toOption =
        some (some (Sample.reference "more" Sample.tagList)) := by
    decide +kernel
  have hstands : Entry.StandsFor Sample.tags "#/elements/tags"
      (Sample.reference "more" Sample.tagList) :=
    ⟨_, _, _, _, _, rfl, Except.eq_ok_of_toOption hsite, Or.inl rfl⟩
  exact ⟨by decide +kernel, Except.eq_ok_of_toOption hload, ⟨c, Except.eq_ok_of_toOption hc, hnames⟩,
    by decide +kernel, hstands, by decide +kernel, by decide +kernel, ⟨rfl, by simp, rfl⟩,
    by decide +kernel, rfl⟩

end Schemata
