import Schemata.Proofs.Build.Overrides
import Schemata.Proofs.Build.Places

/-!
# Loaded nodes are well formed

What later passes take for granted of a node is true of every node that loading makes: its tag fits
its kind, nothing is attached to it yet, it is called after its place, and where it is an object, its
fields say what their types say. An entry makes a node of this form. A reference takes over the node
of its target, and what its site overrides keeps this form.

Results:
* `Kind.HasTag.overridden`, `Node.WellFormed.atSite`: overrides keep the form.
* `Entry.wellFormed_of_load`: what is declared at an entry has it.
* `Entry.loadSection_wellFormed`: every node of a section has it, at every depth.
-/

namespace Schemata

/-! ## Tags and kinds -/

/-- A leaf kind is one that entries of the given tag declare. -/
def Leaf.HasTag (tag : Tag) : Leaf → Prop
  | .integer _ => tag = .int ∨ tag = .uint
  | .float _ => tag = .float ∨ tag = .double
  | .boolean _ => tag = .bool
  | .string _ => tag = .string
  | .enum s => tag = .enum ∧ (s.base = .int ∨ s.base = .uint ∨ s.base = .string)

/-- A kind is one that entries of the given tag declare. -/
def Kind.HasTag (tag : Tag) : Kind → Prop
  | .leaf spec => spec.HasTag tag
  | .array .. => tag = .array
  | .dictionary .. => tag = .dict
  | .object .. => tag = .object

/-! ## Well-formed nodes -/

/-- A field says what its type says, and is required if its type is. -/
structure Field.Agrees (f : Field) : Prop where
  /-- The field has the name that its type is called by. -/
  name_eq : f.name = f.type.label
  /-- It has the description of its type. -/
  description_eq : f.head.description = f.type.head.description
  /-- It has the default of its type. -/
  default_eq : f.head.default = f.type.default?
  /-- It is required if its type is. -/
  required : f.type.head.required = true → f.head.required = true

/-- The members of a kind are called after their positions. -/
def Kind.Labelled : Kind → Prop
  | .leaf _ => True
  | .array item _ => item.label = "items"
  | .dictionary key value _ => key.label = "keys" ∧ value.label = "values"
  | .object fields _ => (fields.map Field.name).Nodup ∧ ∀ f ∈ fields, f.Agrees

/-- A node as loading makes it. -/
structure Node.WellFormed (n : Node) : Prop where
  /-- The tag fits the kind. -/
  tag : n.kind.HasTag n.tag
  /-- There are no constraints yet. -/
  constraints_eq : n.head.constraints = []
  /-- The node was not hoisted out of another type. -/
  not_nested : n.head.isNested = false
  /-- The node has the name that it is called by, if it is no reference. -/
  name_eq : n.isRef = false → n.name = n.label
  /-- No default is an explicit `null`. -/
  default_ne : n.default? ≠ some .null
  /-- The members are called after their positions. -/
  members : n.kind.Labelled

/-! ## Overrides -/

theorem Props.value?_ne_null (props : Props) (key : String) : props.value? key ≠ some .null :=
  fun h => by simpa [Json.isNull] using (Option.filter_eq_some_iff.mp h).2

theorem Props.outermost?_ne_null (sites : List Props) (key : String) :
    outermost? sites key ≠ some .null := fun h => by
  obtain ⟨site, -, hsite⟩ := List.exists_of_findSome?_eq_some h
  exact site.value?_ne_null key hsite

theorem keep_ne_null {override old : Option Json} (hoverride : override ≠ some .null)
    (hold : old ≠ some .null) : keep override old ≠ some .null := by
  cases override with
  | none => exact hold
  | some v => exact hoverride

section
variable {k : Kind} {tag : Tag} {name : String} {site : Props}

/-- **Overrides keep the tag fitting.** -/
theorem Kind.HasTag.overridden (h : k.HasTag tag) (sites : List Props) :
    (k.overridden sites).HasTag tag := by
  cases k with
  | leaf spec => cases spec <;> exact h
  | _ => exact h

theorem Kind.Labelled.overridden (h : k.Labelled) (sites : List Props) :
    (k.overridden sites).Labelled := by
  cases k <;> exact h

theorem Kind.boolean_default_ne (d : Option Bool) :
    (Kind.leaf (.boolean d)).default? ≠ some .null := by
  cases d <;> simp [Kind.default?]

theorem Kind.overridden_default_ne (h : k.default? ≠ some .null) (sites : List Props) :
    (k.overridden sites).default? ≠ some .null := by
  have hkeep : keep (Props.outermost? sites "default") k.default? ≠ some .null :=
    keep_ne_null (Props.outermost?_ne_null sites "default") h
  cases k with
  | leaf spec =>
    cases spec with
    | boolean d => exact Kind.boolean_default_ne _
    | _ => exact hkeep
  | _ => exact hkeep

/-- **What a site makes of a well-formed node is well formed**, also with the flag of the site. -/
theorem Node.WellFormed.atSite {m a x : Node} (hm : m.WellFormed) (h : m.atSite name site = .ok a)
    (hx : x = a ∨ Entry.withFlag site (some a) = some x) : x.WellFormed := by
  obtain ⟨description, xml, -, -, hkind, hhead⟩ := Entry.atSite_parts h
  have ha : a.WellFormed := by
    obtain ⟨head, kind⟩ := a
    obtain rfl : kind = m.kind.overridden [site] := Kind.override_self hkind
    obtain rfl := hhead
    exact {
      tag := hm.tag.overridden [site]
      constraints_eq := hm.constraints_eq
      not_nested := hm.not_nested
      name_eq := fun hr => absurd hr (by simp [Node.isRef])
      default_ne := Kind.overridden_default_ne hm.default_ne [site]
      members := hm.members.overridden [site] }
  rcases hx with rfl | hx
  · exact ha
  · obtain rfl := Option.some.inj hx
    exact ⟨ha.tag, ha.constraints_eq, ha.not_nested, ha.name_eq, ha.default_ne, ha.members⟩

end

/-! ## Declared nodes -/

/-- A leaf kind fits a tag, and its default is no explicit `null`. -/
structure Leaf.Fits (tag : Tag) (leaf : Leaf) : Prop where
  /-- The tag fits. -/
  tag : leaf.HasTag tag
  /-- The default is not `null`. -/
  default_ne : (Kind.leaf leaf).default? ≠ some .null

namespace Entry

variable {resolve : Resolver} {document : Json} {name : String} {props : Props} {v : Json}
  {tag : Tag} {leaf : Leaf} {m n : Node}

theorem fits_of_integerOf (htag : tag = .int ∨ tag = .uint)
    (h : Leaf.integerOf name props = .ok leaf) : leaf.Fits tag := by
  simp only [Leaf.integerOf, Except.bind_eq_ok] at h
  obtain ⟨base, -, min, -, max, -, h⟩ := h
  obtain rfl := Except.ok.inj h
  exact ⟨htag, props.value?_ne_null "default"⟩

theorem fits_of_floatOf (htag : tag = .float ∨ tag = .double)
    (h : Leaf.floatOf name props = .ok leaf) : leaf.Fits tag := by
  simp only [Leaf.floatOf, Except.bind_eq_ok] at h
  obtain ⟨min, -, max, -, h⟩ := h
  obtain rfl := Except.ok.inj h
  exact ⟨htag, props.value?_ne_null "default"⟩

theorem fits_of_stringOf (h : Leaf.stringOf name props = .ok leaf) : leaf.Fits .string := by
  simp only [Leaf.stringOf, Except.bind_eq_ok] at h
  obtain ⟨pattern, -, min, -, max, -, h⟩ := h
  obtain rfl := Except.ok.inj h
  exact ⟨rfl, props.value?_ne_null "default"⟩

theorem fits_of_booleanOf : (Leaf.booleanOf props).Fits .bool :=
  ⟨rfl, Kind.boolean_default_ne _⟩

theorem fits_of_enumOf (htag : tag = .int ∨ tag = .uint ∨ tag = .string)
    (h : Leaf.enumOf name tag props = .ok leaf) : leaf.Fits .enum := by
  unfold Leaf.enumOf at h
  split at h
  · obtain ⟨values, -, h⟩ := Except.bind_eq_ok.mp h
    obtain rfl := Except.ok.inj h
    exact ⟨⟨rfl, htag⟩, props.value?_ne_null "default"⟩
  · cases h

/-- **What a scalar declares fits its tag**; a list of literals makes it an enumeration. -/
theorem fits_of_leafDeclaration {found : Tag} (hscalar : IsScalar found)
    (h : leafDeclaration name found props = .leaf tag (.ok leaf)) : leaf.Fits tag := by
  unfold leafDeclaration at h
  split at h
  · rename_i henum
    obtain ⟨rfl, hleaf⟩ := Declaration.leaf.inj h
    exact fits_of_enumOf (by simpa [or_assoc] using (Bool.and_eq_true_iff.mp henum).2) hleaf
  · split at h
    all_goals obtain ⟨rfl, hleaf⟩ := Declaration.leaf.inj h
    · exact fits_of_integerOf (Or.inl rfl) hleaf
    · exact fits_of_integerOf (Or.inr rfl) hleaf
    · exact fits_of_floatOf (Or.inl rfl) hleaf
    · exact fits_of_floatOf (Or.inr rfl) hleaf
    · exact Except.ok.inj hleaf ▸ fits_of_booleanOf
    · obtain rfl : found = .string := by
        cases found <;> simp_all [IsScalar]
      exact fits_of_stringOf hleaf

theorem Declared.wellFormed {g : Head} {k : Kind} (hg : Declared name g) (htag : k.HasTag g.tag)
    (hdefault : k.default? ≠ some .null) (hmembers : k.Labelled) : Node.WellFormed ⟨g, k⟩ where
  tag := htag
  constraints_eq := hg.constraints_eq
  not_nested := hg.not_nested
  name_eq _ := hg.name_eq.trans hg.label_eq.symm
  default_ne := hdefault
  members := hmembers

/-! ### Members -/

theorem loadMember_label (hR : resolve.Refers) {key : String}
    (h : (loadMember resolve key props).result = .ok (some n)) : n.label = key := by
  obtain ⟨w, -, hload⟩ := loadMember_inv h
  exact load_label hR hload

/-- A member is called after its position, also when it comes from the reference beside the
container's type. -/
theorem memberOr_label (hR : resolve.Refers) {key : String}
    (h : (memberOr resolve props key (loadMember resolve key props)).result = .ok (some n)) :
    n.label = key := by
  rcases memberOr_inv h with ⟨w, -, hload⟩ | ⟨-, site, hsite⟩
  · exact load_label hR hload
  · exact (hR key site n hsite).2

/-- **The fields of an object have distinct names and agree with their types.** -/
theorem loadProperties_labelled (hR : resolve.Refers) {required : List String} {fields : List Field}
    (hd : (Json.object props).distinct = true)
    (h : (loadProperties resolve name required props).result = .ok fields) (d : Option Json) :
    (Kind.object fields d).Labelled := by
  rcases loadProperties_inv h with rfl | ⟨entries, hentries, hload⟩
  · exact ⟨List.nodup_nil, by simp⟩
  · obtain ⟨hgathered, hmade⟩ := gathered_of_loadFields hload
    refine ⟨?_, fun f hf => ?_⟩
    · have hkeys := hgathered.keys
      rw [List.map_map] at hkeys
      exact (Json.keys_of_get? (v := .object props) hd hentries).sublist hkeys
    · obtain ⟨w, -, hw⟩ := loadFields_inv hload f hf
      rw [hmade f hf]
      exact ⟨(load_label hR hw).symm, rfl, rfl, fun hrequired =>
        Bool.or_eq_true_iff.mpr (Or.inr hrequired)⟩

/-- **What is declared at an entry is well formed.** -/
theorem wellFormed_of_load (hR : resolve.Refers) (hd : v.distinct = true)
    (h : (load resolve name v).result = .ok (some n)) (hn : n.isRef = false) : n.WellFormed := by
  cases v with
  | object props =>
    have hparts := load_inv h
    cases hdecl : declaration name props with
    | nothing => rw [hdecl] at hparts; cases hparts
    | unrecognized _ => rw [hdecl] at hparts; cases hparts
    | reference =>
      rw [hdecl] at hparts
      obtain ⟨node, hnode, hsome⟩ := hparts
      cases node with
      | none => cases hsome
      | some m =>
        obtain rfl := Option.some.inj hsome
        exact absurd ((hR name props m hnode).1.symm.trans hn) (by simp)
    | leaf tag spec =>
      rw [hdecl] at hparts
      obtain ⟨g, leaf, hg, hsome, rfl, rfl⟩ := hparts
      obtain rfl := Option.some.inj hsome
      have hreads := declaration_reads name props
      rw [hdecl] at hreads
      obtain ⟨found, -, hscalar, hleaf⟩ := hreads
      have hfits := fits_of_leafDeclaration hscalar hleaf
      exact hg.wellFormed hfits.tag hfits.default_ne trivial
    | array =>
      rw [hdecl] at hparts
      obtain ⟨g, item, s, hg, hsome, hitem, htag, hdefault⟩ := hparts
      obtain rfl := Option.some.inj hsome
      refine hg.wellFormed htag ?_ (memberOr_label hR hitem)
      rw [Kind.default?, hdefault]
      exact Props.value?_ne_null props "default"
    | dictionary =>
      rw [hdecl] at hparts
      obtain ⟨g, key, value, d, hg, hsome, hkey, hvalue, htag, rfl⟩ := hparts
      obtain rfl := Option.some.inj hsome
      exact hg.wellFormed htag (Props.value?_ne_null props "default")
        ⟨loadMember_label hR hkey, memberOr_label hR hvalue⟩
    | object =>
      rw [hdecl] at hparts
      obtain ⟨g, fields, d, hg, hsome, hfields, htag, rfl⟩ := hparts
      obtain rfl := Option.some.inj hsome
      exact hg.wellFormed htag (Props.value?_ne_null props "default")
        (loadProperties_labelled hR hd hfields _)
  | _ => simp [load] at h

/-! ## Every node of a section -/

/-- **Loaded nodes are well formed**, at every depth and through references. -/
theorem loadIn_wellFormed (hd : document.distinct = true) (hv : v.distinct = true)
    (h : (loadIn document name v).result = .ok (some n)) : n.Everywhere Node.WellFormed :=
  load_everywhere hd
    (fun _ _ _ _ _ hv h hn => wellFormed_of_load (resolver_refers document _ _) hv h hn)
    (fun _ _ _ _ _ _ _ _ hx hsite hm => hm.atSite hsite hx) _ [] name v n hv h

/-- **Loaded nodes are well formed at every depth.** Each node of a section was loaded from the entry
under its label, and no two have one label. Each node in them, through references too, has a tag that
fits its kind, no constraints, no mark of a hoisted type, the name that it is called by unless it is
a reference, no `null` for a default, and members that are called after their positions: `items`,
`keys` and `values`, or the distinct names of the fields, which agree with their types. -/
theorem loadSection_wellFormed (hd : document.distinct = true) {nodes : List Node}
    (h : (loadSection document name).result = .ok nodes) :
    (nodes.map Node.label).Nodup ∧ ∀ n ∈ nodes,
      (∃ v, document.at? [name, n.label] = some v ∧
        (loadIn document n.label v).result = .ok (some n)) ∧
      ∀ path m, n.at? path = some m → m.WellFormed := by
  refine ⟨loadSection_labels hd h, fun n hn => ?_⟩
  obtain ⟨v, hv, hload⟩ := loadSection_entry hd h hn
  exact ⟨⟨v, hv, hload⟩, loadIn_wellFormed hd (Json.distinct_at _ _ hd hv) hload⟩

end Entry

namespace Sample

/-- A port, a list of literals, and an object with a reference to the one and an array of references
to the other. -/
def cluster : Json := .object [("types", .object [
  ("Port", .object [("type", .string "uint"), ("default", .nat 80)]),
  ("Mode", .object [("type", .string "string"), ("enum", .strings ["fast", "safe"]),
    ("default", .null)]),
  ("Server", .object [("type", .string "object"), ("properties", .object [
    ("port", .object [("$ref", .string "#/types/Port"), ("default", .null),
      ("use", .string "required")]),
    ("modes", .object [("type", .string "array"), ("$ref", .string "#/types/Mode")])])])])]

/-- What the port loads as. -/
def clusterPort : Node :=
  ⟨Head.fresh "Port" .uint, .leaf (.integer ⟨10, some (.nat 80), none, none⟩)⟩

/-- What the list of literals loads as. -/
def clusterMode : Node :=
  ⟨Head.fresh "Mode" .enum, .leaf (.enum ⟨.string, ["fast", "safe"], none⟩)⟩

/-- What the object loads as: the `null` of the site leaves the default of the port alone. -/
def clusterServer : Node := ⟨Head.fresh "Server" .object, .object [
    ⟨⟨"port", "", true, some (.nat 80)⟩, clusterPort.referenced "port" true⟩,
    ⟨⟨"modes", "", false, none⟩, ⟨Head.fresh "modes" .array,
      .array (clusterMode.referenced "items" false) ⟨"entry", none, none, none⟩⟩⟩] none⟩

end Sample

/-- Three types, with references in a field and in an array. -/
theorem Entry.loadSection_wellFormed_cluster :
    (loadSection Sample.cluster "types").result =
        .ok [Sample.clusterPort, Sample.clusterMode, Sample.clusterServer] ∧
      ∀ path m, Sample.clusterServer.at? path = some m → m.WellFormed := by
  have hdistinct : Sample.cluster.distinct = true := by decide +kernel
  have hload : (loadSection Sample.cluster "types").result.toOption =
      some [Sample.clusterPort, Sample.clusterMode, Sample.clusterServer] := by
    decide +kernel
  have hok := Except.eq_ok_of_toOption hload
  exact ⟨hok, ((loadSection_wellFormed hdistinct hok).2 Sample.clusterServer (by simp)).2⟩

end Schemata
