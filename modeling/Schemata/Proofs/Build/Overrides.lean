import Schemata.Proofs.Build.Agreement
import Schemata.Proofs.Build.Naming
import Schemata.Proofs.Build.Pointers

/-!
# Overrides along a chain of references

The entry that a reference site refers to may be a reference site itself, and so on, until an entry
with a `type` word defines a node. The sites override the attributes of this node from the last one
to the first, so an attribute has the value that the outermost site sets, and that of the definition
if none does. A site sets an attribute by a value that is not `null`; the metadata also by `null`.

Results:
* `Kind.override_overridden`, `Node.atSite_overridden`: one more site in front of some.
* `Entry.load_chain`: what the first site of a chain loads as.
-/

namespace Schemata

/-- The number, of a number. -/
def Json.number? : Json → Option Number
  | .number n => some n
  | _ => none

/-! ## What sites set -/

namespace Props

/-- The tag that the `type` word of an entry declares. -/
def tag? (props : Props) : Option Tag := ((props.lookup "type").bind Json.string?).bind Tag.ofWord?

/-- What the outermost of some sites sets under a key. -/
def outermost? (sites : List Props) (key : String) : Option Json :=
  sites.findSome? fun site => site.value? key

/-- What the outermost of some sites sets under a key or, at the same site, under a second one. -/
def outermostOr? (sites : List Props) (key fallback : String) : Option Json :=
  sites.findSome? fun site => (site.value? key).or (site.value? fallback)

/-- The metadata at the outermost of some sites that have the key; `null` stands for none. -/
def outermostXml? (sites : List Props) : Option (List (String × Json)) :=
  (sites.find? fun site => site.has "xml").map fun site =>
    ((site.value? "xml").bind Json.members?).getD []

end Props

/-- A leaf kind with the attributes that some sites set, the outermost one first. -/
def Leaf.overridden (sites : List Props) : Leaf → Leaf
  | .integer s => .integer
    ⟨((Props.outermost? sites "base").bind Json.nat?).getD s.base,
      keep (Props.outermost? sites "default") s.default,
      keep ((Props.outermost? sites "min").bind Json.number?) s.min,
      keep ((Props.outermost? sites "max").bind Json.number?) s.max⟩
  | .float s => .float
    ⟨keep (Props.outermost? sites "default") s.default,
      keep ((Props.outermost? sites "min").bind Json.number?) s.min,
      keep ((Props.outermost? sites "max").bind Json.number?) s.max⟩
  | .boolean d => .boolean (match Props.outermost? sites "default" with
      | some v => v.asBool?
      | none => d)
  | .string s => .string
    ⟨keep (Props.outermost? sites "default") s.default,
      keep ((Props.outermost? sites "pattern").bind Json.string?) s.pattern,
      keep ((Props.outermost? sites "min").bind Json.nat?) s.min,
      keep ((Props.outermost? sites "max").bind Json.nat?) s.max⟩
  | .enum s => .enum { s with default := keep (Props.outermost? sites "default") s.default }

/-- A kind with the attributes that some sites set; its members are as they were. -/
def Kind.overridden (sites : List Props) : Kind → Kind
  | .leaf spec => .leaf (spec.overridden sites)
  | .array item s => .array item
    ⟨s.itemName, keep (Props.outermost? sites "default") s.default,
      keep ((Props.outermostOr? sites "minItems" "min").bind Json.nat?) s.minItems,
      keep ((Props.outermostOr? sites "maxItems" "max").bind Json.nat?) s.maxItems⟩
  | .dictionary key value d => .dictionary key value (keep (Props.outermost? sites "default") d)
  | .object fields d => .object fields (keep (Props.outermost? sites "default") d)

theorem Kind.overridden_nil (k : Kind) : k.overridden [] = k := by
  cases k with
  | leaf spec => cases spec <;> rfl
  | array item s => rfl
  | dictionary key value d => rfl
  | object fields d => rfl

/-- A node with the attributes that some sites set. -/
def Node.overridden (sites : List Props) (n : Node) : Node :=
  ⟨{ n.head with
      description :=
        ((Props.outermost? sites "description").bind Json.string?).getD n.head.description
      xml := (Props.outermostXml? sites).getD n.head.xml }, n.kind.overridden sites⟩

theorem Node.overridden_nil (n : Node) : n.overridden [] = n := by
  obtain ⟨h, k⟩ := n
  exact congrArg (Node.mk h) k.overridden_nil

/-- A node as a reference to it is called and flagged. -/
def Node.referenced (name : String) (required : Bool) (n : Node) : Node :=
  ⟨{ n.head with label := name, isRef := true, required := required }, n.kind⟩

/-! ## Readers that succeed -/

/-- What a reader made of a value: nothing of a missing one only. -/
structure ReadAs {α : Type} (read : Json → Option α) (v : Option Json) (r : Option α) : Prop where
  /-- The value was read. -/
  eq : v.bind read = r
  /-- A value that is there can be read. -/
  missing : r = none → v = none

section
variable {α : Type} {read : Json → Option α} {r : Option α} {sites : List Props} {site : Props}

theorem ReadAs.absent : ReadAs read none none := ⟨rfl, fun _ => rfl⟩

theorem ReadAs.present {v : Json} {a : α} (h : read v = some a) : ReadAs read (some v) (some a) :=
  ⟨h, by simp⟩

/-- **One more site in front of some**: what it sets counts, and else what they set. -/
theorem ReadAs.or_findSome? (f : Props → Option Json) (h : ReadAs read (f site) r) :
    r.or ((sites.findSome? f).bind read) = ((site :: sites).findSome? f).bind read := by
  rw [List.findSome?_cons]
  cases hv : f site with
  | none =>
    obtain rfl : r = none := by rw [← h.eq, hv]; rfl
    rfl
  | some v =>
    cases r with
    | none => exact absurd (h.missing rfl) (by simp [hv])
    | some a =>
      have hread : read v = some a := by rw [← h.eq, hv]; rfl
      rw [Option.some_or, Option.bind_some, hread]

theorem ReadAs.getD_outermost {key : String} (h : ReadAs read (site.value? key) r) (old : α) :
    r.getD (((Props.outermost? sites key).bind read).getD old) =
      ((Props.outermost? (site :: sites) key).bind read).getD old := by
  rw [← Option.getD_or]
  exact congrArg (Option.getD · old) (h.or_findSome? fun site => site.value? key)

theorem ReadAs.keep_outermost {key : String} (h : ReadAs read (site.value? key) r)
    (old : Option α) : keep r (keep ((Props.outermost? sites key).bind read) old) =
      keep ((Props.outermost? (site :: sites) key).bind read) old := by
  unfold keep
  rw [← Option.or_assoc]
  exact congrArg (Option.or · old) (h.or_findSome? fun site => site.value? key)

theorem ReadAs.keep_outermostOr {key fallback : String}
    (h : ReadAs read ((site.value? key).or (site.value? fallback)) r) (old : Option α) :
    keep r (keep ((Props.outermostOr? sites key fallback).bind read) old) =
      keep ((Props.outermostOr? (site :: sites) key fallback).bind read) old := by
  unfold keep
  rw [← Option.or_assoc]
  exact congrArg (Option.or · old)
    (h.or_findSome? fun site => (site.value? key).or (site.value? fallback))

/-- The value itself is always read. -/
theorem keep_outermost (key : String) (old : Option Json) :
    keep (site.value? key) (keep (Props.outermost? sites key) old) =
      keep (Props.outermost? (site :: sites) key) old := by
  unfold keep Props.outermost?
  rw [List.findSome?_cons, ← Option.or_assoc]
  cases site.value? key <;> rfl

end

namespace Props

variable {site : Props} {name key fallback : String}

theorem readAs_of_number {r : Option Number} (h : site.number? name key = .ok r) :
    ReadAs Json.number? (site.value? key) r := by
  unfold number? at h
  split at h
  · rename_i hnone
    rw [hnone, ← Except.ok.inj h]
    exact .absent
  · rename_i n hsome
    rw [hsome, ← Except.ok.inj h]
    exact .present rfl
  · cases h

theorem readAs_of_text {r : Option String} (h : site.text? name key = .ok r) :
    ReadAs Json.string? (site.value? key) r := by
  unfold text? at h
  split at h
  · rename_i hnone
    rw [hnone, ← Except.ok.inj h]
    exact .absent
  · rename_i s hsome
    rw [hsome, ← Except.ok.inj h]
    exact .present rfl
  · cases h

theorem readAs_of_count {r : Option Nat} (h : site.count? name key = .ok r) :
    ReadAs Json.nat? (site.value? key) r := by
  unfold count? at h
  split at h
  · rename_i hnone
    rw [hnone, ← Except.ok.inj h]
    exact .absent
  · rename_i v hsome
    split at h
    · rename_i n hn
      rw [hsome, ← Except.ok.inj h]
      exact .present hn
    · cases h

theorem readAs_of_countOr {r : Option Nat} (h : site.countOr? name key fallback = .ok r) :
    ReadAs Json.nat? ((site.value? key).or (site.value? fallback)) r := by
  obtain ⟨first, hfirst, h⟩ := Except.bind_eq_ok.mp h
  have hread := readAs_of_count hfirst
  cases first with
  | some n =>
    obtain rfl := Except.ok.inj h
    obtain ⟨v, hv, hn⟩ := Option.bind_eq_some_iff.mp hread.eq
    rw [hv, Option.some_or]
    exact .present hn
  | none =>
    rw [hread.missing rfl, Option.none_or]
    exact readAs_of_count h

theorem readAs_of_base {r : Option Nat} (h : site.base? name = .ok r) :
    ReadAs Json.nat? (site.value? "base") r := by
  obtain ⟨b, hb, h⟩ := Except.bind_eq_ok.mp h
  cases b with
  | none =>
    obtain rfl := Except.ok.inj h
    exact readAs_of_count hb
  | some b =>
    simp only at h
    split at h
    · obtain rfl := Except.ok.inj h
      exact readAs_of_count hb
    · cases h

theorem members?_of_xml {xml : List (String × Json)} (h : site.xml name = .ok xml) :
    ((site.value? "xml").bind Json.members?).getD [] = xml := by
  unfold Props.xml at h
  split at h
  · rename_i hnone
    rw [hnone, ← Except.ok.inj h]
    rfl
  · rename_i members hsome
    rw [hsome, ← Except.ok.inj h]
    rfl
  · cases h

end Props

/-! ## One more site -/

section
variable {name : String} {site : Props} {sites : List Props}

theorem Leaf.override_overridden {leaf out : Leaf}
    (h : (leaf.overridden sites).override name site = .ok out) :
    out = leaf.overridden (site :: sites) := by
  cases leaf with
  | integer s =>
    simp only [overridden, override, Except.bind_eq_ok] at h
    obtain ⟨base, hbase, min, hmin, max, hmax, h⟩ := h
    obtain rfl := Except.ok.inj h
    rw [overridden, (Props.readAs_of_base hbase).getD_outermost, keep_outermost,
      (Props.readAs_of_number hmin).keep_outermost, (Props.readAs_of_number hmax).keep_outermost]
  | float s =>
    simp only [overridden, override, Except.bind_eq_ok] at h
    obtain ⟨min, hmin, max, hmax, h⟩ := h
    obtain rfl := Except.ok.inj h
    rw [overridden, keep_outermost, (Props.readAs_of_number hmin).keep_outermost,
      (Props.readAs_of_number hmax).keep_outermost]
  | boolean d =>
    obtain rfl := Except.ok.inj h
    simp only [overridden, Props.outermost?, List.findSome?_cons]
    cases site.value? "default" <;> rfl
  | string s =>
    simp only [overridden, override, Except.bind_eq_ok] at h
    obtain ⟨pattern, hpattern, min, hmin, max, hmax, h⟩ := h
    obtain rfl := Except.ok.inj h
    rw [overridden, keep_outermost, (Props.readAs_of_text hpattern).keep_outermost,
      (Props.readAs_of_count hmin).keep_outermost, (Props.readAs_of_count hmax).keep_outermost]
  | enum s =>
    obtain rfl := Except.ok.inj h
    simp only [overridden, keep_outermost]

/-- **A site overrides a kind that some sites have overridden** as one more of them. -/
theorem Kind.override_overridden {k out : Kind}
    (h : (k.overridden sites).override name site = .ok out) :
    out = k.overridden (site :: sites) := by
  cases k with
  | leaf spec =>
    obtain ⟨leaf, hleaf, rfl⟩ := Except.map_eq_ok.mp h
    rw [overridden, Leaf.override_overridden hleaf]
  | array item s =>
    simp only [overridden, override, Except.bind_eq_ok] at h
    obtain ⟨min, hmin, max, hmax, h⟩ := h
    obtain rfl := Except.ok.inj h
    rw [overridden, keep_outermost, (Props.readAs_of_countOr hmin).keep_outermostOr,
      (Props.readAs_of_countOr hmax).keep_outermostOr]
  | dictionary key value d =>
    obtain rfl := Except.ok.inj h
    simp only [overridden, keep_outermost]
  | object fields d =>
    obtain rfl := Except.ok.inj h
    simp only [overridden, keep_outermost]

/-- What one site makes of a kind. -/
theorem Kind.override_self {k out : Kind} (h : k.override name site = .ok out) :
    out = k.overridden [site] := by
  rw [← k.overridden_nil] at h
  exact override_overridden h

theorem outermostXml?_cons (old : List (String × Json)) {xml : List (String × Json)}
    (h : (if site.has "xml" then site.xml name
      else .ok ((Props.outermostXml? sites).getD old)) = .ok xml) :
    (Props.outermostXml? (site :: sites)).getD old = xml := by
  rw [Props.outermostXml?, List.find?_cons]
  cases hxml : site.has "xml" with
  | true =>
    rw [hxml, if_pos rfl] at h
    exact Props.members?_of_xml h
  | false =>
    rw [hxml] at h
    exact Except.ok.inj h

/-- **What a site makes of a node that some sites have overridden**, whatever the node is called and
flagged. -/
theorem Node.atSite_overridden {d c : Node} {label : String} {isRef required : Bool}
    (h : Node.atSite name site ⟨{ (d.overridden sites).head with
      label := label, isRef := isRef, required := required }, (d.overridden sites).kind⟩ = .ok c) :
    Entry.withFlag site (some c) =
      some ((d.overridden (site :: sites)).referenced name site.required) := by
  obtain ⟨description, xml, hdescription, hxml, hkind, hhead⟩ := Entry.atSite_parts h
  obtain ⟨head, kind⟩ := c
  obtain rfl : kind = d.kind.overridden (site :: sites) := Kind.override_overridden hkind
  obtain rfl := hhead
  have hxml := outermostXml?_cons d.head.xml hxml
  simp only [Entry.withFlag, Option.map_some, referenced, overridden, hxml,
    (Props.readAs_of_text hdescription).getD_outermost]

/-- What a site makes of a definition. -/
theorem Node.atSite_self {d c : Node} (h : d.atSite name site = .ok c) :
    Entry.withFlag site (some c) =
      some ((d.overridden [site]).referenced name site.required) := by
  have hself : Node.atSite name site ⟨{ (d.overridden []).head with
      label := d.label, isRef := d.isRef, required := d.head.required },
        (d.overridden []).kind⟩ = .ok c := by
    rw [overridden_nil]
    exact h
  exact atSite_overridden hself

end

namespace Entry

/-! ## Chains of references -/

/-- A target that loads behind some references loads by itself. -/
theorem loadIn_of_load {document v : Json} {levels : Nat} {resolving : List String} {name : String}
    {r : Option Node} (hlevels : levels ≤ Entry.levels document)
    (h : (load (resolver document levels resolving) name v).result = .ok r) :
    (loadIn document name v).result = .ok r :=
  (load_endsAs hlevels (List.nil_subset _) name v).of_ok h

/-- A chain of reference sites, with the entry that the last one refers to and the key of this
entry. A reference site has no `type` word that declares a tag, and the entry at the end has one. -/
inductive Chain (document : Json) : Props → List Props → String → Props → Prop
  /-- A site that refers to a definition. -/
  | last {site entry : Props} {reference key : String} {tag : Tag} (hsite : site.tag? = none)
      (href : site.lookup "$ref" = some (.string reference))
      (htarget : Pointer.resolve document reference = .ok (key, .object entry))
      (htag : entry.tag? = some tag) : Chain document site [] key entry
  /-- A site that refers to the next site. -/
  | step {site next entry : Props} {inner : List Props} {reference between key : String}
      (hsite : site.tag? = none) (href : site.lookup "$ref" = some (.string reference))
      (htarget : Pointer.resolve document reference = .ok (between, .object next))
      (hnext : Chain document next inner key entry) : Chain document site (next :: inner) key entry

variable {document : Json} {name key : String} {site entry : Props} {inner : List Props}

/-- Tags of scalars. -/
def IsScalar (tag : Tag) : Prop := tag ≠ .enum ∧ tag ≠ .array ∧ tag ≠ .dict ∧ tag ≠ .object

/-- What the members of an entry say that declares something. -/
def Declaration.Reads (name : String) (props : Props) : Declaration → Prop
  | .nothing => props.lookup "type" = none ∧ props.lookup "$ref" = none
  | .reference => props.tag? = none ∧ (props.lookup "$ref").isSome = true
  | .leaf tag spec => ∃ found, props.tag? = some found ∧ IsScalar found ∧
      leafDeclaration name found props = .leaf tag spec
  | .array => props.tag? = some .array
  | .dictionary => props.tag? = some .dict
  | .object => props.tag? = some .object
  | .unrecognized _ => props.tag? = none ∧ props.lookup "$ref" = none

/-- No word declares an enumeration. -/
theorem ofWord?_ne_enum (word : String) : Tag.ofWord? word ≠ some .enum := fun h => by
  have hword := List.find?_some h
  simp [Tag.words] at hword

theorem leafDeclaration_eq_leaf (name : String) (found : Tag) (props : Props) :
    ∃ tag spec, leafDeclaration name found props = .leaf tag spec := by
  unfold leafDeclaration
  split
  · exact ⟨_, _, rfl⟩
  · split <;> exact ⟨_, _, rfl⟩

/-- **The members of an entry say what it declares.** -/
theorem declaration_reads (name : String) (props : Props) :
    (declaration name props).Reads name props := by
  unfold declaration
  cases htype : List.lookup "type" props with
  | none =>
    have htag : props.tag? = none := by rw [Props.tag?, htype]; rfl
    cases href : List.lookup "$ref" props with
    | none => simpa [Props.has, href] using ⟨htype, href⟩
    | some v => simpa [Props.has, href] using ⟨htag, by rw [href]; rfl⟩
  | some word =>
    have htag : props.tag? = word.string?.bind Tag.ofWord? := by rw [Props.tag?, htype]; rfl
    simp only
    split
    · rename_i harray
      exact htag.trans harray
    · rename_i hdict
      exact htag.trans hdict
    · rename_i hobject
      exact htag.trans hobject
    · rename_i found harray hdict hobject hfound
      obtain ⟨tag, spec, hleaf⟩ := leafDeclaration_eq_leaf name found props
      rw [hleaf]
      refine ⟨found, htag.trans hfound, ⟨?_, ?_, ?_, ?_⟩, hleaf⟩
      · rintro rfl
        obtain ⟨text, -, hword⟩ := Option.bind_eq_some_iff.mp hfound
        exact ofWord?_ne_enum text hword
      · rintro rfl
        exact harray rfl
      · rintro rfl
        exact hdict rfl
      · rintro rfl
        exact hobject rfl
    · rename_i hnone
      cases href : List.lookup "$ref" props with
      | none => simpa [Props.has, href] using ⟨htag.trans hnone, href⟩
      | some v => simpa [Props.has, href] using ⟨htag.trans hnone, by rw [href]; rfl⟩

theorem declaration_of_site {v : Json} (htag : site.tag? = none)
    (href : site.lookup "$ref" = some v) : declaration name site = .reference := by
  have hhas : site.has "$ref" = true := by rw [Props.has, href]; rfl
  unfold Props.tag? at htag
  unfold declaration
  cases htype : List.lookup "type" site with
  | none => simp [hhas]
  | some word =>
    rw [htype, Option.bind_some] at htag
    simp [htag, hhas]

/-- A `type` word that declares a tag makes an entry a definition. -/
theorem declaresType_of_tag {tag : Tag} (htag : entry.tag? = some tag) :
    DeclaresType key (.object entry) := by
  refine ⟨entry, rfl, ?_⟩
  have hreads := declaration_reads key entry
  cases hd : declaration key entry with
  | nothing =>
    rw [hd] at hreads
    exact absurd htag (by simp [Props.tag?, hreads.1])
  | reference =>
    rw [hd] at hreads
    exact absurd (htag.symm.trans hreads.1) (by simp)
  | unrecognized word =>
    rw [hd] at hreads
    exact absurd (htag.symm.trans hreads.1) (by simp)
  | _ => trivial

/-- A chain ends at the entry that its last reference leads to, under the last key of the pointer.
-/
theorem Chain.last_reference (h : Chain document site inner key entry) : ∃ last reference keys,
    (site :: inner).getLast? = some last ∧ last.lookup "$ref" = some (.string reference) ∧
      Pointer.keys? reference = some keys ∧ keys.getLast? = some key := by
  induction h with
  | last _ href htarget _ =>
    obtain ⟨keys, hkeys, hlast, -⟩ := Pointer.resolve_eq_ok htarget
    exact ⟨_, _, keys, rfl, href, hkeys, hlast⟩
  | step _ _ _ _ ih =>
    obtain ⟨last, reference, keys, hlast, hrest⟩ := ih
    exact ⟨last, reference, keys, by rw [List.getLast?_cons_cons, hlast], hrest⟩

/-- What a reference site loads as, from the node of its target. -/
theorem load_site {levels : Nat} {resolving : List String} {r : Option Node}
    {reference between : String} {target : Json} (htag : site.tag? = none)
    (href : site.lookup "$ref" = some (.string reference))
    (htarget : Pointer.resolve document reference = .ok (between, target))
    (h : (load (resolver document levels resolving) name (.object site)).result = .ok r) :
    ∃ below node, below < levels ∧
      (load (resolver document below (resolving ++ [reference])) between target).result = .ok node ∧
      ∀ m, node = some m → ∃ c, m.atSite name site = .ok c ∧ r = withFlag site (some c) := by
  have hparts := load_inv h
  rw [declaration_of_site htag href] at hparts
  obtain ⟨answer, hanswer, rfl⟩ := hparts
  obtain ⟨below, reference', key, target', node, hlevels, hl, hresolve, -, hnode, hsited, -⟩ :=
    resolver_inv hanswer
  obtain rfl := Json.string.inj (Option.some.inj (href.symm.trans hl))
  obtain ⟨rfl, rfl⟩ := Prod.mk.inj (Except.ok.inj (htarget.symm.trans hresolve))
  refine ⟨below, node, by omega, hnode, fun m hm => ?_⟩
  subst hm
  obtain ⟨c, hc, rfl⟩ := hsited
  exact ⟨c, hc, rfl⟩

/-- **The definition at the end of a chain, overridden by the sites of the chain**, also when
references are being resolved already. -/
theorem load_of_chain (hchain : Chain document site inner key entry) : ∀ {levels : Nat}
    {resolving : List String} {name : String} {r : Option Node}, levels ≤ Entry.levels document →
      (load (resolver document levels resolving) name (.object site)).result = .ok r →
        ∃ d, (loadIn document key (.object entry)).result = .ok (some d) ∧ d.name = key ∧
          r = some ((d.overridden (site :: inner)).referenced name site.required) := by
  induction hchain with
  | last hsite href htarget htag =>
    intro levels resolving name r hlevels h
    obtain ⟨below, node, hbelow, hnode, hsited⟩ := load_site hsite href htarget h
    obtain ⟨d, rfl, -, hname⟩ := exists_of_declaresType (declaresType_of_tag htag) hnode
    obtain ⟨c, hc, rfl⟩ := hsited d rfl
    exact ⟨d, loadIn_of_load (by omega) hnode, hname, Node.atSite_self hc⟩
  | step hsite href htarget _ ih =>
    intro levels resolving name r hlevels h
    obtain ⟨below, node, hbelow, hnode, hsited⟩ := load_site hsite href htarget h
    obtain ⟨d, hd, hname, rfl⟩ := ih (by omega) hnode
    obtain ⟨c, hc, rfl⟩ := hsited _ rfl
    exact ⟨d, hd, hname, Node.atSite_overridden hc⟩

/-- **Overrides along a chain of references.** Where the first site of a chain loads, it loads as
the definition at the end of the chain with the attributes that the sites set, of each the value of
the outermost site that sets it. The node is called as the first site is, flagged as a reference,
and has this site's own flag; its name is the last key of the last pointer, under which the
definition loads. -/
theorem load_chain {r : Option Node} (hchain : Chain document site inner key entry)
    (h : (loadIn document name (.object site)).result = .ok r) :
    ∃ d, (loadIn document key (.object entry)).result = .ok (some d) ∧
      r = some ((d.overridden (site :: inner)).referenced name site.required) ∧ d.name = key ∧
      ∃ last reference keys, (site :: inner).getLast? = some last ∧
        last.lookup "$ref" = some (.string reference) ∧
        Pointer.keys? reference = some keys ∧ keys.getLast? = some key := by
  obtain ⟨d, hd, hname, hr⟩ := load_of_chain hchain (Nat.le_refl _) h
  exact ⟨d, hd, hr, hname, hchain.last_reference⟩

end Entry

namespace Sample

/-- A port with bounds and a default. -/
def port : Props := [("type", .string "uint"), ("description", .string "any port"),
  ("default", .nat 80), ("min", .nat 1), ("max", .nat 65535), ("xml", .object [("port", .null)])]

/-- A port of a server, with a smaller bound and without metadata. -/
def http : Props := [("$ref", .string "#/types/Port"), ("default", .null), ("max", .nat 1024),
  ("description", .string "server port"), ("xml", .null)]

/-- A port of a web server, with another default. Its `type` word declares no tag. -/
def web : Props := [("type", .string "port"), ("$ref", .string "#/types/Http"),
  ("default", .nat 8080), ("max", .nat 9000), ("use", .string "required")]

/-- A port of a web server with a lower bound. -/
def front : Props := [("$ref", .string "#/types/Web"), ("min", .nat 100), ("max", .null)]

/-- The ports as types. -/
def ports : Json := .object [("types", .object
  [("Port", .object port), ("Http", .object http), ("Web", .object web)])]

/-- What the port with the lower bound loads as: each of its three sites sets something. -/
def frontNode : Node :=
  ⟨⟨"Port", "front", .uint, "server port", true, false, false, [], []⟩,
    .leaf (.integer ⟨10, some (.nat 8080), some (.int 100), some (.int 9000)⟩)⟩

end Sample

/-- Three sites override a port: the lower bound, the default and the upper bound, the description
and the metadata. The flag of the site in the middle does not count. -/
theorem Entry.load_chain_front :
    Chain Sample.ports Sample.front [Sample.web, Sample.http] "Port" Sample.port ∧
    (loadIn Sample.ports "front" (.object Sample.front)).result = .ok (some Sample.frontNode) ∧
    ∃ d, (loadIn Sample.ports "Port" (.object Sample.port)).result = .ok (some d) ∧
      some Sample.frontNode =
        some ((d.overridden [Sample.front, Sample.web, Sample.http]).referenced "front" false) ∧
      d.name = "Port" := by
  have hweb : (Pointer.resolve Sample.ports "#/types/Web").toOption =
      some ("Web", .object Sample.web) := by
    decide +kernel
  have hhttp : (Pointer.resolve Sample.ports "#/types/Http").toOption =
      some ("Http", .object Sample.http) := by
    decide +kernel
  have hport : (Pointer.resolve Sample.ports "#/types/Port").toOption =
      some ("Port", .object Sample.port) := by
    decide +kernel
  have hdefinition : Sample.port.tag? = some .uint := by decide
  have hchain : Chain Sample.ports Sample.front [Sample.web, Sample.http] "Port" Sample.port :=
    .step rfl rfl (Except.eq_ok_of_toOption hweb) <|
      .step (by decide) rfl (Except.eq_ok_of_toOption hhttp) <|
        .last rfl rfl (Except.eq_ok_of_toOption hport) hdefinition
  have hload : (loadIn Sample.ports "front" (.object Sample.front)).result.toOption =
      some (some Sample.frontNode) := by
    decide +kernel
  obtain ⟨d, hd, hnode, hname, -⟩ := load_chain hchain (Except.eq_ok_of_toOption hload)
  exact ⟨hchain, Except.eq_ok_of_toOption hload, d, hd, hnode, hname⟩

end Schemata
