import Schemata.Proofs.Build.Overrides

/-!
# What the nodes of entries were made of

An entry of a section or of the properties of an object is left out where its value, or what its
references lead to in the end, is no mapping or has neither a `type` nor a `$ref`. `Accounts` says of
the node of an entry which mappings it was made of, and what was recorded meanwhile: each mapping
gives nodes to the entries that are not left out, and one diagnostic to each that is, in the order of
the entries. A mapping that several references lead to is there once for each of them.

Results:
* `Ends.unique`: the references of an entry lead to one end.
* `AccountsAll.keys`: the nodes of a mapping stand under the keys that are not left out.
* `Accounts.unique`: what was recorded is determined by the document.
* `Accounts.at?`: every node of a tree is accounted for by the entry at its place.
* `Accounts.atSite`: what a site makes of a node is accounted for as the node is.
-/

namespace Schemata

/-! ## Entries -/

namespace Json

/-- The entries of the mapping under a key; none if there is no mapping. -/
def entriesUnder (key : String) (v : Json) : List (String × Json) :=
  ((v.get? key).bind members?).getD []

/-- A value is a reference site: a mapping with a `$ref`, and without a `type` word that declares a
tag. -/
def IsSite (v : Json) : Prop :=
  ∃ site : Props, v = .object site ∧ site.tag? = none ∧ (site.lookup "$ref").isSome = true

/-- A value is no mapping, or has neither a `type` nor a `$ref`. -/
def DeclaresNothing (v : Json) : Prop :=
  v.members? = none ∨ v.get? "type" = none ∧ v.get? "$ref" = none

end Json

/-- The references of an entry lead to another entry that is no reference site; an entry that is none
itself is its own end. -/
inductive Ends (document : Json) : String × Json → String × Json → Prop
  /-- The entry is no reference site. -/
  | here {e : String × Json} (h : ¬ e.2.IsSite) : Ends document e e
  /-- The entry is a reference site, and its target leads to the end. -/
  | there {key reference : String} {site : Props} {next last : String × Json}
    (htag : site.tag? = none) (href : site.lookup "$ref" = some (.string reference))
    (htarget : Pointer.resolve document reference = .ok next) (hnext : Ends document next last) :
    Ends document (key, .object site) last

/-- An entry is left out: it leads to an end that declares nothing. -/
def LeftOut (document : Json) (e : String × Json) : Prop :=
  ∃ last, Ends document e last ∧ last.2.DeclaresNothing

open Classical in
/-- The keys of some entries that are not left out, in their order. -/
noncomputable def keptKeys (document : Json) (entries : List (String × Json)) : List String :=
  (entries.filter fun e => ¬ LeftOut document e).map Prod.fst

/-- The entry of a member under a key of its own, or else of the reference beside the container's
type. -/
def Props.memberEntry (props : Props) (key : String) : String × Json :=
  (key, (props.lookup key).getD (.object props.referenceOnly))

/-! ## Accounts -/

/-- The node of an entry is called as the entry is, and was made from the mapping that the entry
leads to. -/
structure MadeFrom (document : Json) (e : String × Json) (n : Node) (props : Props) : Prop where
  /-- The node is called by the key of the entry. -/
  label_eq : n.label = e.1
  /-- It has the name of the mapping that the entry leads to. -/
  ends : Ends document e (n.name, .object props)

/-- The entry of a node one step down. -/
inductive EntryBelow (document : Json) (e : String × Json) (n : Node) : Step → String × Json → Prop
  /-- The items of an array. -/
  | item {props : Props} (hmade : MadeFrom document e n props) :
    EntryBelow document e n .item (props.memberEntry "items")
  /-- The keys of a dictionary. -/
  | key {props : Props} {v : Json} (hmade : MadeFrom document e n props)
    (hv : props.lookup "keys" = some v) : EntryBelow document e n .key ("keys", v)
  /-- The values of a dictionary. -/
  | value {props : Props} (hmade : MadeFrom document e n props) :
    EntryBelow document e n .value (props.memberEntry "values")
  /-- A field of an object. -/
  | field {props : Props} {fields : List Field} {d : Option Json} {i : Nat} {f : Field} {v : Json}
    (hmade : MadeFrom document e n props) (hkind : n.kind = .object fields d)
    (hf : fields[i]? = some f)
    (hv : (f.name, v) ∈ (Json.object props).entriesUnder "properties") :
    EntryBelow document e n (.field i) (f.name, v)

/-- The entry of the node at the end of a path. -/
inductive EntryAt (document : Json) : String × Json → Node → List Step → String × Json → Prop
  /-- The path is empty. -/
  | here {e : String × Json} {n : Node} : EntryAt document e n [] e
  /-- The path goes on from the node one step down. -/
  | down {e below last : String × Json} {n c : Node} {step : Step} {path : List Step}
    (hbelow : EntryBelow document e n step below) (hc : n.child? step = some c)
    (hrest : EntryAt document below c path last) : EntryAt document e n (step :: path) last

mutual
/-- The mappings that the node of an entry was made of give some diagnostics. -/
inductive Accounts (document : Json) : String × Json → Node → Diagnostics → Prop
  /-- The mapping that the entry leads to gives them. -/
  | node {e : String × Json} {n : Node} {props : Props} {ds : Diagnostics}
    (hmade : MadeFrom document e n props) (hkind : AccountsKind document n.name props n.kind ds) :
    Accounts document e n ds
/-- A mapping gives the kind of a node with some name, and some diagnostics. -/
inductive AccountsKind (document : Json) : String → Props → Kind → Diagnostics → Prop
  /-- A scalar records nothing. -/
  | leaf {name : String} {props : Props} {tag : Tag} {spec : Leaf}
    (htag : props.tag? = some tag) (hscalar : Entry.IsScalar tag) :
    AccountsKind document name props (.leaf spec) []
  /-- An array records what its items do. -/
  | array {name : String} {props : Props} {item : Node} {spec : ArraySpec} {ds : Diagnostics}
    (htag : props.tag? = some .array)
    (hitem : Accounts document (props.memberEntry "items") item ds) :
    AccountsKind document name props (.array item spec) ds
  /-- A dictionary records what its keys and its values do. -/
  | dictionary {name : String} {props : Props} {v : Json} {key value : Node} {d : Option Json}
    {ds es : Diagnostics} (htag : props.tag? = some .dict) (hv : props.lookup "keys" = some v)
    (hkey : Accounts document ("keys", v) key ds)
    (hvalue : Accounts document (props.memberEntry "values") value es) :
    AccountsKind document name props (.dictionary key value d) (ds ++ es)
  /-- An object records what its properties do. -/
  | object {name : String} {props : Props} {fields : List Field} {d : Option Json}
    {ds : Diagnostics} (htag : props.tag? = some .object)
    (hfields : AccountsAll document s!"properties of {name}"
      ((Json.object props).entriesUnder "properties") (fields.map fun f => (f.name, f.type)) ds) :
    AccountsKind document name props (.object fields d) ds
/-- The entries of a mapping give the nodes under their keys, and some diagnostics. -/
inductive AccountsAll (document : Json) : String → List (String × Json) → List (String × Node) →
    Diagnostics → Prop
  /-- There are no entries. -/
  | nil {place : String} : AccountsAll document place [] [] []
  /-- The first entry is a type: it stands under its key and records what it was made of. -/
  | kept {place k : String} {v : Json} {n : Node} {rest : List (String × Json)}
    {pairs : List (String × Node)} {ds es : Diagnostics} (h : Accounts document (k, v) n ds)
    (hrest : AccountsAll document place rest pairs es) :
    AccountsAll document place ((k, v) :: rest) ((k, n) :: pairs) (ds ++ es)
  /-- The first entry is left out, which is recorded once. -/
  | leftOut {place k : String} {v : Json} {rest : List (String × Json)}
    {pairs : List (String × Node)} {es : Diagnostics} (h : LeftOut document (k, v))
    (hrest : AccountsAll document place rest pairs es) :
    AccountsAll document place ((k, v) :: rest) pairs (.ignored place k :: es)
end

section
variable {document : Json} {e last last' : String × Json} {n m : Node} {ds : Diagnostics}
  {place : String} {entries : List (String × Json)} {pairs : List (String × Node)}

/-! ### Ends -/

theorem Json.isSite_of_lookup {site : Props} {v : Json} (htag : site.tag? = none)
    (href : site.lookup "$ref" = some v) : (Json.object site).IsSite :=
  ⟨site, rfl, htag, by rw [href]; rfl⟩

theorem Json.IsSite.tag?_eq {site : Props} (h : (Json.object site).IsSite) : site.tag? = none := by
  obtain ⟨_, hobject, htag, -⟩ := h
  obtain rfl := Json.object.inj hobject
  exact htag

/-- A mapping with a `type` word that declares a tag is no reference site. -/
theorem Json.not_isSite_of_tag {props : Props} {tag : Tag} (htag : props.tag? = some tag) :
    ¬ (Json.object props).IsSite := fun h =>
  absurd (htag.symm.trans h.tag?_eq) (by simp)

theorem Json.DeclaresNothing.tag?_eq {props : Props} (h : (Json.object props).DeclaresNothing) :
    props.tag? = none := by
  rcases h with hmembers | ⟨htype, -⟩
  · cases hmembers
  · rw [Props.tag?, show props.lookup "type" = none from htype]
    rfl

/-- A value that declares nothing is its own end, so it is left out. -/
theorem Json.DeclaresNothing.leftOut {key : String} {v : Json} (h : v.DeclaresNothing) :
    LeftOut document (key, v) := by
  refine ⟨_, .here fun ⟨site, hobject, _, href⟩ => ?_, h⟩
  obtain rfl : v = .object site := hobject
  rcases h with hmembers | ⟨-, hnone⟩
  · cases hmembers
  · exact absurd href (by simp [show site.lookup "$ref" = none from hnone])

/-- **The references of an entry lead to one end.** -/
theorem Ends.unique (h : Ends document e last) (h' : Ends document e last') : last = last' := by
  induction h with
  | here hnot =>
    cases h' with
    | here _ => rfl
    | there htag href => exact absurd (Json.isSite_of_lookup htag href) hnot
  | there htag href htarget _ ih =>
    cases h' with
    | here hnot => exact absurd (Json.isSite_of_lookup htag href) hnot
    | there _ href' htarget' hnext' =>
      obtain rfl := Json.string.inj (Option.some.inj (href.symm.trans href'))
      obtain rfl := Except.ok.inj (htarget.symm.trans htarget')
      exact ih hnext'

/-- An entry leads to one mapping under one name. -/
theorem MadeFrom.unique {props props' : Props} (h : MadeFrom document e n props)
    (h' : MadeFrom document e m props') : n.name = m.name ∧ props = props' := by
  obtain ⟨hname, hobject⟩ := Prod.mk.inj (h.ends.unique h'.ends)
  exact ⟨hname, Json.object.inj hobject⟩

/-- A mapping that gives a kind has a `type` word that declares a tag. -/
theorem AccountsKind.tag {name : String} {props : Props} {k : Kind}
    (h : AccountsKind document name props k ds) : ∃ tag, props.tag? = some tag := by
  cases h with
  | leaf htag _ => exact ⟨_, htag⟩
  | array htag _ => exact ⟨_, htag⟩
  | dictionary htag _ _ _ => exact ⟨_, htag⟩
  | object htag _ => exact ⟨_, htag⟩

/-- An entry that is accounted for by a node is not left out. -/
theorem Accounts.not_leftOut (h : Accounts document e n ds) : ¬ LeftOut document e := by
  obtain ⟨hmade, hkind⟩ := h
  obtain ⟨tag, htag⟩ := hkind.tag
  rintro ⟨last, hends, hnothing⟩
  obtain rfl := hmade.ends.unique hends
  exact absurd (htag.symm.trans hnothing.tag?_eq) (by simp)

/-! ### What a mapping gives -/

/-- A mapping that declares a scalar declares no other tag. -/
theorem Entry.IsScalar.ne_of_tag {tag composite : Tag} {props : Props} (h : IsScalar tag)
    (htag : props.tag? = some tag)
    (hcomposite : composite = .array ∨ composite = .dict ∨ composite = .object) :
    props.tag? ≠ some composite := fun hother => by
  obtain ⟨-, harray, hdict, hobject⟩ := h
  obtain rfl := Option.some.inj (htag.symm.trans hother)
  rcases hcomposite with rfl | rfl | rfl
  · exact harray rfl
  · exact hdict rfl
  · exact hobject rfl

/-- **The nodes of a mapping stand under the keys that are not left out.** -/
theorem AccountsAll.keys : ∀ {entries : List (String × Json)} {pairs : List (String × Node)}
    {ds : Diagnostics}, AccountsAll document place entries pairs ds →
      pairs.map Prod.fst = keptKeys document entries
  | _, _, _, .nil => rfl
  | _, _, _, .kept h hrest => by
    rw [keptKeys, List.filter_cons_of_pos (by simpa using h.not_leftOut), List.map_cons,
      List.map_cons]
    exact congrArg _ hrest.keys
  | _, _, _, .leftOut h hrest => by
    rw [keptKeys, List.filter_cons_of_neg (by simpa using h)]
    exact hrest.keys

mutual
/-- **What was recorded is determined by the document.** -/
theorem Accounts.unique : ∀ {e : String × Json} {n m : Node} {ds es : Diagnostics},
    Accounts document e n ds → Accounts document e m es → ds = es
  | _, _, _, _, _, .node hmade hkind, .node hmade' hkind' => by
    obtain ⟨hname, rfl⟩ := hmade.unique hmade'
    exact hkind.unique (hname ▸ hkind')
theorem AccountsKind.unique : ∀ {name : String} {props : Props} {k k' : Kind}
    {ds es : Diagnostics}, AccountsKind document name props k ds →
      AccountsKind document name props k' es → ds = es
  | _, _, _, _, _, _, .leaf htag hscalar, h => by
    cases h with
    | leaf _ _ => rfl
    | _ htag' => exact absurd htag' (hscalar.ne_of_tag htag (by simp))
  | _, _, _, _, _, _, .array htag hitem, h => by
    cases h with
    | array _ hitem' => exact hitem.unique hitem'
    | leaf htag' hscalar => exact absurd htag (hscalar.ne_of_tag htag' (by simp))
    | _ htag' => exact absurd (htag.symm.trans htag') (by simp)
  | _, _, _, _, _, _, .dictionary htag hv hkey hvalue, h => by
    cases h with
    | dictionary _ hv' hkey' hvalue' =>
      obtain rfl := Option.some.inj (hv.symm.trans hv')
      rw [hkey.unique hkey', hvalue.unique hvalue']
    | leaf htag' hscalar => exact absurd htag (hscalar.ne_of_tag htag' (by simp))
    | _ htag' => exact absurd (htag.symm.trans htag') (by simp)
  | _, _, _, _, _, _, .object htag hfields, h => by
    cases h with
    | object _ hfields' => exact hfields.unique hfields'
    | leaf htag' hscalar => exact absurd htag (hscalar.ne_of_tag htag' (by simp))
    | _ htag' => exact absurd (htag.symm.trans htag') (by simp)
theorem AccountsAll.unique : ∀ {place : String} {entries : List (String × Json)}
    {pairs others : List (String × Node)} {ds es : Diagnostics},
    AccountsAll document place entries pairs ds →
      AccountsAll document place entries others es → ds = es
  | _, _, _, _, _, _, .nil, h => by
    cases h
    rfl
  | _, _, _, _, _, _, .kept h hrest, h' => by
    cases h' with
    | kept h' hrest' => rw [h.unique h', hrest.unique hrest']
    | leftOut hout _ => exact absurd hout h.not_leftOut
  | _, _, _, _, _, _, .leftOut h hrest, h' => by
    cases h' with
    | kept h' _ => exact absurd h h'.not_leftOut
    | leftOut _ hrest' => rw [hrest.unique hrest']
end

/-! ### Down a path -/

/-- Each of the nodes is accounted for by an entry of its key, and what it recorded stands in one
piece. -/
theorem AccountsAll.mem {x : String × Node} : ∀ {entries : List (String × Json)}
    {pairs : List (String × Node)} {ds : Diagnostics},
      AccountsAll document place entries pairs ds → x ∈ pairs →
        ∃ v es, (x.1, v) ∈ entries ∧ Accounts document (x.1, v) x.2 es ∧ es <:+: ds
  | _, _, _, .nil, hx => absurd hx List.not_mem_nil
  | _, _, _, .kept h hrest, hx => by
    rcases List.mem_cons.mp hx with rfl | hx
    · exact ⟨_, _, List.mem_cons_self, h, (List.prefix_append _ _).isInfix⟩
    · obtain ⟨v, es, hv, hes, hin⟩ := hrest.mem hx
      exact ⟨v, es, List.mem_cons_of_mem _ hv, hes, hin.trans (List.suffix_append _ _).isInfix⟩
  | _, _, _, .leftOut _ hrest, hx => by
    obtain ⟨v, es, hv, hes, hin⟩ := hrest.mem hx
    exact ⟨v, es, List.mem_cons_of_mem _ hv, hes, hin.trans (List.suffix_cons _ _).isInfix⟩

theorem Accounts.child {step : Step} {c : Node} (h : Accounts document e n ds)
    (hc : n.child? step = some c) :
    ∃ e' es, EntryBelow document e n step e' ∧ Accounts document e' c es ∧ es <:+: ds := by
  obtain ⟨hmade, hkind⟩ := h
  obtain ⟨head, kind⟩ := n
  cases hkind with
  | leaf => cases step <;> cases hc
  | array _ hitem =>
    cases step <;> cases hc
    exact ⟨_, _, .item hmade, hitem, List.infix_refl _⟩
  | dictionary _ hv hkey hvalue =>
    cases step <;> cases hc
    · exact ⟨_, _, .key hmade hv, hkey, (List.prefix_append _ _).isInfix⟩
    · exact ⟨_, _, .value hmade, hvalue, (List.suffix_append _ _).isInfix⟩
  | object _ hfields =>
    cases step <;> try cases hc
    obtain ⟨f, hf, rfl⟩ := Option.map_eq_some_iff.mp hc
    obtain ⟨v, es, hv, hes, hin⟩ :=
      hfields.mem (List.mem_map_of_mem (f := fun f => (f.name, f.type)) (List.mem_of_getElem? hf))
    exact ⟨_, es, .field hmade rfl hf hv, hes, hin⟩

/-- **Every node of a tree is accounted for** by the entry at its place, and what it recorded stands
in one piece. -/
theorem Accounts.at? : ∀ (path : List Step) {e : String × Json} {n : Node} {ds : Diagnostics},
    Accounts document e n ds → n.at? path = some m →
      ∃ e' es, EntryAt document e n path e' ∧ Accounts document e' m es ∧ es <:+: ds
  | [], _, _, _, h, hm => by
    obtain rfl := Option.some.inj hm
    exact ⟨_, _, .here, h, List.infix_refl _⟩
  | step :: path, _, _, _, h, hm => by
    obtain ⟨c, hc, hm⟩ := Option.bind_eq_some_iff.mp hm
    obtain ⟨_, _, hbelow, hchild, hin⟩ := h.child hc
    obtain ⟨e', es, hat, hes, hin'⟩ := hchild.at? path hm
    exact ⟨e', es, .down hbelow hc hat, hes, hin'.trans hin⟩

end

/-! ## Sites -/

section
variable {document : Json} {name key reference : String} {site props : Props} {target : Json}
  {k k' : Kind} {m c : Node} {ds : Diagnostics}

/-- Overrides do not touch what a kind was made of. -/
theorem AccountsKind.override {label : String} (h : AccountsKind document name props k ds)
    (hk : k.override label site = .ok k') : AccountsKind document name props k' ds := by
  obtain rfl := Kind.override_self hk
  cases h with
  | leaf htag hscalar => exact .leaf htag hscalar
  | array htag hitem => exact .array htag hitem
  | dictionary htag hv hkey hvalue => exact .dictionary htag hv hkey hvalue
  | object htag hfields => exact .object htag hfields

/-- **What a site makes of a node is accounted for as the node is.** -/
theorem Accounts.atSite (h : Accounts document (key, target) m ds) (htag : site.tag? = none)
    (href : site.lookup "$ref" = some (.string reference))
    (htarget : Pointer.resolve document reference = .ok (key, target))
    (hc : m.atSite name site = .ok c) : Accounts document (name, .object site) c ds := by
  obtain ⟨hmade, hkind⟩ := h
  obtain ⟨-, hname, hlabel, hoverride, -⟩ := Entry.atSite_eq_ok hc
  refine .node ⟨hlabel, ?_⟩ (hname ▸ hkind.override hoverride)
  exact hname ▸ .there htag href htarget hmade.ends

/-- The flag of a site does not touch what a node was made of. -/
theorem Accounts.withFlag {e : String × Json} {n : Node} (h : Accounts document e m ds)
    (hn : Entry.withFlag site (some m) = some n) : Accounts document e n ds := by
  obtain ⟨hmade, hkind⟩ := h
  obtain rfl := Option.some.inj hn
  exact .node ⟨hmade.label_eq, hmade.ends⟩ hkind

theorem LeftOut.atSite (h : LeftOut document (key, target)) (htag : site.tag? = none)
    (href : site.lookup "$ref" = some (.string reference))
    (htarget : Pointer.resolve document reference = .ok (key, target)) :
    LeftOut document (name, .object site) := by
  obtain ⟨last, hends, hnothing⟩ := h
  exact ⟨last, .there htag href htarget hends, hnothing⟩

end

end Schemata
