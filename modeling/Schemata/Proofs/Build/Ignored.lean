import Schemata.Proofs.Build.Accounts
import Schemata.Proofs.Build.Places

/-!
# Entries that are left out are recorded

Whether an entry is left out shows only at the end of its references, and travels back to the mapping
that the entry stands in; there it is recorded. So a loaded section has a node or a diagnostic for
each of its entries, and so has each object in it for each of its properties.

Results:
* `Entry.leftOut_of_load`, `Entry.load_accounts`: what loading an entry comes to is accounted for.
* `Entry.resolver_accounted`: so is what a reference resolves to.
* `Entry.loadSection_accounts`: the nodes of a section and what was recorded.
-/

namespace Schemata

/-! ## Loading -/

namespace Entry

variable {document : Json} {resolve : Resolver} {name key : String} {v : Json} {props : Props}
  {n c : Node}

/-- What an entry comes to is accounted for: a node by the mapping that the entry leads to, and
nothing by an end that declares nothing, of which nothing is recorded yet. -/
def Accounted (document : Json) (e : String × Json) : Option Node → Diagnostics → Prop
  | some n, ds => Accounts document e n ds
  | none, ds => LeftOut document e ∧ ds = []

/-- What a resolver makes of reference sites is accounted for. -/
def Resolver.Accounted (document : Json) (resolve : Resolver) : Prop :=
  ∀ (name : String) (site : Props) (r : Option Node), (Json.object site).IsSite →
    (resolve name site).result = .ok r →
      Entry.Accounted document (name, .object site) r (resolve name site).diagnostics

/-- What a site makes of its target is accounted for as the target is. -/
theorem Accounted.atSite {site : Props} {reference : String} {target : Json} {r node : Option Node}
    {ds : Diagnostics} (h : Accounted document (key, target) node ds) (htag : site.tag? = none)
    (href : site.lookup "$ref" = some (.string reference))
    (htarget : Pointer.resolve document reference = .ok (key, target))
    (hsited : Sited name site r node) : Accounted document (name, .object site) r ds := by
  cases node with
  | none =>
    obtain rfl : r = none := hsited
    exact ⟨h.1.atSite htag href htarget, h.2⟩
  | some m =>
    obtain ⟨c, hc, rfl⟩ := hsited
    exact Accounts.atSite h htag href htarget hc

theorem isSite_of_reads (h : Declaration.reference.Reads name props) : (Json.object props).IsSite :=
  ⟨props, rfl, h.1, h.2⟩

/-- **An entry that loads as nothing is left out.** -/
theorem leftOut_of_load (hR : resolve.Accounted document)
    (h : (load resolve name v).result = .ok none) :
    Accounted document (name, v) none (load resolve name v).diagnostics := by
  cases v with
  | object props =>
    have hparts := load_inv h
    have hreads := declaration_reads name props
    rw [load_diagnostics h]
    cases hd : declaration name props with
    | nothing =>
      rw [hd] at hreads
      exact ⟨Json.DeclaresNothing.leftOut (Or.inr hreads), rfl⟩
    | reference =>
      rw [hd] at hparts hreads
      obtain ⟨node, hnode, hnone⟩ := hparts
      obtain rfl : node = none := by simpa [withFlag] using hnone.symm
      exact hR name props none (isSite_of_reads hreads) hnode
    | unrecognized _ => rw [hd] at hparts; cases hparts
    | _ =>
      have hmakes : DeclaresType name (.object props) := ⟨props, rfl, by rw [hd]; trivial⟩
      obtain ⟨_, hsome, -⟩ := exists_of_declaresType hmakes h
      cases hsome
  | _ =>
    rw [load]
    · exact ⟨Json.DeclaresNothing.leftOut (Or.inl rfl), rfl⟩
    · exact fun props hobject => by cases hobject

/-! ### Members -/

theorem tag?_referenceOnly (props : Props) : props.referenceOnly.tag? = none := by
  have hlookup : List.lookup "type" props.referenceOnly = none :=
    List.lookup_eq_none_iff.mpr fun e he => by
      have href := (List.mem_filter.mp he).2
      simp only [decide_eq_true_eq] at href
      simp [href]
  rw [Props.tag?, hlookup]
  rfl

/-- A member is accounted for by its own entry, or by the reference beside the container's type. -/
theorem memberOr_accounts (hR : resolve.Accounted document)
    (hown : ∀ w, (load resolve key w).result = .ok (some c) →
      Accounts document (key, w) c (load resolve key w).diagnostics)
    (h : (memberOr resolve props key (loadMember resolve key props)).result = .ok (some c)) :
    Accounts document (props.memberEntry key) c
      (memberOr resolve props key (loadMember resolve key props)).diagnostics := by
  cases hw : List.lookup key props with
  | some w =>
    rw [memberOr_of_lookup hw] at h ⊢
    rw [Props.memberEntry, hw]
    exact hown w h
  | none =>
    rw [memberOr_of_none hw] at h ⊢
    rw [Props.memberEntry, hw]
    split at h
    · rename_i href
      rw [if_pos href]
      have hsite : (Json.object props.referenceOnly).IsSite :=
        ⟨_, rfl, tag?_referenceOnly props, by rw [lookup_referenceOnly]; exact href⟩
      exact hR key _ (some c) hsite h
    · simp at h

/-- What comes of several entries is accounted for if each of them is. -/
theorem Gathered.accounts {load : String → Json → Loaded (Option Node)} {place : String}
    {entries : List (String × Json)} {pairs : List (String × Node)} {ds : Diagnostics}
    (h : Gathered load place entries pairs ds)
    (hnone : ∀ k v, (load k v).result = .ok none →
      Accounted document (k, v) none (load k v).diagnostics)
    (hsome : ∀ e ∈ pairs, ∀ v, (load e.1 v).result = .ok (some e.2) →
      Accounts document (e.1, v) e.2 (load e.1 v).diagnostics) :
    AccountsAll document place entries pairs ds := by
  induction h with
  | nil => exact .nil
  | kept hload _ ih =>
    obtain ⟨hfirst, hrest⟩ := List.forall_mem_cons.mp hsome
    exact .kept (hfirst _ hload) (ih hrest)
  | leftOut hload _ ih =>
    obtain ⟨hleft, hdiagnostics⟩ := hnone _ _ hload
    rw [hdiagnostics]
    exact .leftOut hleft (ih hsome)

/-- The properties of an object are accounted for if its entries are. -/
theorem loadProperties_accounts (hR : resolve.Accounted document) {required : List String}
    {fields : List Field} (h : (loadProperties resolve name required props).result = .ok fields)
    (hown : ∀ f ∈ fields, ∀ w, (load resolve f.name w).result = .ok (some f.type) →
      Accounts document (f.name, w) f.type (load resolve f.name w).diagnostics) :
    AccountsAll document s!"properties of {name}" ((Json.object props).entriesUnder "properties")
      (fields.map fun f => (f.name, f.type))
      (loadProperties resolve name required props).diagnostics := by
  have hget : (Json.object props).get? "properties" = List.lookup "properties" props := rfl
  rw [loadProperties_eq] at h ⊢
  rw [Json.entriesUnder, hget]
  cases hw : List.lookup "properties" props with
  | none =>
    rw [hw] at h
    obtain rfl := Loaded.value_eq_ok.mp h
    exact .nil
  | some w =>
    rw [hw] at h
    cases w with
    | object entries =>
      exact (gathered_of_loadFields h).1.accounts (fun _ _ => leftOut_of_load hR)
        (List.forall_mem_map.mpr hown)
    | null =>
      obtain rfl := Loaded.value_eq_ok.mp h
      exact .nil
    | _ => simp at h

/-- **A loaded node is accounted for.** -/
theorem load_accounts {resolve : Resolver} (hR : resolve.Accounted document) {name : String}
    {v : Json} {n : Node} (h : (load resolve name v).result = .ok (some n)) :
    Accounts document (name, v) n (load resolve name v).diagnostics := by
  have ih : ∀ c ∈ n.children, ∀ key w, (load resolve key w).result = .ok (some c) →
      Accounts document (key, w) c (load resolve key w).diagnostics :=
    fun c hc _ _ hw => load_accounts hR hw
  cases v with
  | object props =>
    have hparts := load_inv h
    have hreads := declaration_reads name props
    rw [load_diagnostics h]
    -- a declared node was made from its own entry
    have hmade : ∀ {g : Head} {k : Kind} {tag : Tag}, Declared name g → Props.tag? props = some tag →
        MadeFrom document (name, .object props) ⟨g, k⟩ props := fun hg htag =>
      ⟨hg.label_eq, hg.name_eq ▸ .here (Json.not_isSite_of_tag htag)⟩
    cases hd : declaration name props with
    | nothing => rw [hd] at hparts; cases hparts
    | unrecognized _ => rw [hd] at hparts; cases hparts
    | reference =>
      rw [hd] at hparts hreads
      obtain ⟨node, hnode, hn⟩ := hparts
      cases node with
      | none => cases hn
      | some a => exact (hR name props (some a) (isSite_of_reads hreads) hnode).withFlag hn.symm
    | leaf tag spec =>
      rw [hd] at hparts hreads
      obtain ⟨g, leaf, hg, hn, -⟩ := hparts
      obtain rfl := Option.some.inj hn
      obtain ⟨found, htag, hscalar, -⟩ := hreads
      exact .node (hmade hg htag) (.leaf htag hscalar)
    | array =>
      rw [hd] at hparts hreads
      obtain ⟨g, item, s, hg, hn, hitem, -⟩ := hparts
      obtain rfl := Option.some.inj hn
      exact .node (hmade hg hreads)
        (.array hreads (memberOr_accounts hR (ih item List.mem_cons_self "items") hitem))
    | dictionary =>
      rw [hd] at hparts hreads
      obtain ⟨g, key, value, d, hg, hn, hkey, hvalue, -⟩ := hparts
      obtain rfl := Option.some.inj hn
      obtain ⟨w, hw, hload⟩ := loadMember_inv hkey
      have hkeys := ih key List.mem_cons_self "keys" w hload
      have hvalues := ih value (List.mem_cons_of_mem _ List.mem_cons_self) "values"
      refine .node (hmade hg hreads) (.dictionary hreads hw ?_ (memberOr_accounts hR hvalues hvalue))
      rw [loadMember_eq_elim, hw]
      exact hkeys
    | object =>
      rw [hd] at hparts hreads
      obtain ⟨g, fields, d, hg, hn, hfields, -⟩ := hparts
      obtain rfl := Option.some.inj hn
      have hname : (⟨g, .object fields d⟩ : Node).name = name := hg.name_eq
      refine .node (hmade hg hreads) (.object hreads ?_)
      rw [hname]
      exact loadProperties_accounts hR hfields fun f hf => ih f.type (List.mem_map_of_mem hf) f.name
  | _ => simp [load] at h
termination_by n.size
decreasing_by exact Node.size_lt_of_child hc

theorem load_accounted (hR : resolve.Accounted document) {r : Option Node}
    (h : (load resolve name v).result = .ok r) :
    Accounted document (name, v) r (load resolve name v).diagnostics := by
  cases r with
  | none => exact leftOut_of_load hR h
  | some n => exact load_accounts hR h

/-! ### References -/

/-- **What references resolve to is accounted for.** -/
theorem resolver_accounted (document : Json) : ∀ (levels : Nat) (resolving : List String),
    (resolver document levels resolving).Accounted document
  | levels, resolving, name, site, r, hsite, h => by
    obtain ⟨below, reference, key, target, node, rfl, href, htarget, -, hnode, hsited, hrecorded⟩ :=
      resolver_inv h
    have hR := resolver_accounted document below (resolving ++ [reference])
    rw [hrecorded]
    exact (load_accounted hR hnode).atSite hsite.tag?_eq href htarget hsited

/-! ### Sections -/

/-- The nodes of a section are gathered from its entries. -/
theorem gathered_of_loadSection {nodes : List Node}
    (h : (loadSection document name).result = .ok nodes) :
    Gathered (loadIn document) name (document.entriesUnder name)
      (nodes.map fun n => (n.label, n)) (loadSection document name).diagnostics := by
  rw [Json.entriesUnder]
  rw [loadSection] at h ⊢
  cases hget : document.get? name with
  | none =>
    rw [hget] at h
    obtain rfl := Loaded.value_eq_ok.mp h
    exact .nil
  | some v =>
    rw [hget] at h
    cases v with
    | object entries => exact gathered_labels h
    | null =>
      obtain rfl := Loaded.value_eq_ok.mp h
      exact .nil
    | _ => simp at h

/-- **No entry disappears silently.** The nodes of a section are called by the keys of its entries
that are not left out, in their order. So are the fields of every object in them, through references
too, by the keys of the `properties` of the mapping that it was made from. What was recorded is what
the mappings give that the nodes were made of: one diagnostic for each entry that is left out, in the
order of the entries, and each time that the mapping was loaded. -/
theorem loadSection_accounts {nodes : List Node}
    (h : (loadSection document name).result = .ok nodes) :
    nodes.map Node.label = keptKeys document (document.entriesUnder name) ∧
    (∀ n ∈ nodes, ∃ v, (n.label, v) ∈ document.entriesUnder name ∧
      ∀ path m fields d, n.at? path = some m → m.kind = .object fields d →
        ∃ e props ds, EntryAt document (n.label, v) n path e ∧ MadeFrom document e m props ∧
          fields.map Field.name =
            keptKeys document ((Json.object props).entriesUnder "properties") ∧
          AccountsAll document s!"properties of {m.name}"
            ((Json.object props).entriesUnder "properties")
            (fields.map fun f => (f.name, f.type)) ds ∧
          ds <:+: (loadSection document name).diagnostics) ∧
    ∀ ds, AccountsAll document name (document.entriesUnder name)
      (nodes.map fun n => (n.label, n)) ds ↔ ds = (loadSection document name).diagnostics := by
  have hR := resolver_accounted document (levels document) []
  have hall : AccountsAll document name (document.entriesUnder name)
      (nodes.map fun n => (n.label, n)) (loadSection document name).diagnostics :=
    (gathered_of_loadSection h).accounts (fun _ _ => leftOut_of_load hR)
      fun _ _ _ => load_accounts hR
  refine ⟨?_, fun n hn => ?_, fun ds => ⟨fun hds => hds.unique hall, ?_⟩⟩
  · have hkeys := hall.keys
    rwa [List.map_map] at hkeys
  · obtain ⟨v, es, hv, hn, hin⟩ := hall.mem (List.mem_map_of_mem hn)
    refine ⟨v, hv, fun path m fields d hm hkind => ?_⟩
    obtain ⟨e, ds, hat, ⟨hmade, hm⟩, hin'⟩ := hn.at? path hm
    rw [hkind] at hm
    cases hm with
    | object _ hfields =>
      have hkeys := hfields.keys
      rw [List.map_map] at hkeys
      exact ⟨e, _, ds, hat, hmade, hkeys, hfields, hin'.trans hin⟩
  · rintro rfl
    exact hall

end Entry

namespace Sample

/-- An object with an entry that declares nothing, and another one with two references to it. A text
and a chain of references to a bare description are no types either. -/
def stock : Json := .object [("types", .object [
  ("Note", .string "to be done"),
  ("Old", .object [("$ref", .string "#/types/Gone")]),
  ("Gone", .object [("description", .string "no longer used")]),
  ("Part", .object [("type", .string "object"), ("properties", .object [
    ("code", .object [("type", .string "string")]),
    ("hint", .object [("description", .string "see the manual")])])]),
  ("Crate", .object [("type", .string "object"), ("properties", .object [
    ("left", .object [("$ref", .string "#/types/Part")]),
    ("right", .object [("$ref", .string "#/types/Part")])])])])]

/-- What the object loads as. -/
def stockPart : Node := ⟨Head.fresh "Part" .object, .object
  [⟨⟨"code", "", false, none⟩,
    ⟨Head.fresh "code" .string, .leaf (.string ⟨none, none, none, none⟩)⟩⟩] none⟩

/-- What the object with the references loads as. -/
def stockCrate : Node := ⟨Head.fresh "Crate" .object, .object
  [⟨⟨"left", "", false, none⟩, stockPart.referenced "left" false⟩,
    ⟨⟨"right", "", false, none⟩, stockPart.referenced "right" false⟩] none⟩

/-- What is recorded: the hint once for the object, and once for each reference to it. -/
def stockNotes : Diagnostics := [.ignored "types" "Note", .ignored "types" "Old",
  .ignored "types" "Gone", .ignored "properties of Part" "hint",
  .ignored "properties of Part" "hint", .ignored "properties of Part" "hint"]

end Sample

/-- Two entries of a section are kept and three are left out. -/
theorem Entry.loadSection_accounts_stock :
    (loadSection Sample.stock "types").result = .ok [Sample.stockPart, Sample.stockCrate] ∧
    keptKeys Sample.stock (Sample.stock.entriesUnder "types") = ["Part", "Crate"] ∧
    AccountsAll Sample.stock "types" (Sample.stock.entriesUnder "types")
      [("Part", Sample.stockPart), ("Crate", Sample.stockCrate)] Sample.stockNotes := by
  have hload : (loadSection Sample.stock "types").result.toOption =
      some [Sample.stockPart, Sample.stockCrate] := by
    decide +kernel
  have hnotes : Sample.stockNotes = (loadSection Sample.stock "types").diagnostics := by
    decide +kernel
  have hok := Except.eq_ok_of_toOption hload
  obtain ⟨hkeys, -, hrecorded⟩ := loadSection_accounts hok
  exact ⟨hok, hkeys.symm, (hrecorded Sample.stockNotes).mpr hnotes⟩

end Schemata
