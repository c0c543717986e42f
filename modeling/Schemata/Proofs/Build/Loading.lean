import Schemata.Build.Entry
import Schemata.Proofs.Json.Distinct

/-!
# What a successful load was made of

Loading is a sequence of steps each of which can fail, so a result tells that every step before it
went well. `Entry.load_inv` says, for each kind of declaration, what the node of an entry was made
of; it is all that later proofs know of how a single entry is loaded.

Results:
* `Loaded.bind_eq_ok`: two steps in a row succeed when the first does, and the second on its value.
* `Entry.load_inv`, `Entry.load_diagnostics`: the parts of a loaded entry, and what it has recorded.
* `Entry.load_cases`: a loaded node was declared at its entry or resolved there.
* `Entry.resolver_inv`: the target behind a resolved reference.
* `Entry.gathered_of_loadFields`, `Entry.gathered_of_loadEntries`: what comes of several entries.
* `Json.references_of_mem`: the references of a member are references of the mapping.
-/

namespace Schemata

/-! ## Steps that succeed -/

theorem Except.ok_bind {ε α β : Type} (a : α) (f : α → Except ε β) : (.ok a >>= f) = f a := rfl

theorem Except.bind_eq_ok {ε α β : Type} {x : Except ε α} {f : α → Except ε β} {b : β} :
    (x >>= f) = .ok b ↔ ∃ a, x = .ok a ∧ f a = .ok b := by
  cases x with
  | error e => simp [bind, Except.bind]
  | ok a => simp [bind, Except.bind]

theorem Except.map_eq_ok {ε α β : Type} {x : Except ε α} {f : α → β} {b : β} :
    x.map f = .ok b ↔ ∃ a, x = .ok a ∧ f a = b := by
  cases x with
  | error e => simp [Except.map]
  | ok a => simp [Except.map]

theorem Except.eq_ok_of_toOption {ε α : Type} {x : Except ε α} {a : α} (h : x.toOption = some a) :
    x = .ok a := by
  cases x with
  | error e => cases h
  | ok b => exact congrArg _ (Option.some.inj h)

namespace Loaded

variable {α β : Type} {x : Loaded α} {f : α → Loaded β} {a a' : α} {b : β}

theorem result_bind : (x >>= f).result = x.result >>= fun a => (f a).result := by
  obtain ⟨r, d⟩ := x
  cases r <;> rfl

theorem bind_eq_ok : (x >>= f).result = .ok b ↔ ∃ a, x.result = .ok a ∧ (f a).result = .ok b := by
  rw [result_bind, Except.bind_eq_ok]

/-- Two steps in a row fail as the first one, or as the second one behind it. -/
theorem bind_eq_error {e : SchemaError} : (x >>= f).result = .error e ↔
    x.result = .error e ∨ ∃ a, x.result = .ok a ∧ (f a).result = .error e := by
  rw [result_bind]
  cases x.result with
  | error e' => simp [bind, Except.bind]
  | ok a => simp [bind, Except.bind]

theorem diagnostics_bind (h : x.result = .ok a) :
    (x >>= f).diagnostics = x.diagnostics ++ (f a).diagnostics := by
  obtain ⟨r, d⟩ := x
  obtain rfl : r = .ok a := h
  rfl

theorem result_pure : (pure a : Loaded α).result = .ok a := rfl

theorem diagnostics_pure : (pure a : Loaded α).diagnostics = [] := rfl

@[simp] theorem pure_eq_ok : (pure a : Loaded α).result = .ok a' ↔ a = a' := by
  simp [pure, value]

@[simp] theorem value_eq_ok : (value a : Loaded α).result = .ok a' ↔ a = a' := by
  simp [value]

@[simp] theorem fail_eq_ok {e : SchemaError} : (fail e : Loaded α).result = .ok a ↔ False := by
  simp [fail]

theorem lift_ok_bind (a : α) (f : α → Loaded β) : (lift (.ok a) >>= f) = f a := rfl

@[simp] theorem result_lift {r : Except SchemaError α} : (lift r).result = r := rfl

end Loaded

/-! ## References of members -/

namespace Json

/-- The references of a mapping: those of each member, and a text under the reference key. -/
theorem mem_referencesUnder_cons {s k : String} {v : Json} {rest : List (String × Json)} :
    s ∈ referencesUnder ((k, v) :: rest) ↔
      k = "$ref" ∧ v = .string s ∨ s ∈ v.references ∨ s ∈ referencesUnder rest := by
  by_cases href : ∃ t, k = "$ref" ∧ v = .string t
  · obtain ⟨t, rfl, rfl⟩ := href
    rw [referencesUnder, List.mem_append, List.mem_append, or_assoc]
    simp [eq_comm]
  · have hnot : ∀ t, k = "$ref" → v = .string t → False := fun t hk hv => href ⟨t, hk, hv⟩
    rw [referencesUnder, List.mem_append, List.mem_append, or_assoc]
    · exact or_congr_left (iff_of_false List.not_mem_nil fun ⟨hk, hv⟩ => hnot s hk hv)
    · exact hnot

theorem references_of_mem {k : String} {v : Json} {members : List (String × Json)}
    (h : (k, v) ∈ members) : v.references ⊆ referencesUnder members := by
  induction members with
  | nil => exact absurd h List.not_mem_nil
  | cons m rest ih =>
    intro s hs
    rw [mem_referencesUnder_cons]
    rcases List.mem_cons.mp h with rfl | h
    · exact Or.inr (Or.inl hs)
    · exact Or.inr (Or.inr (ih h hs))

theorem reference_of_mem {s : String} {members : List (String × Json)}
    (h : ("$ref", .string s) ∈ members) : s ∈ referencesUnder members := by
  induction members with
  | nil => exact absurd h List.not_mem_nil
  | cons m rest ih =>
    rw [mem_referencesUnder_cons]
    rcases List.mem_cons.mp h with rfl | h
    · exact Or.inl ⟨rfl, rfl⟩
    · exact Or.inr (Or.inr (ih h))

theorem references_of_get? {document v : Json} {key : String} (h : document.get? key = some v) :
    v.references ⊆ document.references := by
  cases document with
  | object members => exact references_of_mem (mem_of_lookup h)
  | _ => cases h

end Json

/-! ## One entry -/

namespace Entry

variable {resolve : Resolver} {name : String} {props : Props}

/-- A head that the declaration of an entry makes. -/
structure Declared (name : String) (h : Head) : Prop where
  /-- The node is no reference. -/
  not_ref : h.isRef = false
  /-- The node is named after its entry. -/
  name_eq : h.name = name
  /-- So is the place where it stands. -/
  label_eq : h.label = name
  /-- It has no constraints yet. -/
  constraints_eq : h.constraints = []
  /-- It has not been hoisted out of another type. -/
  not_nested : h.isNested = false

theorem finish_eq_ok {tag : Tag} {k : Kind} {r : Option Node}
    (h : finish name tag props k = .ok r) :
    ∃ g, Declared name g ∧ g.tag = tag ∧ r = some ⟨g, k⟩ := by
  unfold finish at h
  simp only [Except.bind_eq_ok] at h
  obtain ⟨d, -, xml, -, h⟩ := h
  obtain rfl := Except.ok.inj h
  exact ⟨_, ⟨rfl, rfl, rfl, rfl, rfl⟩, rfl, rfl⟩

theorem arrayOf_eq_ok {item : Option Node} {k : Kind} (h : arrayOf name props item = .ok k) :
    ∃ i s, item = some i ∧ s.default = props.value? "default" ∧ k = .array i s := by
  unfold arrayOf at h
  cases item with
  | none => exact absurd h (by simp)
  | some i =>
    simp only [Except.bind_eq_ok] at h
    obtain ⟨itemName, -, min, -, max, -, h⟩ := h
    obtain rfl := Except.ok.inj h
    exact ⟨i, _, rfl, rfl, rfl⟩

/-- What the result of loading an entry with the given members was made of. -/
def Parts (resolve : Resolver) (name : String) (props : Props) (r : Option Node) :
    Declaration → Prop
  | .nothing => r = none
  | .reference => ∃ node, (resolve name props).result = .ok node ∧ r = withFlag props node
  | .unrecognized _ => False
  | .leaf tag spec => ∃ g leaf, Declared name g ∧ r = some ⟨g, .leaf leaf⟩ ∧
      g.tag = tag ∧ spec = .ok leaf
  | .array => ∃ g item s, Declared name g ∧ r = some ⟨g, .array item s⟩ ∧
      (memberOr resolve props "items" (loadMember resolve "items" props)).result = .ok (some item) ∧
      g.tag = .array ∧ s.default = props.value? "default"
  | .dictionary => ∃ g key value d, Declared name g ∧ r = some ⟨g, .dictionary key value d⟩ ∧
      (loadMember resolve "keys" props).result = .ok (some key) ∧
      (memberOr resolve props "values" (loadMember resolve "values" props)).result =
        .ok (some value) ∧
      g.tag = .dict ∧ d = props.value? "default"
  | .object => ∃ g fields d, Declared name g ∧ r = some ⟨g, .object fields d⟩ ∧
      (loadProperties resolve name (Props.requiredNames props) props).result = .ok fields ∧
      g.tag = .object ∧ d = props.value? "default"

/-- **The parts of a loaded entry.** -/
theorem load_inv {r : Option Node} (h : (load resolve name (.object props)).result = .ok r) :
    Parts resolve name props r (declaration name props) := by
  rw [load] at h
  cases hd : declaration name props with
  | nothing =>
    simp only [hd, Loaded.value_eq_ok] at h
    exact h.symm
  | reference =>
    simp only [hd, Loaded.bind_eq_ok, Loaded.pure_eq_ok] at h
    obtain ⟨node, hnode, rfl⟩ := h
    exact ⟨node, hnode, rfl⟩
  | unrecognized found => simp [hd] at h
  | leaf tag spec =>
    simp only [hd, Loaded.bind_eq_ok, Loaded.result_lift] at h
    obtain ⟨s, hs, h⟩ := h
    obtain ⟨g, hg, htag, rfl⟩ := finish_eq_ok h
    exact ⟨g, s, hg, rfl, htag, hs⟩
  | array =>
    simp only [hd, Loaded.bind_eq_ok, Loaded.result_lift] at h
    obtain ⟨item, hitem, k, hk, h⟩ := h
    obtain ⟨i, s, rfl, hdefault, rfl⟩ := arrayOf_eq_ok hk
    obtain ⟨g, hg, htag, rfl⟩ := finish_eq_ok h
    exact ⟨g, i, s, hg, rfl, hitem, htag, hdefault⟩
  | dictionary =>
    simp only [hd, Loaded.bind_eq_ok] at h
    obtain ⟨key, hkey, h⟩ := h
    cases key with
    | none => simp at h
    | some key =>
      simp only [Loaded.bind_eq_ok] at h
      obtain ⟨value, hvalue, h⟩ := h
      cases value with
      | none => simp at h
      | some value =>
        simp only [Loaded.result_lift] at h
        obtain ⟨g, hg, htag, rfl⟩ := finish_eq_ok h
        exact ⟨g, key, value, _, hg, rfl, hkey, hvalue, htag, rfl⟩
  | object =>
    simp only [hd, Loaded.bind_eq_ok, Loaded.result_lift] at h
    obtain ⟨fields, hfields, h⟩ := h
    obtain ⟨g, hg, htag, rfl⟩ := finish_eq_ok h
    exact ⟨g, fields, _, hg, rfl, hfields, htag, rfl⟩

/-- What is recorded while an entry with the given members is loaded. -/
def recorded (resolve : Resolver) (name : String) (props : Props) : Declaration → Diagnostics
  | .nothing | .unrecognized _ | .leaf .. => []
  | .reference => (resolve name props).diagnostics
  | .array => (memberOr resolve props "items" (loadMember resolve "items" props)).diagnostics
  | .dictionary => (loadMember resolve "keys" props).diagnostics ++
      (memberOr resolve props "values" (loadMember resolve "values" props)).diagnostics
  | .object => (loadProperties resolve name (Props.requiredNames props) props).diagnostics

/-- **What a loaded entry has recorded** is what its members have. -/
theorem load_diagnostics {r : Option Node}
    (h : (load resolve name (.object props)).result = .ok r) :
    (load resolve name (.object props)).diagnostics =
      recorded resolve name props (declaration name props) := by
  rw [load] at h ⊢
  cases hd : declaration name props with
  | nothing => rfl
  | unrecognized found => rfl
  | reference =>
    simp only [hd] at h ⊢
    obtain ⟨node, hnode, -⟩ := Loaded.bind_eq_ok.mp h
    rw [Loaded.diagnostics_bind hnode, Loaded.diagnostics_pure, List.append_nil, recorded]
  | leaf tag spec =>
    simp only [hd] at h ⊢
    obtain ⟨s, hs, -⟩ := Loaded.bind_eq_ok.mp h
    rw [Loaded.diagnostics_bind hs, recorded]
    rfl
  | array =>
    simp only [hd] at h ⊢
    obtain ⟨item, hitem, h⟩ := Loaded.bind_eq_ok.mp h
    obtain ⟨k, hk, -⟩ := Loaded.bind_eq_ok.mp h
    rw [Loaded.diagnostics_bind hitem, Loaded.diagnostics_bind hk, recorded]
    exact List.append_nil _
  | dictionary =>
    simp only [hd] at h ⊢
    obtain ⟨key, hkey, h⟩ := Loaded.bind_eq_ok.mp h
    rw [Loaded.diagnostics_bind hkey, recorded]
    cases key with
    | none => simp at h
    | some key =>
      obtain ⟨value, hvalue, h⟩ := Loaded.bind_eq_ok.mp h
      rw [Loaded.diagnostics_bind hvalue]
      cases value with
      | none => simp at h
      | some value => exact congrArg _ (List.append_nil _)
  | object =>
    simp only [hd] at h ⊢
    obtain ⟨fields, hfields, -⟩ := Loaded.bind_eq_ok.mp h
    rw [Loaded.diagnostics_bind hfields, recorded]
    exact List.append_nil _

/-- A loaded node was declared at its entry, or is what the resolver answers at its site. -/
theorem load_cases {v : Json} {n : Node} (h : (load resolve name v).result = .ok (some n)) :
    Declared name n.head ∨
      ∃ site a, (resolve name site).result = .ok (some a) ∧ withFlag site (some a) = some n := by
  cases v with
  | object props =>
    have hparts := load_inv h
    cases hd : declaration name props with
    | nothing => rw [hd] at hparts; cases hparts
    | unrecognized _ => rw [hd] at hparts; cases hparts
    | reference =>
      rw [hd] at hparts
      obtain ⟨node, hnode, hn⟩ := hparts
      cases node with
      | none => cases hn
      | some a => exact Or.inr ⟨props, a, hnode, hn.symm⟩
    | leaf tag spec =>
      rw [hd] at hparts
      obtain ⟨g, spec, hg, hn, -⟩ := hparts
      exact Or.inl (Option.some.inj hn ▸ hg)
    | array =>
      rw [hd] at hparts
      obtain ⟨g, item, s, hg, hn, -⟩ := hparts
      exact Or.inl (Option.some.inj hn ▸ hg)
    | dictionary =>
      rw [hd] at hparts
      obtain ⟨g, key, value, d, hg, hn, -⟩ := hparts
      exact Or.inl (Option.some.inj hn ▸ hg)
    | object =>
      rw [hd] at hparts
      obtain ⟨g, fields, d, hg, hn, -⟩ := hparts
      exact Or.inl (Option.some.inj hn ▸ hg)
  | _ => simp [load] at h

/-! ## Members -/

section
variable {key : String} {v : Json}

theorem loadMember_eq_elim (resolve : Resolver) (key : String) :
    ∀ members : List (String × Json), loadMember resolve key members =
      (members.lookup key).elim (.value none) (load resolve key)
  | [] => by
    rw [loadMember]
    rfl
  | (k, w) :: rest => by
    rw [loadMember, List.lookup_cons]
    by_cases hk : k = key
    · simp [hk]
    · rw [if_neg hk, beq_false_of_ne (Ne.symm hk)]
      exact loadMember_eq_elim resolve key rest

/-- What a mapping of properties loads as. -/
theorem loadProperties_eq (resolve : Resolver) (name : String) (required : List String) :
    ∀ members : List (String × Json), loadProperties resolve name required members =
      match members.lookup "properties" with
      | none | some .null => .value []
      | some (.object entries) => loadFields resolve name required entries
      | some _ => .fail (.malformedType name .propertiesNotMapping)
  | [] => by
    rw [loadProperties]
    rfl
  | (k, w) :: rest => by
    rw [List.lookup_cons]
    by_cases hk : k = "properties"
    · cases w <;> simp [loadProperties, hk]
    · have hrest : loadProperties resolve name required ((k, w) :: rest) =
          loadProperties resolve name required rest := by
        cases w <;> simp [loadProperties, hk]
      rw [hrest, beq_false_of_ne (Ne.symm hk)]
      exact loadProperties_eq resolve name required rest

theorem loadMember_inv {members : List (String × Json)} {n : Node}
    (h : (loadMember resolve key members).result = .ok (some n)) :
    ∃ w, members.lookup key = some w ∧ (load resolve key w).result = .ok (some n) := by
  rw [loadMember_eq_elim] at h
  cases hw : members.lookup key with
  | none => simp [hw] at h
  | some w => exact ⟨w, rfl, by simpa [hw] using h⟩

theorem memberOr_of_lookup (h : List.lookup key props = some v) :
    memberOr resolve props key (loadMember resolve key props) = load resolve key v := by
  have hhas : props.has key = true := by rw [Props.has, h]; rfl
  rw [memberOr, if_pos hhas, loadMember_eq_elim, h]
  rfl

theorem memberOr_of_none (h : List.lookup key props = none) :
    memberOr resolve props key (loadMember resolve key props) =
      if props.has "$ref" then resolve key props.referenceOnly else .value none := by
  have hhas : ¬ props.has key = true := by rw [Props.has, h]; simp
  rw [memberOr, if_neg hhas]

end

/-! ## Sites -/

theorem lookup_referenceOnly (props : Props) :
    props.referenceOnly.lookup "$ref" = List.lookup "$ref" props := by
  unfold Props.referenceOnly
  induction props with
  | nil => rfl
  | cons m rest ih =>
    obtain ⟨k, v⟩ := m
    by_cases hk : k = "$ref"
    · simp [hk]
    · have : ("$ref" == k) = false := by simpa using Ne.symm hk
      simp [hk, List.lookup_cons, this, ih]

/-- The texts under the reference key of an entry are allowed if its references are. -/
theorem allowed_site {props : Props} {allowed : String → Prop}
    (h : ∀ s ∈ (Json.object props).references, allowed s) :
    ∀ s, List.lookup "$ref" props = some (.string s) → allowed s :=
  fun s hs => h s (Json.reference_of_mem (Json.mem_of_lookup hs))

/-! ## One reference -/

/-- What a node at a site was made of. -/
theorem atSite_parts {site : Props} {m c : Node} (h : m.atSite name site = .ok c) :
    ∃ description xml, site.text? name "description" = .ok description ∧
      (if site.has "xml" then site.xml name else .ok m.head.xml) = .ok xml ∧
      m.kind.override name site = .ok c.kind ∧
      c.head = { m.head with
        label := name
        isRef := true
        description := description.getD m.head.description
        xml := xml } := by
  unfold Node.atSite at h
  obtain ⟨description, hdescription, h⟩ := Except.bind_eq_ok.mp h
  cases hxml : site.has "xml" with
  | true =>
    rw [if_pos hxml] at h
    obtain ⟨xml, hread, h⟩ := Except.bind_eq_ok.mp h
    obtain ⟨k, hk, h⟩ := Except.bind_eq_ok.mp h
    obtain rfl := Except.ok.inj h
    exact ⟨description, xml, hdescription, hread, hk, rfl⟩
  | false =>
    rw [if_neg (by simp [hxml])] at h
    obtain ⟨xml, hkept, h⟩ := Except.bind_eq_ok.mp h
    obtain ⟨k, hk, h⟩ := Except.bind_eq_ok.mp h
    obtain rfl := Except.ok.inj h
    exact ⟨description, xml, hdescription, hkept, hk, rfl⟩

/-- What a resolver answers when the target of a reference was loaded. -/
def Sited (name : String) (site : Props) (r : Option Node) : Option Node → Prop
  | none => r = none
  | some m => ∃ c, m.atSite name site = .ok c ∧ r = some c

/-- **The target behind a resolved reference.** Resolving records what loading the target does. -/
theorem resolver_inv {document : Json} {levels : Nat} {resolving : List String} {site : Props}
    {r : Option Node} (h : (resolver document levels resolving name site).result = .ok r) :
    ∃ below reference key target node, levels = below + 1 ∧
      site.lookup "$ref" = some (.string reference) ∧
      Pointer.resolve document reference = .ok (key, target) ∧ reference ∉ resolving ∧
      (load (resolver document below (resolving ++ [reference])) key target).result = .ok node ∧
      Sited name site r node ∧
      (resolver document levels resolving name site).diagnostics =
        (load (resolver document below (resolving ++ [reference])) key target).diagnostics := by
  cases levels with
  | zero => simp [resolver] at h
  | succ below =>
    rw [resolver] at h ⊢
    cases hl : List.lookup "$ref" site with
    | none => simp [hl] at h
    | some v =>
      cases v with
      | string reference =>
        simp only [hl] at h ⊢
        obtain ⟨⟨key, target⟩, hresolve, h⟩ := Loaded.bind_eq_ok.mp h
        rw [Loaded.diagnostics_bind hresolve]
        split at h
        · simp at h
        · rename_i hnot
          obtain ⟨node, hnode, h⟩ := Loaded.bind_eq_ok.mp h
          rw [if_neg hnot, Loaded.diagnostics_bind hnode]
          refine ⟨below, reference, key, target, node, rfl, rfl, hresolve, by simpa using hnot,
            hnode, ?_, ?_⟩
          · cases node with
            | none => exact (Loaded.pure_eq_ok.mp h).symm
            | some m =>
              obtain ⟨c, hc, hsome⟩ := Except.map_eq_ok.mp h
              exact ⟨c, hc, hsome.symm⟩
          · cases node <;> exact List.append_nil _
      | _ => simp [hl] at h

/-! ## Several entries -/

/-- What comes of the entries of a mapping, one after the other: each loads as a node that stands
under its key, or as nothing, which is recorded behind what its own loading recorded. -/
inductive Gathered (load : String → Json → Loaded (Option Node)) (place : String) :
    List (String × Json) → List (String × Node) → Diagnostics → Prop
  /-- There are no entries. -/
  | nil : Gathered load place [] [] []
  /-- The first entry loads as a node. -/
  | kept {k : String} {v : Json} {n : Node} {rest : List (String × Json)}
    {pairs : List (String × Node)} {ds : Diagnostics} (hload : (load k v).result = .ok (some n))
    (hrest : Gathered load place rest pairs ds) :
    Gathered load place ((k, v) :: rest) ((k, n) :: pairs) ((load k v).diagnostics ++ ds)
  /-- The first entry loads as nothing. -/
  | leftOut {k : String} {v : Json} {rest : List (String × Json)} {pairs : List (String × Node)}
    {ds : Diagnostics} (hload : (load k v).result = .ok none)
    (hrest : Gathered load place rest pairs ds) :
    Gathered load place ((k, v) :: rest) pairs
      ((load k v).diagnostics ++ .ignored place k :: ds)

section
variable {load : String → Json → Loaded (Option Node)} {place : String}
  {entries : List (String × Json)} {pairs : List (String × Node)} {ds : Diagnostics}

/-- The keys of the nodes are keys of the entries, in their order. -/
theorem Gathered.keys (h : Gathered load place entries pairs ds) :
    (pairs.map Prod.fst).Sublist (entries.map Prod.fst) := by
  induction h with
  | nil => exact List.Sublist.refl _
  | kept _ _ ih => exact ih.cons_cons _
  | leftOut _ _ ih => exact ih.cons _

/-- Each node was loaded from an entry of its key. -/
theorem Gathered.origin (h : Gathered load place entries pairs ds) :
    ∀ e ∈ pairs, ∃ v, (e.1, v) ∈ entries ∧ (load e.1 v).result = .ok (some e.2) := by
  induction h with
  | nil => exact fun _ he => absurd he List.not_mem_nil
  | kept hload _ ih =>
    refine List.forall_mem_cons.mpr ⟨⟨_, List.mem_cons_self, hload⟩, fun e he => ?_⟩
    obtain ⟨v, hv, hv'⟩ := ih e he
    exact ⟨v, List.mem_cons_of_mem _ hv, hv'⟩
  | leftOut _ _ ih =>
    intro e he
    obtain ⟨v, hv, hv'⟩ := ih e he
    exact ⟨v, List.mem_cons_of_mem _ hv, hv'⟩

/-- Each entry loads, and if it is a node, this is among the nodes. -/
theorem Gathered.outcome (h : Gathered load place entries pairs ds) :
    ∀ e ∈ entries, ∃ r, (load e.1 e.2).result = .ok r ∧ ∀ n, r = some n → (e.1, n) ∈ pairs := by
  induction h with
  | nil => exact fun _ he => absurd he List.not_mem_nil
  | kept hload _ ih =>
    refine List.forall_mem_cons.mpr ⟨⟨_, hload, fun n hn => ?_⟩, fun e he => ?_⟩
    · obtain rfl := Option.some.inj hn
      exact List.mem_cons_self
    · obtain ⟨r, hr, hmem⟩ := ih e he
      exact ⟨r, hr, fun n hn => List.mem_cons_of_mem _ (hmem n hn)⟩
  | leftOut hload _ ih => exact List.forall_mem_cons.mpr ⟨⟨none, hload, by simp⟩, ih⟩

end

/-- The fields of an object are gathered from its entries, and made of the types that these load
as. -/
theorem gathered_of_loadFields {required : List String} : ∀ {entries : List (String × Json)}
    {fields : List Field}, (loadFields resolve name required entries).result = .ok fields →
      Gathered (load resolve) s!"properties of {name}" entries
          (fields.map fun f => (f.name, f.type))
          (loadFields resolve name required entries).diagnostics ∧
        ∀ f ∈ fields, f = fieldOf required f.name f.type
  | [], fields, h => by
    obtain rfl : [] = fields := by simpa [loadFields] using h
    rw [loadFields]
    exact ⟨.nil, by simp⟩
  | (k, v) :: rest, fields, h => by
    rw [loadFields] at h ⊢
    obtain ⟨node, hnode, h⟩ := Loaded.bind_eq_ok.mp h
    rw [Loaded.diagnostics_bind hnode]
    cases node with
    | none =>
      obtain ⟨_, hrecord, h⟩ := Loaded.bind_eq_ok.mp h
      obtain ⟨hrest, hmade⟩ := gathered_of_loadFields h
      rw [Loaded.diagnostics_bind hrecord]
      exact ⟨.leftOut hnode hrest, hmade⟩
    | some type =>
      obtain ⟨others, hothers, h⟩ := Loaded.bind_eq_ok.mp h
      obtain rfl := Loaded.pure_eq_ok.mp h
      obtain ⟨hrest, hmade⟩ := gathered_of_loadFields hothers
      rw [Loaded.diagnostics_bind hothers, Loaded.diagnostics_pure, List.append_nil]
      exact ⟨.kept hnode hrest, List.forall_mem_cons.mpr ⟨rfl, hmade⟩⟩

/-- The nodes of a section are gathered from its entries. -/
theorem gathered_of_loadEntries {document : Json} : ∀ {entries : List (String × Json)}
    {nodes : List Node}, (loadEntries document name entries).result = .ok nodes →
      ∃ pairs, nodes = pairs.map Prod.snd ∧
        Gathered (loadIn document) name entries pairs (loadEntries document name entries).diagnostics
  | [], nodes, h => by
    obtain rfl : [] = nodes := by simpa [loadEntries] using h
    exact ⟨[], rfl, .nil⟩
  | (k, v) :: rest, nodes, h => by
    rw [loadEntries] at h ⊢
    obtain ⟨node, hnode, h⟩ := Loaded.bind_eq_ok.mp h
    rw [Loaded.diagnostics_bind hnode]
    cases node with
    | none =>
      obtain ⟨_, hrecord, h⟩ := Loaded.bind_eq_ok.mp h
      obtain ⟨pairs, rfl, hrest⟩ := gathered_of_loadEntries h
      rw [Loaded.diagnostics_bind hrecord]
      exact ⟨pairs, rfl, .leftOut hnode hrest⟩
    | some first =>
      obtain ⟨others, hothers, h⟩ := Loaded.bind_eq_ok.mp h
      obtain rfl := Loaded.pure_eq_ok.mp h
      obtain ⟨pairs, rfl, hrest⟩ := gathered_of_loadEntries hothers
      rw [Loaded.diagnostics_bind hothers, Loaded.diagnostics_pure, List.append_nil]
      exact ⟨(k, first) :: pairs, rfl, .kept hnode hrest⟩

end Entry

end Schemata
