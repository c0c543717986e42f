import Schemata.Proofs.Build.Loading
import Schemata.Proofs.Extract.Plain
import Schemata.Proofs.Extract.References

/-!
# Loaded nodes are named after their places

A loaded node is named after its entry, and so are the nodes below it, down to the references. A
reference has the name of what it was resolved to, and what a resolver answers is all that is known
of it: `Resolver.Answers` says that all answers to the references of a document are references whose
names and kinds are known to go together.

Results:
* `load_built`: what is loaded is named after its place, and its references are what the resolver
  answers.
* `resolver_answers`: a resolver answers references, each with the name at which a target declares a
  type and the kind of that type, up to overrides.
* `loadSection_built`, `declaring?_of_loadSection`: what the nodes of a section are.
-/

namespace Schemata

namespace Entry

/-- A resolver answers references with known names and kinds to sites with allowed references. -/
def Resolver.Answers (allowed : String → Prop) (known : String → Kind → Prop)
    (resolve : Resolver) : Prop :=
  ∀ (name : String) (site : Props) (n : Node),
    (∀ s, site.lookup "$ref" = some (.string s) → allowed s) →
      (resolve name site).result = .ok (some n) → n.isRef = true ∧ known n.name n.kind

/-- A node is named after its place, and its references have known names and kinds. -/
def Built (known : String → Kind → Prop) (name : String) (n : Node) : Prop :=
  n.NamedAs name ∧ ∀ r ∈ n.refs, known r.name r.kind

/-- A tree below a node is named after its places, and its references have known names and kinds. -/
def BuiltKind (known : String → Kind → Prop) (k : Kind) : Prop :=
  k.Plain ∧ ∀ r ∈ k.refs, known r.name r.kind

section
variable {allowed : String → Prop} {known : String → Kind → Prop} {resolve : Resolver}

theorem built_of_isRef {name : String} {n : Node} (h : n.isRef = true) (hn : known n.name n.kind) :
    Built known name n := by
  refine ⟨?_, by simpa [Node.refs_of_isRef h] using hn⟩
  obtain ⟨_, _⟩ := n
  exact Or.inl h

theorem Declared.built {name : String} {g : Head} {k : Kind} (hg : Declared name g)
    (hk : BuiltKind known k) : Built known name ⟨g, k⟩ := by
  refine ⟨Or.inr ⟨hg.name_eq, hk.1⟩, ?_⟩
  rw [Node.refs_of_not_ref (n := ⟨g, k⟩) hg.not_ref]
  exact hk.2

theorem memberOr_built (hR : resolve.Answers allowed known) {props : Props} {key : String}
    {member : Loaded (Option Node)} {n : Node}
    (hsite : ∀ s, List.lookup "$ref" props = some (.string s) → allowed s)
    (hmember : member.result = .ok (some n) → Built known key n)
    (h : (memberOr resolve props key member).result = .ok (some n)) : Built known key n := by
  unfold memberOr at h
  split at h
  · exact hmember h
  · split at h
    · obtain ⟨href, hname⟩ := hR key props.referenceOnly n (by rwa [lookup_referenceOnly]) h
      exact built_of_isRef href hname
    · simp at h

mutual
/-- **What is loaded is named after its place**, and its references are what the resolver answers. -/
theorem load_built (hR : resolve.Answers allowed known) (name : String) :
    ∀ v : Json, (∀ s ∈ v.references, allowed s) → ∀ n : Node,
      (load resolve name v).result = .ok (some n) → Built known name n
  | .object props, hv, n, h => by
    have hparts := load_inv h
    have hsite := allowed_site hv
    cases hd : declaration name props with
    | nothing => rw [hd] at hparts; cases hparts
    | unrecognized _ => rw [hd] at hparts; cases hparts
    | reference =>
      rw [hd] at hparts
      obtain ⟨node, hnode, hn⟩ := hparts
      cases node with
      | none => cases hn
      | some m =>
        obtain ⟨href, hname⟩ := hR name props m hsite hnode
        obtain rfl := Option.some.inj hn
        exact built_of_isRef href hname
    | leaf tag spec =>
      rw [hd] at hparts
      obtain ⟨g, spec, hg, hn, -⟩ := hparts
      obtain rfl := Option.some.inj hn
      exact hg.built ⟨trivial, by simp [Kind.refs]⟩
    | array =>
      rw [hd] at hparts
      obtain ⟨g, item, s, hg, hn, hitem, -⟩ := hparts
      obtain rfl := Option.some.inj hn
      exact hg.built (memberOr_built hR hsite (loadMember_built hR "items" props hv item) hitem)
    | dictionary =>
      rw [hd] at hparts
      obtain ⟨g, key, value, d, hg, hn, hkey, hvalue, -⟩ := hparts
      obtain rfl := Option.some.inj hn
      obtain ⟨hkey, hkeyRefs⟩ := loadMember_built hR "keys" props hv key hkey
      obtain ⟨hvalue, hvalueRefs⟩ :=
        memberOr_built hR hsite (loadMember_built hR "values" props hv value) hvalue
      exact hg.built ⟨⟨hkey, hvalue⟩, List.forall_mem_append.mpr ⟨hkeyRefs, hvalueRefs⟩⟩
    | object =>
      rw [hd] at hparts
      obtain ⟨g, fields, d, hg, hn, hfields, -⟩ := hparts
      obtain rfl := Option.some.inj hn
      exact hg.built (loadProperties_built hR name _ props hv fields hfields)
  | .null, _, _, h => by simp [load] at h
  | .bool _, _, _, h => by simp [load] at h
  | .number _, _, _, h => by simp [load] at h
  | .string _, _, _, h => by simp [load] at h
  | .array _, _, _, h => by simp [load] at h
theorem loadMember_built (hR : resolve.Answers allowed known) (key : String) :
    ∀ members : List (String × Json), (∀ s ∈ Json.referencesUnder members, allowed s) →
      ∀ n : Node, (loadMember resolve key members).result = .ok (some n) → Built known key n
  | [], _, _, h => by simp [loadMember] at h
  | (k, v) :: rest, hv, n, h => by
    rw [loadMember] at h
    split at h
    · exact load_built hR key v
        (fun s hs => hv s (Json.references_of_mem List.mem_cons_self hs)) n h
    · exact loadMember_built hR key rest
        (fun s hs => hv s (Json.mem_referencesUnder_cons.mpr (Or.inr (Or.inr hs)))) n h
theorem loadProperties_built (hR : resolve.Answers allowed known) (name : String)
    (required : List String) :
    ∀ members : List (String × Json), (∀ s ∈ Json.referencesUnder members, allowed s) →
      ∀ fields : List Field, (loadProperties resolve name required members).result = .ok fields →
        Field.AllPlain fields ∧ ∀ r ∈ Field.allRefs fields, known r.name r.kind
  | [], _, fields, h => by
    obtain rfl : [] = fields := by simpa [loadProperties] using h
    exact ⟨trivial, by simp [Field.allRefs]⟩
  | (k, .object entries) :: rest, hv, fields, h => by
    rw [loadProperties] at h
    split at h
    · exact loadFields_built hR name required entries
        (fun s hs => hv s (Json.references_of_mem List.mem_cons_self hs)) fields h
    · exact loadProperties_built hR name required rest
        (fun s hs => hv s (Json.mem_referencesUnder_cons.mpr (Or.inr (Or.inr hs)))) fields h
  | (k, .null) :: rest, hv, fields, h => by
    rw [loadProperties] at h
    split at h
    · obtain rfl : [] = fields := by simpa using h
      exact ⟨trivial, by simp [Field.allRefs]⟩
    · exact loadProperties_built hR name required rest
        (fun s hs => hv s (Json.mem_referencesUnder_cons.mpr (Or.inr (Or.inr hs)))) fields h
  | (k, .bool _) :: rest, hv, fields, h
  | (k, .number _) :: rest, hv, fields, h
  | (k, .string _) :: rest, hv, fields, h
  | (k, .array _) :: rest, hv, fields, h => by
    simp only [loadProperties] at h
    split at h
    · simp at h
    · exact loadProperties_built hR name required rest
        (fun s hs => hv s (Json.mem_referencesUnder_cons.mpr (Or.inr (Or.inr hs)))) fields h
theorem loadFields_built (hR : resolve.Answers allowed known) (name : String)
    (required : List String) :
    ∀ members : List (String × Json), (∀ s ∈ Json.referencesUnder members, allowed s) →
      ∀ fields : List Field, (loadFields resolve name required members).result = .ok fields →
        Field.AllPlain fields ∧ ∀ r ∈ Field.allRefs fields, known r.name r.kind
  | [], _, fields, h => by
    obtain rfl : [] = fields := by simpa [loadFields] using h
    exact ⟨trivial, by simp [Field.allRefs]⟩
  | (k, v) :: rest, hv, fields, h => by
    have hrest := loadFields_built hR name required rest
      (fun s hs => hv s (Json.mem_referencesUnder_cons.mpr (Or.inr (Or.inr hs))))
    rw [loadFields, Loaded.bind_eq_ok] at h
    obtain ⟨node, hnode, h⟩ := h
    cases node with
    | none =>
      simp only [Loaded.bind_eq_ok] at h
      obtain ⟨-, -, h⟩ := h
      exact hrest fields h
    | some type =>
      simp only [Loaded.bind_eq_ok, Loaded.pure_eq_ok] at h
      obtain ⟨fields, hfields, rfl⟩ := h
      obtain ⟨htype, hrefs⟩ := load_built hR k v
        (fun s hs => hv s (Json.references_of_mem List.mem_cons_self hs)) type hnode
      obtain ⟨hplain, hmore⟩ := hrest fields hfields
      exact ⟨⟨htype, hplain⟩, List.forall_mem_append.mpr ⟨hrefs, hmore⟩⟩
end

end

/-! ## Declared types -/

/-- A declaration that makes a type of its own. -/
def Declaration.Makes : Declaration → Prop
  | .nothing | .reference | .unrecognized _ => False
  | .leaf .. | .array | .dictionary | .object => True

/-- An entry that declares a type of its own. -/
def DeclaresType (name : String) (v : Json) : Prop :=
  ∃ props, v = .object props ∧ (declaration name props).Makes

section
variable {allowed : String → Prop} {known : String → Kind → Prop} {resolve : Resolver} {name : String} {v : Json}

/-- A loaded node that is no reference was declared at its entry. -/
theorem declaresType_of_load (hR : resolve.Answers allowed known)
    (hv : ∀ s ∈ v.references, allowed s) {n : Node}
    (h : (load resolve name v).result = .ok (some n)) (hn : n.isRef = false) :
    DeclaresType name v := by
  cases v with
  | object props =>
    have hparts := load_inv h
    refine ⟨props, rfl, ?_⟩
    cases hd : declaration name props with
    | nothing => rw [hd] at hparts; cases hparts
    | unrecognized _ => rw [hd] at hparts; cases hparts
    | reference =>
      rw [hd] at hparts
      obtain ⟨node, hnode, hsome⟩ := hparts
      cases node with
      | none => cases hsome
      | some m =>
        obtain ⟨href, -⟩ := hR name props m (allowed_site hv) hnode
        obtain rfl := Option.some.inj hsome
        exact absurd (href.symm.trans hn) (by simp)
    | leaf _ _ => trivial
    | array => trivial
    | dictionary => trivial
    | object => trivial
  | _ => simp [load] at h

/-- An entry that declares a type loads as a node of its name that is no reference. -/
theorem exists_of_declaresType (hv : DeclaresType name v) {r : Option Node}
    (h : (load resolve name v).result = .ok r) :
    ∃ n, r = some n ∧ n.isRef = false ∧ n.name = name := by
  obtain ⟨props, rfl, hmakes⟩ := hv
  have hparts := load_inv h
  cases hd : declaration name props with
  | nothing => rw [hd] at hmakes; cases hmakes
  | reference => rw [hd] at hmakes; cases hmakes
  | unrecognized _ => rw [hd] at hmakes; cases hmakes
  | leaf tag spec =>
    rw [hd] at hparts
    obtain ⟨g, spec, hg, rfl, -⟩ := hparts
    exact ⟨_, rfl, hg.not_ref, hg.name_eq⟩
  | array =>
    rw [hd] at hparts
    obtain ⟨g, item, s, hg, rfl, -⟩ := hparts
    exact ⟨_, rfl, hg.not_ref, hg.name_eq⟩
  | dictionary =>
    rw [hd] at hparts
    obtain ⟨g, key, value, d, hg, rfl, -⟩ := hparts
    exact ⟨_, rfl, hg.not_ref, hg.name_eq⟩
  | object =>
    rw [hd] at hparts
    obtain ⟨g, fields, d, hg, rfl, -⟩ := hparts
    exact ⟨_, rfl, hg.not_ref, hg.name_eq⟩

end

/-! ## Resolvers -/

theorem atSite_eq_ok {name : String} {site : Props} {m n : Node}
    (h : m.atSite name site = .ok n) :
    n.isRef = true ∧ n.name = m.name ∧ n.label = name ∧ m.kind.override name site = .ok n.kind ∧
      n.head.constraints = m.head.constraints := by
  obtain ⟨description, xml, -, -, hkind, hhead⟩ := atSite_parts h
  obtain ⟨head, kind⟩ := n
  obtain rfl := hhead
  exact ⟨rfl, rfl, rfl, hkind, rfl⟩

theorem override_children {name : String} {site : Props} {k k' : Kind}
    (h : k.override name site = .ok k') : k'.children = k.children := by
  cases k with
  | leaf spec =>
    obtain ⟨_, -, rfl⟩ := Except.map_eq_ok.mp h
    rfl
  | array item s =>
    simp only [Kind.override, Except.bind_eq_ok] at h
    obtain ⟨min, -, max, -, h⟩ := h
    obtain rfl := Except.ok.inj h
    rfl
  | dictionary key value d =>
    obtain rfl := Except.ok.inj h
    rfl
  | object fields d =>
    obtain rfl := Except.ok.inj h
    rfl

/-- **A resolver answers references**, each with the name at which a target declares a type and the
kind of that type, up to overrides. The references of targets have to be allowed too. -/
theorem resolver_answers {document : Json} {allowed : String → Prop} {known : String → Kind → Prop}
    (hoverride : ∀ key name site k k', known key k → k.override name site = .ok k' → known key k')
    (htarget : ∀ reference, allowed reference → ∀ key target,
      Pointer.resolve document reference = .ok (key, target) →
        (∀ s ∈ target.references, allowed s) ∧ ∀ levels resolving m,
          (load (resolver document levels resolving) key target).result = .ok (some m) →
            DeclaresType key target → known key m.kind) :
    ∀ (levels : Nat) (resolving : List String),
      (resolver document levels resolving).Answers allowed known
  | 0, _, _, _, _, _, h => by simp [resolver] at h
  | levels + 1, resolving, name, site, n, hsite, h => by
    obtain ⟨below, reference, key, target, node, hlevels, hl, hresolve, -, hnode, hsited, -⟩ :=
      resolver_inv h
    obtain rfl := Nat.succ.inj hlevels
    obtain ⟨hrefs, hknown⟩ := htarget reference (hsite reference hl) key target hresolve
    cases node with
    | none => cases hsited
    | some m =>
      have hR := resolver_answers hoverride htarget levels (resolving ++ [reference])
      obtain ⟨hnamed, hm⟩ := load_built hR key target hrefs m hnode
      obtain ⟨c, hc, hsome⟩ := hsited
      obtain rfl := Option.some.inj hsome
      obtain ⟨href, hname, -, hkind, -⟩ := atSite_eq_ok hc
      refine ⟨href, hoverride _ _ _ _ _ ?_ hkind⟩
      rw [hname]
      cases hr : m.isRef with
      | true => exact hm m (by simp [Node.refs_of_isRef hr])
      | false =>
        rw [(hnamed.resolve hr).1]
        exact hknown _ _ m hnode (declaresType_of_load hR hrefs hnode hr)

/-! ## Sections -/

section
variable {document : Json} {name : String}

/-- Every node of a section was loaded from an entry, and every entry that is a type is there. -/
theorem loadEntries_spec (entries : List (String × Json)) (nodes : List Node)
    (h : (loadEntries document name entries).result = .ok nodes) :
    (∀ n ∈ nodes, ∃ e ∈ entries, (loadIn document e.1 e.2).result = .ok (some n)) ∧
      ∀ e ∈ entries, ∃ r, (loadIn document e.1 e.2).result = .ok r ∧ ∀ n, r = some n → n ∈ nodes := by
  obtain ⟨pairs, rfl, hgathered⟩ := gathered_of_loadEntries h
  refine ⟨List.forall_mem_map.mpr fun e he => ?_, fun e he => ?_⟩
  · obtain ⟨v, hv, hload⟩ := hgathered.origin e he
    exact ⟨(e.1, v), hv, hload⟩
  · obtain ⟨r, hr, hmem⟩ := hgathered.outcome e he
    exact ⟨r, hr, fun n hn => List.mem_map_of_mem (hmem n hn)⟩

theorem loadSection_inv {nodes : List Node}
    (h : (loadSection document name).result = .ok nodes) :
    nodes = [] ∧ (∀ v, document.get? name = some v → v = .null) ∨
      ∃ entries, document.get? name = some (.object entries) ∧
        (loadEntries document name entries).result = .ok nodes := by
  unfold loadSection at h
  split at h
  · rename_i hnone
    exact Or.inl ⟨(Loaded.value_eq_ok.mp h).symm, by simp [hnone]⟩
  · rename_i hnull
    exact Or.inl ⟨(Loaded.value_eq_ok.mp h).symm, by simp [hnull]⟩
  · rename_i entries hentries
    exact Or.inr ⟨entries, hentries, h⟩
  · simp at h

/-- **The nodes of a section are named after their entries**, and their references are what the
resolver answers. -/
theorem loadSection_built {allowed : String → Prop} {known : String → Kind → Prop}
    {nodes : List Node}
    (hR : (resolveIn document).Answers allowed known) (hd : ∀ s ∈ document.references, allowed s)
    (h : (loadSection document name).result = .ok nodes) :
    ∀ n ∈ nodes, ∃ key, Built known key n := by
  intro n hn
  rcases loadSection_inv h with ⟨rfl, -⟩ | ⟨entries, hentries, hload⟩
  · exact absurd hn List.not_mem_nil
  · obtain ⟨⟨k, v⟩, he, hnode⟩ := (loadEntries_spec entries nodes hload).1 n hn
    refine ⟨k, load_built hR k v (fun s hs => hd s (Json.references_of_get? hentries ?_)) n hnode⟩
    exact Json.references_of_mem he hs

/-- Whatever is loaded as no reference is named after its entry, and plain. -/
theorem loadIn_plain {key : String} {v : Json} {n : Node}
    (h : (loadIn document key v).result = .ok (some n)) (hr : n.isRef = false) :
    n.name = key ∧ n.kind.Plain := by
  have hR : (resolveIn document).Answers (fun _ => True) (fun _ _ => True) :=
    resolver_answers (fun _ _ _ _ _ _ _ => trivial)
      (fun _ _ _ _ _ => ⟨fun _ _ => trivial, fun _ _ _ _ _ => trivial⟩) _ _
  exact (load_built hR key v (fun _ _ => trivial) n h).1.resolve hr

/-- The declared types of any section are plain. -/
theorem loadSection_plain {nodes : List Node} (h : (loadSection document name).result = .ok nodes) :
    ∀ n ∈ nodes, n.isRef = false → n.kind.Plain := by
  intro n hn hr
  rcases loadSection_inv h with ⟨rfl, -⟩ | ⟨entries, -, hload⟩
  · exact absurd hn List.not_mem_nil
  · obtain ⟨e, -, hnode⟩ := (loadEntries_spec entries nodes hload).1 n hn
    exact (loadIn_plain hnode hr).2

/-- The first entry of a key, if it declares a type, is what is declared under the key. -/
theorem declaring?_of_loadEntries {key : String} {v : Json} (hv : DeclaresType key v) :
    ∀ (entries : List (String × Json)) (nodes : List Node),
      (loadEntries document name entries).result = .ok nodes → entries.lookup key = some v →
        ∃ n, (loadIn document key v).result = .ok (some n) ∧ declaring? nodes key = some n
  | [], _, _, hlookup => by simp at hlookup
  | (k, w) :: rest, nodes, h, hlookup => by
    rw [loadEntries, Loaded.bind_eq_ok] at h
    obtain ⟨node, hnode, h⟩ := h
    rw [List.lookup_cons] at hlookup
    by_cases hk : key = k
    · subst hk
      simp only [BEq.rfl, Option.some.injEq] at hlookup
      subst hlookup
      obtain ⟨n, rfl, hr, hname⟩ := exists_of_declaresType hv hnode
      simp only [Loaded.bind_eq_ok, Loaded.pure_eq_ok] at h
      obtain ⟨others, -, rfl⟩ := h
      exact ⟨n, hnode, List.find?_cons_of_pos (by simp [hr, hname])⟩
    · rw [beq_false_of_ne hk] at hlookup
      cases node with
      | none =>
        simp only [Loaded.bind_eq_ok] at h
        obtain ⟨-, -, h⟩ := h
        exact declaring?_of_loadEntries hv rest nodes h hlookup
      | some first =>
        simp only [Loaded.bind_eq_ok, Loaded.pure_eq_ok] at h
        obtain ⟨others, hothers, rfl⟩ := h
        obtain ⟨n, hn, hfirst⟩ := declaring?_of_loadEntries hv rest others hothers hlookup
        refine ⟨n, hn, (List.find?_cons_of_neg fun hmatch => ?_).trans hfirst⟩
        simp only [Bool.and_eq_true, decide_eq_true_eq, Bool.not_eq_true'] at hmatch
        exact hk (hmatch.1.symm.trans (loadIn_plain hnode hmatch.2).1)

/-- **The first entry of a key of a section, if it declares a type, is what is declared under the
key.** -/
theorem declaring?_of_loadSection {nodes : List Node} {entries : List (String × Json)}
    {key : String} {v : Json} (h : (loadSection document name).result = .ok nodes)
    (hentries : document.get? name = some (.object entries)) (hlookup : entries.lookup key = some v)
    (hv : DeclaresType key v) :
    ∃ n, (loadIn document key v).result = .ok (some n) ∧ declaring? nodes key = some n := by
  rcases loadSection_inv h with ⟨-, hnull⟩ | ⟨others, hothers, hload⟩
  · exact absurd (hnull _ hentries) (by simp)
  · obtain rfl : others = entries := by simpa [hothers] using hentries
    exact declaring?_of_loadEntries hv others nodes hload hlookup

end

end Entry

end Schemata
