import Schemata.Proofs.Build.Agreement
import Schemata.Proofs.Build.Naming
import Schemata.Proofs.Build.Pointers
import Schemata.Proofs.Extract.Reach
import Schemata.Proofs.Model.Descent

/-!
# Places of a document

Each place of a loaded forest has its keys: the section, the entry, and the keys that lead down from
there. The node at a place was loaded from the value at the end of its keys. A reference whose pointer
has these keys was resolved to that value too, so it has the name of the node.

Results:
* `Entry.load_place`: the node at the end of a path was loaded from the value at the end of its keys.
* `Entry.loadSection_place`: so was every node at a place of a section.
* `Entry.load_everywhere`: what declared nodes have, and references if their targets do.
* `Entry.exists_standsFor`: every reference of a loaded tree stands for some pointer.
* `Entry.StandsFor.name_eq`: a reference has the name of the node at the place of its pointer.
-/

namespace Schemata

/-! ## Paths one behind the other -/

namespace Json

theorem at?_append : ∀ (keys more : List String) (v : Json),
    v.at? (keys ++ more) = (v.at? keys).bind fun w => w.at? more
  | [], _, _ => rfl
  | key :: keys, more, v => by
    rw [List.cons_append, at?, at?, Option.bind_assoc]
    exact congrArg _ (funext fun next => at?_append keys more next)

theorem at?_singleton (members : List (String × Json)) (key : String) :
    (object members).at? [key] = members.lookup key := by
  simp [at?, step?]

end Json

/-! ## Keys of a place -/

/-- The keys that lead one step down from a node. -/
def Node.keysDown (n : Node) : Step → List String
  | .item => ["items"]
  | .key => ["keys"]
  | .value => ["values"]
  | .field i =>
    match n.kind with
    | .object fields _ => (fields[i]?).elim [] fun f => ["properties", f.name]
    | _ => []

/-- The keys that lead from a node to the end of a path. -/
def Node.keysTo (n : Node) : List Step → List String
  | [] => []
  | step :: rest => n.keysDown step ++ (n.child? step).elim [] fun child => child.keysTo rest

/-- The section of a root. -/
def Root.sectionName : Root → String
  | .type _ => "types"
  | .element _ => "elements"

/-- The keys of a place of a forest: the section, the entry, and the keys down from it. -/
def Forest.keysTo (f : Forest) (root : Root) (path : List Step) : List String :=
  root.sectionName :: (f.root? root).elim [] fun n => n.label :: n.keysTo path

namespace Entry

variable {document : Json} {resolve : Resolver} {name key : String} {v : Json} {n c : Node}

/-! ## Members of an entry -/

/-- A member comes from its entry, or from the reference beside the container's type. -/
theorem memberOr_inv {props : Props}
    (h : (memberOr resolve props key (loadMember resolve key props)).result = .ok (some c)) :
    (∃ w, List.lookup key props = some w ∧ (load resolve key w).result = .ok (some c)) ∨
      List.lookup key props = none ∧ ∃ site, (resolve key site).result = .ok (some c) := by
  cases hw : List.lookup key props with
  | some w => exact Or.inl ⟨w, rfl, memberOr_of_lookup hw ▸ h⟩
  | none =>
    rw [memberOr_of_none hw] at h
    split at h
    · exact Or.inr ⟨rfl, _, h⟩
    · simp at h

theorem loadFields_inv {required : List String} {members : List (String × Json)}
    {fields : List Field} (h : (loadFields resolve name required members).result = .ok fields) :
    ∀ f ∈ fields, ∃ w, (f.name, w) ∈ members ∧
      (load resolve f.name w).result = .ok (some f.type) := fun f hf =>
  (gathered_of_loadFields h).1.origin (f.name, f.type) (List.mem_map_of_mem hf)

theorem loadProperties_inv {required : List String} {members : List (String × Json)}
    {fields : List Field} (h : (loadProperties resolve name required members).result = .ok fields) :
    fields = [] ∨ ∃ entries, members.lookup "properties" = some (.object entries) ∧
      (loadFields resolve name required entries).result = .ok fields := by
  rw [loadProperties_eq] at h
  cases hw : members.lookup "properties" with
  | none =>
    rw [hw] at h
    exact Or.inl (Loaded.value_eq_ok.mp h).symm
  | some w =>
    rw [hw] at h
    cases w with
    | object entries => exact Or.inr ⟨entries, rfl, h⟩
    | null => exact Or.inl (Loaded.value_eq_ok.mp h).symm
    | _ => simp at h

/-! ## Labels -/

/-- A resolver answers references that are called what their sites are called. -/
def Resolver.Refers (resolve : Resolver) : Prop :=
  ∀ (name : String) (site : Props) (n : Node), (resolve name site).result = .ok (some n) →
    n.isRef = true ∧ n.label = name

theorem resolver_refers (document : Json) (levels : Nat) (resolving : List String) :
    (resolver document levels resolving).Refers := by
  intro name site n h
  obtain ⟨-, -, -, -, node, -, -, -, -, -, hsited, -⟩ := resolver_inv h
  cases node with
  | none => cases hsited
  | some m =>
    obtain ⟨c, hc, hn⟩ := hsited
    obtain rfl := Option.some.inj hn
    obtain ⟨href, -, hlabel, -, -⟩ := atSite_eq_ok hc
    exact ⟨href, hlabel⟩

/-- A loaded node is called what its entry is called. -/
theorem load_label (hR : resolve.Refers) (h : (load resolve name v).result = .ok (some n)) :
    n.label = name := by
  rcases load_cases h with hn | ⟨site, a, ha, hsome⟩
  · exact hn.label_eq
  · obtain rfl := Option.some.inj hsome
    exact (hR name site a ha).2

/-! ## Down a path -/

/-- **Where a child comes from**: from the value at the end of its keys, or, if there is none, from the
reference beside the container's type. -/
theorem load_child (hR : resolve.Refers) (hd : v.distinct = true)
    (h : (load resolve name v).result = .ok (some n)) (hn : n.isRef = false) {step : Step}
    (hc : n.child? step = some c) :
    (∃ w, v.at? (n.keysDown step) = some w ∧
      (load resolve ((n.keysDown step).getLast?.getD name) w).result = .ok (some c)) ∨
    v.at? (n.keysDown step) = none ∧ ∃ key site, (resolve key site).result = .ok (some c) := by
  cases v with
  | object props =>
    have hparts := load_inv h
    cases hdecl : declaration name props with
    | nothing => rw [hdecl] at hparts; cases hparts
    | unrecognized _ => rw [hdecl] at hparts; cases hparts
    | reference =>
      rw [hdecl] at hparts
      obtain ⟨node, hnode, hsome⟩ := hparts
      cases node with
      | none => cases hsome
      | some m =>
        obtain rfl := Option.some.inj hsome
        exact absurd ((hR name props m hnode).1.symm.trans hn) (by simp)
    | leaf tag spec =>
      rw [hdecl] at hparts
      obtain ⟨g, spec, -, hsome, -⟩ := hparts
      obtain rfl := Option.some.inj hsome
      cases step <;> cases hc
    | array =>
      rw [hdecl] at hparts
      obtain ⟨g, item, s, -, hsome, hitem, -⟩ := hparts
      obtain rfl := Option.some.inj hsome
      cases step <;> cases hc
      rcases memberOr_inv hitem with ⟨w, hw, hload⟩ | ⟨hnone, hsite⟩
      · exact Or.inl ⟨w, (Json.at?_singleton props _).trans hw, hload⟩
      · exact Or.inr ⟨(Json.at?_singleton props _).trans hnone, _, hsite⟩
    | dictionary =>
      rw [hdecl] at hparts
      obtain ⟨g, key, value, d, -, hsome, hkey, hvalue, -⟩ := hparts
      obtain rfl := Option.some.inj hsome
      cases step <;> cases hc
      · obtain ⟨w, hw, hload⟩ := loadMember_inv hkey
        exact Or.inl ⟨w, (Json.at?_singleton props _).trans hw, hload⟩
      · rcases memberOr_inv hvalue with ⟨w, hw, hload⟩ | ⟨hnone, hsite⟩
        · exact Or.inl ⟨w, (Json.at?_singleton props _).trans hw, hload⟩
        · exact Or.inr ⟨(Json.at?_singleton props _).trans hnone, _, hsite⟩
    | object =>
      rw [hdecl] at hparts
      obtain ⟨g, fields, d, -, hsome, hfields, -⟩ := hparts
      obtain rfl := Option.some.inj hsome
      cases step <;> try cases hc
      rename_i i
      obtain ⟨f, hf, rfl⟩ := Option.map_eq_some_iff.mp hc
      have hkeys : Node.keysDown ⟨g, .object fields d⟩ (.field i) = ["properties", f.name] := by
        simp [Node.keysDown, hf]
      rcases loadProperties_inv hfields with rfl | ⟨entries, hentries, hload⟩
      · cases hf
      · obtain ⟨w, hw, hload⟩ := loadFields_inv hload f (List.mem_of_getElem? hf)
        have hunder := Json.keys_of_get? (v := .object props) hd hentries
        rw [hkeys]
        refine Or.inl ⟨w, ?_, hload⟩
        rw [show ["properties", f.name] = ["properties"] ++ [f.name] from rfl, Json.at?_append,
          Json.at?_singleton, hentries, Option.bind_some, Json.at?_singleton]
        exact Json.lookup_of_mem hunder hw
  | _ => simp [load] at h

/-- **The node at the end of a path was loaded from the value at the end of its keys.** -/
theorem load_place (hR : resolve.Refers) {m : Node} {target : Json} : ∀ (path : List Step)
    (name : String) (v : Json) (n : Node), v.distinct = true →
      (load resolve name v).result = .ok (some n) → n.reach? path = some m →
        v.at? (n.keysTo path) = some target →
          (load resolve ((n.keysTo path).getLast?.getD name) target).result = .ok (some m)
  | [], name, v, n, _, h, hm, ht => by
    obtain rfl := Option.some.inj hm
    obtain rfl := Option.some.inj ht
    exact h
  | step :: path, name, v, n, hd, h, hm, ht => by
    obtain ⟨hr, c, hc, hm⟩ := Node.reach?_cons hm
    have hkeys : n.keysTo (step :: path) = n.keysDown step ++ c.keysTo path := by
      rw [Node.keysTo, hc]
      rfl
    rw [hkeys, Json.at?_append] at ht
    obtain ⟨w, hw, ht⟩ := Option.bind_eq_some_iff.mp ht
    rcases load_child hR hd h hr hc with ⟨u, hu, hload⟩ | ⟨hnone, -⟩
    · obtain rfl := Option.some.inj (hw.symm.trans hu)
      have hbelow := load_place hR path _ w c (Json.distinct_at _ _ hd hw) hload hm ht
      rw [hkeys, List.getLast?_append]
      cases hlast : (c.keysTo path).getLast? <;> rwa [hlast] at hbelow
    · rw [hnone] at hw
      cases hw

/-- A node of a section was loaded from the entry under its label. -/
theorem loadSection_entry (hd : document.distinct = true) {nodes : List Node}
    (h : (loadSection document name).result = .ok nodes) (hn : n ∈ nodes) :
    ∃ v, document.at? [name, n.label] = some v ∧
      (loadIn document n.label v).result = .ok (some n) := by
  rcases loadSection_inv h with ⟨rfl, -⟩ | ⟨entries, hentries, hload⟩
  · exact absurd hn List.not_mem_nil
  · obtain ⟨⟨k, v⟩, he, hnode⟩ := (loadEntries_spec entries nodes hload).1 n hn
    obtain rfl : n.label = k := load_label (resolver_refers document _ _) hnode
    refine ⟨v, ?_, hnode⟩
    have hkeys := Json.keys_of_get? hd hentries
    cases document with
    | object members =>
      rw [show [name, n.label] = [name] ++ [n.label] from rfl, Json.at?_append, Json.at?_singleton,
        show members.lookup name = _ from hentries, Option.bind_some, Json.at?_singleton]
      exact Json.lookup_of_mem hkeys he
    | _ => cases hentries

/-- The nodes of a section are gathered from its entries under their labels. -/
theorem gathered_labels {entries : List (String × Json)} {nodes : List Node}
    (h : (loadEntries document name entries).result = .ok nodes) :
    Gathered (loadIn document) name entries (nodes.map fun n => (n.label, n))
      (loadEntries document name entries).diagnostics := by
  obtain ⟨pairs, rfl, hgathered⟩ := gathered_of_loadEntries h
  have hlabel : ∀ e ∈ pairs, (e.2.label, e.2) = e := fun e he => by
    obtain ⟨v, -, hload⟩ := hgathered.origin e he
    exact Prod.ext (load_label (resolver_refers document _ _) hload) rfl
  have hpairs : (pairs.map Prod.snd).map (fun n => (n.label, n)) = pairs :=
    (List.map_map ..).trans ((List.map_congr_left hlabel).trans (List.map_id _))
  rw [hpairs]
  exact hgathered

theorem loadEntries_labels {entries : List (String × Json)} {nodes : List Node}
    (h : (loadEntries document name entries).result = .ok nodes) :
    (nodes.map Node.label).Sublist (entries.map Prod.fst) := by
  have hkeys := (gathered_labels h).keys
  rwa [List.map_map] at hkeys

/-- The labels of a section are distinct. -/
theorem loadSection_labels (hd : document.distinct = true) {nodes : List Node}
    (h : (loadSection document name).result = .ok nodes) : (nodes.map Node.label).Nodup := by
  rcases loadSection_inv h with ⟨rfl, -⟩ | ⟨entries, hentries, hload⟩
  · exact List.nodup_nil
  · exact (Json.keys_of_get? hd hentries).sublist (loadEntries_labels hload)

/-- **The node at a place of a section was loaded from the value at the end of its keys.** -/
theorem loadSection_place (hd : document.distinct = true) {nodes : List Node}
    (h : (loadSection document name).result = .ok nodes) {t : Node} (ht : t ∈ nodes)
    {path : List Step} (hn : t.reach? path = some n) {target : Json}
    (htarget : document.at? (name :: t.label :: t.keysTo path) = some target) :
    (loadIn document ((t.keysTo path).getLast?.getD t.label) target).result = .ok (some n) := by
  obtain ⟨v, hv, hload⟩ := loadSection_entry hd h ht
  rw [show name :: t.label :: t.keysTo path = [name, t.label] ++ t.keysTo path from rfl,
    Json.at?_append, hv, Option.bind_some] at htarget
  exact load_place (resolver_refers document _ _) path t.label v t (Json.distinct_at _ _ hd hv) hload
    hn htarget

/-! ## The target of a reference -/

/-- Overrides leave the children as they are. -/
theorem override_child? {site : Props} {m x : Node} (h : m.kind.override name site = .ok x.kind)
    (step : Step) : x.child? step = m.child? step := by
  obtain ⟨g, k⟩ := m
  obtain ⟨g', k'⟩ := x
  cases k with
  | leaf spec =>
    obtain ⟨_, -, rfl⟩ := Except.map_eq_ok.mp h
    cases step <;> rfl
  | array item s =>
    simp only [Kind.override, Except.bind_eq_ok] at h
    obtain ⟨min, -, max, -, h⟩ := h
    obtain rfl := Except.ok.inj h
    cases step <;> rfl
  | dictionary key value d =>
    obtain rfl := Except.ok.inj h
    cases step <;> rfl
  | object fields d =>
    obtain rfl := Except.ok.inj h
    cases step <;> rfl

/-- **The target of an answer**: the answer is what the site makes of it, and has its name and its
children. -/
theorem resolver_target {levels : Nat} {resolving : List String} {site : Props} {a x : Node}
    (h : (resolver document levels resolving name site).result = .ok (some a))
    (hx : x = a ∨ withFlag site (some a) = some x) :
    ∃ below reference keys key target m, levels = below + 1 ∧
      List.lookup "$ref" site = some (.string reference) ∧
      Pointer.keys? reference = some keys ∧ keys.getLast? = some key ∧
      document.at? keys = some target ∧
      (load (resolver document below (resolving ++ [reference])) key target).result = .ok (some m) ∧
      m.atSite name site = .ok a ∧ x.name = m.name ∧ ∀ step, x.child? step = m.child? step := by
  obtain ⟨below, reference, key, target, node, hlevels, hl, hresolve, -, hload, hsited, -⟩ :=
    resolver_inv h
  obtain ⟨keys, hkeys, hlast, htarget⟩ := Pointer.resolve_eq_ok hresolve
  cases node with
  | none => cases hsited
  | some m =>
    obtain ⟨c, hc, hsome⟩ := hsited
    obtain rfl := Option.some.inj hsome
    obtain ⟨-, hname, -, hkind, -⟩ := atSite_eq_ok hc
    refine ⟨below, reference, keys, key, target, m, hlevels, hl, hkeys, hlast, htarget, hload, hc, ?_⟩
    rcases hx with rfl | hx
    · exact ⟨hname, override_child? hkind⟩
    · obtain rfl := Option.some.inj hx
      exact ⟨hname, override_child? hkind⟩

/-! ## What holds everywhere -/

section
variable {P : Node → Prop}

/-- What holds of an answer and everywhere in the nodes that targets load as holds everywhere in the
answer. -/
theorem everywhere_of_answer {levels : Nat} {resolving : List String} {site : Props} {a x : Node}
    (hd : document.distinct = true)
    (htarget : ∀ below, levels = below + 1 → ∀ resolving key v m, v.distinct = true →
      (load (resolver document below resolving) key v).result = .ok (some m) → m.Everywhere P)
    (hown : ∀ m, m.atSite name site = .ok a → P m → P x)
    (h : (resolver document levels resolving name site).result = .ok (some a))
    (hx : x = a ∨ withFlag site (some a) = some x) : x.Everywhere P := by
  obtain ⟨below, reference, keys, key, target, m, hlevels, -, -, -, hat, hload, hsite, -, hchild⟩ :=
    resolver_target h hx
  have hm := htarget below hlevels _ key target m (Json.distinct_at _ _ hd hat) hload
  intro path y hy
  cases path with
  | nil =>
    obtain rfl := Option.some.inj hy
    exact hown m hsite (hm [] m rfl)
  | cons step path =>
    rw [Node.at?, hchild] at hy
    exact hm (step :: path) y hy

/-- What holds of declared nodes and everywhere in the answers of the resolver holds everywhere in
what is loaded. -/
theorem everywhere_of_load (hR : resolve.Refers)
    (hdeclared : ∀ name v n, v.distinct = true → (load resolve name v).result = .ok (some n) →
      n.isRef = false → P n)
    (hanswer : ∀ name site a x, (resolve name site).result = .ok (some a) →
      (x = a ∨ withFlag site (some a) = some x) → x.Everywhere P) {x : Node} :
    ∀ (path : List Step) (name : String) (v : Json) (n : Node), v.distinct = true →
      (load resolve name v).result = .ok (some n) → n.at? path = some x → P x
  | path, name, v, n, hd, h, hx => by
    rcases load_cases h with hn | ⟨site, a, ha, hsome⟩
    · cases path with
      | nil =>
        obtain rfl := Option.some.inj hx
        exact hdeclared name v n hd h hn.not_ref
      | cons step path =>
        obtain ⟨c, hc, hx⟩ := Option.bind_eq_some_iff.mp hx
        rcases load_child hR hd h hn.not_ref hc with ⟨w, hw, hload⟩ | ⟨-, key, site, hsite⟩
        · exact everywhere_of_load hR hdeclared hanswer path _ w c (Json.distinct_at _ _ hd hw) hload
            hx
        · exact hanswer key site c c hsite (Or.inl rfl) path x hx
    · exact hanswer name site a n ha (Or.inr hsome) path x hx

/-- **What declared nodes have, and references if their targets do, is everywhere** in a loaded
tree. -/
theorem load_everywhere (hd : document.distinct = true)
    (hdeclared : ∀ levels resolving name v n, v.distinct = true →
      (load (resolver document levels resolving) name v).result = .ok (some n) →
        n.isRef = false → P n)
    (hreference : ∀ levels resolving name site m a x,
      (resolver document levels resolving name site).result = .ok (some a) →
        (x = a ∨ withFlag site (some a) = some x) → m.atSite name site = .ok a → P m → P x) :
    ∀ (levels : Nat) (resolving : List String) (name : String) (v : Json) (n : Node),
      v.distinct = true →
        (load (resolver document levels resolving) name v).result = .ok (some n) → n.Everywhere P
  | levels, resolving, name, v, n, hv, h => fun path _ hx =>
    everywhere_of_load (resolver_refers document levels resolving) (hdeclared levels resolving)
      (fun name site a x ha hx => everywhere_of_answer hd
        (fun below hlevels resolving key v m hv hm => by
          subst hlevels
          exact load_everywhere hd hdeclared hreference below resolving key v m hv hm)
        (fun m hm => hreference levels resolving name site m a x ha hx hm) ha hx)
      path name v n hv h hx

end

/-! ## What a reference stands for -/

/-- A node is what a site of a pointer was resolved to, perhaps with the flag of the site. -/
def StandsFor (document : Json) (reference : String) (x : Node) : Prop :=
  ∃ levels resolving name site answer, List.lookup "$ref" site = some (.string reference) ∧
    (resolver document levels resolving name site).result = .ok (some answer) ∧
    (x = answer ∨ withFlag site (some answer) = some x)

/-- **A reference has the name of the node that its target loads as.** -/
theorem StandsFor.name_eq {reference : String} {x m : Node} {keys : List String}
    (h : StandsFor document reference x) (hkeys : Pointer.keys? reference = some keys)
    (hload : ∀ key target, keys.getLast? = some key → document.at? keys = some target →
      (loadIn document key target).result = .ok (some m)) : x.name = m.name := by
  obtain ⟨levels, resolving, name, site, a, hl, ha, hx⟩ := h
  obtain ⟨below, reference', keys', key, target, m', -, hl', hkeys', hlast, hat, hm', -, hname, -⟩ :=
    resolver_target ha hx
  obtain rfl := Json.string.inj (Option.some.inj (hl.symm.trans hl'))
  obtain rfl := Option.some.inj (hkeys.symm.trans hkeys')
  have hagree := load_agree hm' (hload key target hlast hat)
  rw [hname, Option.some.inj hagree]

/-- Every reference of a tree stands for some pointer. -/
def RefsStand (document : Json) (n : Node) : Prop :=
  ∀ path x, n.at? path = some x → x.isRef = true → ∃ reference, StandsFor document reference x

/-- **Every reference of a loaded tree stands for some pointer.** -/
theorem exists_standsFor (hd : document.distinct = true) (levels : Nat) (resolving : List String)
    (name : String) (v : Json) (n : Node) (hv : v.distinct = true)
    (h : (load (resolver document levels resolving) name v).result = .ok (some n)) :
    RefsStand document n := by
  refine load_everywhere hd (fun _ _ _ _ _ _ _ hr hr' => absurd (hr'.symm.trans hr) (by simp)) ?_
    levels resolving name v n hv h
  intro levels resolving name site m a x ha hx _ _ _
  obtain ⟨-, reference, -, -, -, -, -, hl, -⟩ := resolver_target ha hx
  exact ⟨reference, levels, resolving, name, site, a, hl, ha, hx⟩

end Entry

end Schemata
