import Mathlib.Data.List.Chain
import Mathlib.Logic.Relation
import Schemata.Proofs.Build.Failures
import Schemata.Proofs.Build.Levels

/-!
# Circles among references

A load goes down an entry and asks the resolver at each reference site that it meets, until a step
fails. A reference leads to the references that are met while its target is loaded. Loading tells
circles of references from chains by the texts of the references, and a document has finitely many
of these: where a load unfolds without end, a text comes back, and where a text comes back, the load
would unfold without end.

What a load meets is read off the load of the entry by itself. While references are being resolved
it meets nothing else, as it ends in the same way unless a circle stops it.

Results:
* `load_error`, `Asks.fails`: a load fails as a site that it asks for, or because of what it reads.
* `resolver_chain`: the chain that a resolver reports leads from reference to reference and comes
  back.
* `Unfolding.of_path`: where no circle stops a load, the references that it follows are all new.
* `loadIn_circles`: loading ends, and it reports a circle exactly where it meets a reference that
  leads to one.
-/

namespace Schemata

open Relation

namespace Entry

variable {resolve : Resolver} {name key : String} {props site : Props} {v : Json} {e : SchemaError}

/-! ## Steps that fail -/

/-- Every entry among the given ones is loaded. -/
def Loads (resolve : Resolver) (entries : List (String × Json)) : Prop :=
  ∀ m ∈ entries, ∃ node, (load resolve m.1 m.2).result = .ok node

theorem loads_nil : Loads resolve [] := fun _ hm => absurd hm List.not_mem_nil

section
variable {required : List String} {k : String} {rest : List (String × Json)}

/-- Fields fail as the first of them that fails. -/
theorem loadFields_fails (h : (load resolve k v).result = .error e) :
    ∀ {front : List (String × Json)}, Loads resolve front →
      (loadFields resolve name required (front ++ (k, v) :: rest)).result = .error e
  | [], _ => by
    rw [List.nil_append, loadFields]
    exact Loaded.bind_eq_error.mpr (Or.inl h)
  | (k', v') :: front, hfront => by
    obtain ⟨⟨node, hnode⟩, hfront⟩ := List.forall_mem_cons.mp hfront
    rw [List.cons_append, loadFields]
    refine Loaded.bind_eq_error.mpr (Or.inr ⟨node, hnode, ?_⟩)
    cases node with
    | none => exact Loaded.bind_eq_error.mpr (Or.inr ⟨(), rfl, loadFields_fails h hfront⟩)
    | some type => exact Loaded.bind_eq_error.mpr (Or.inl (loadFields_fails h hfront))

/-- The field with which fields fail. -/
theorem loadFields_error : ∀ {entries : List (String × Json)},
    (loadFields resolve name required entries).result = .error e →
      ∃ front k v rest, entries = front ++ (k, v) :: rest ∧ Loads resolve front ∧
        (load resolve k v).result = .error e
  | [], h => by simp [loadFields, Loaded.value] at h
  | (k, v) :: rest, h => by
    rw [loadFields] at h
    rcases Loaded.bind_eq_error.mp h with h | ⟨node, hnode, h⟩
    · exact ⟨[], k, v, rest, rfl, loads_nil, h⟩
    · have hrest : (loadFields resolve name required rest).result = .error e := by
        cases node with
        | none =>
          obtain h | ⟨_, -, h⟩ := Loaded.bind_eq_error.mp h
          · cases h
          · exact h
        | some type =>
          obtain h | ⟨_, -, h⟩ := Loaded.bind_eq_error.mp h
          · exact h
          · exact absurd h (by simp [Loaded.result_pure])
      obtain ⟨front, k', v', behind, rfl, hfront, h⟩ := loadFields_error hrest
      have hloads : Loads resolve ((k, v) :: front) :=
        List.forall_mem_cons.mpr ⟨⟨node, hnode⟩, hfront⟩
      exact ⟨(k, v) :: front, k', v', behind, rfl, hloads, h⟩

end

/-! ## What a load asks for -/

/-- Loading an entry goes down to a member under its key, with every step before it gone well. -/
inductive GoesDown (resolve : Resolver) (name : String) (props : Props) : String → Json → Prop
  /-- To the items of an array. -/
  | items {v : Json} (hd : declaration name props = .array)
      (hv : props.lookup "items" = some v) : GoesDown resolve name props "items" v
  /-- To the keys of a dictionary. -/
  | keys {v : Json} (hd : declaration name props = .dictionary)
      (hv : props.lookup "keys" = some v) : GoesDown resolve name props "keys" v
  /-- To the values of a dictionary whose keys are loaded. -/
  | values {v w : Json} {key : Node} (hd : declaration name props = .dictionary)
      (hw : props.lookup "keys" = some w) (hkey : (load resolve "keys" w).result = .ok (some key))
      (hv : props.lookup "values" = some v) : GoesDown resolve name props "values" v
  /-- To a field of an object when those in front of it are loaded. -/
  | field {k : String} {v : Json} {front rest : List (String × Json)}
      (hd : declaration name props = .object)
      (hv : props.lookup "properties" = some (.object (front ++ (k, v) :: rest)))
      (hfront : Loads resolve front) : GoesDown resolve name props k v

/-- An entry is itself a reference site that loading it asks for, or has one beside its type. -/
inductive AsksHere (resolve : Resolver) (name : String) (props : Props) : String → Props → Prop
  /-- The entry is a reference. -/
  | entry (hd : declaration name props = .reference) : AsksHere resolve name props name props
  /-- The items of an array are a reference. -/
  | items (hd : declaration name props = .array) (hnone : props.lookup "items" = none)
      (href : props.has "$ref") : AsksHere resolve name props "items" props.referenceOnly
  /-- The values of a dictionary are a reference. -/
  | values {w : Json} {key : Node} (hd : declaration name props = .dictionary)
      (hw : props.lookup "keys" = some w) (hkey : (load resolve "keys" w).result = .ok (some key))
      (hnone : props.lookup "values" = none) (href : props.has "$ref") :
      AsksHere resolve name props "values" props.referenceOnly

/-- Loading an entry asks for a reference site of a given name. -/
inductive Asks (resolve : Resolver) : String → Json → String → Props → Prop
  /-- At the entry. -/
  | here {name asked : String} {props site : Props} (h : AsksHere resolve name props asked site) :
      Asks resolve name (.object props) asked site
  /-- Behind a member. -/
  | inside {name k asked : String} {v : Json} {props site : Props}
      (hv : GoesDown resolve name props k v) (h : Asks resolve k v asked site) :
      Asks resolve name (.object props) asked site

theorem loadMember_keys {w : Json} {node : Node} (hw : List.lookup "keys" props = some w)
    (hkey : (load resolve "keys" w).result = .ok (some node)) :
    (loadMember resolve "keys" props).result = .ok (some node) := by
  rw [loadMember_eq_elim, hw]
  exact hkey

/-- An entry fails as the member that loading it goes down to. -/
theorem GoesDown.fails {k : String} (h : GoesDown resolve name props k v)
    (he : (load resolve k v).result = .error e) :
    (load resolve name (.object props)).result = .error e := by
  rw [load]
  cases h with
  | items hd hv =>
    simp only [hd]
    exact Loaded.bind_eq_error.mpr (Or.inl (memberOr_of_lookup hv ▸ he))
  | keys hd hv =>
    simp only [hd]
    refine Loaded.bind_eq_error.mpr (Or.inl ?_)
    rw [loadMember_eq_elim, hv]
    exact he
  | values hd hw hkey hv =>
    simp only [hd]
    refine Loaded.bind_eq_error.mpr (Or.inr ⟨_, loadMember_keys hw hkey, ?_⟩)
    exact Loaded.bind_eq_error.mpr (Or.inl (memberOr_of_lookup hv ▸ he))
  | field hd hv hfront =>
    simp only [hd]
    refine Loaded.bind_eq_error.mpr (Or.inl ?_)
    rw [loadProperties_eq, hv]
    exact loadFields_fails he hfront

/-- An entry fails as the site at it. -/
theorem AsksHere.fails {asked : String} (h : AsksHere resolve name props asked site)
    (he : (resolve asked site).result = .error e) :
    (load resolve name (.object props)).result = .error e := by
  rw [load]
  cases h with
  | entry hd =>
    simp only [hd]
    exact Loaded.bind_eq_error.mpr (Or.inl he)
  | items hd hnone href =>
    simp only [hd]
    refine Loaded.bind_eq_error.mpr (Or.inl ?_)
    rw [memberOr_of_none hnone, if_pos href]
    exact he
  | values hd hw hkey hnone href =>
    simp only [hd]
    refine Loaded.bind_eq_error.mpr (Or.inr ⟨_, loadMember_keys hw hkey, ?_⟩)
    refine Loaded.bind_eq_error.mpr (Or.inl ?_)
    rw [memberOr_of_none hnone, if_pos href]
    exact he

/-- **A load fails as a site that it asks for.** -/
theorem Asks.fails {asked : String} (h : Asks resolve name v asked site)
    (he : (resolve asked site).result = .error e) : (load resolve name v).result = .error e := by
  induction h with
  | here h => exact h.fails he
  | inside hv _ ih => exact hv.fails (ih he)

/-! ## What stops a load -/

/-- What stops the load of an entry: what the entry says, a site at it, or a member. -/
def Stops (resolve : Resolver) (name : String) (props : Props) (e : SchemaError) : Prop :=
  e.OfReading ∨
    (∃ asked site, AsksHere resolve name props asked site ∧
      (resolve asked site).result = .error e) ∨
    ∃ k v, GoesDown resolve name props k v ∧ (load resolve k v).result = .error e

/-- A member or the reference in its place stops the load of the entry. -/
theorem stops_of_memberOr
    (hdown : ∀ v, props.lookup key = some v → GoesDown resolve name props key v)
    (hhere : props.lookup key = none → props.has "$ref" →
      AsksHere resolve name props key props.referenceOnly)
    (h : (memberOr resolve props key (loadMember resolve key props)).result = .error e) :
    Stops resolve name props e := by
  cases hv : List.lookup key props with
  | some v => exact Or.inr (Or.inr ⟨key, v, hdown v hv, memberOr_of_lookup hv ▸ h⟩)
  | none =>
    rw [memberOr_of_none hv] at h
    split at h
    · rename_i href
      exact Or.inr (Or.inl ⟨key, props.referenceOnly, hhere hv href, h⟩)
    · cases h

theorem stops_of_keys (hd : declaration name props = .dictionary)
    (h : (loadMember resolve "keys" props).result = .error e) : Stops resolve name props e := by
  rw [loadMember_eq_elim] at h
  cases hw : List.lookup "keys" props with
  | none =>
    rw [hw] at h
    cases h
  | some w =>
    rw [hw] at h
    exact Or.inr (Or.inr ⟨"keys", w, .keys hd hw, h⟩)

theorem stops_of_properties (hd : declaration name props = .object) {required : List String}
    (h : (loadProperties resolve name required props).result = .error e) :
    Stops resolve name props e := by
  rw [loadProperties_eq] at h
  cases hv : List.lookup "properties" props with
  | none =>
    rw [hv] at h
    cases h
  | some v =>
    rw [hv] at h
    cases v with
    | null => cases h
    | object entries =>
      obtain ⟨front, k, v, rest, rfl, hfront, h⟩ := loadFields_error h
      exact Or.inr (Or.inr ⟨k, v, .field hd hv hfront, h⟩)
    | _ =>
      obtain rfl := Except.error.inj h
      exact Or.inl trivial

/-- **What stops the load of an entry.** -/
theorem stops_of_load (h : (load resolve name (.object props)).result = .error e) :
    Stops resolve name props e := by
  rw [load] at h
  cases hd : declaration name props with
  | nothing =>
    simp only [hd] at h
    cases h
  | unrecognized found =>
    simp only [hd] at h
    obtain rfl := Except.error.inj h
    exact Or.inl trivial
  | reference =>
    simp only [hd] at h
    obtain h | ⟨_, -, h⟩ := Loaded.bind_eq_error.mp h
    · exact Or.inr (Or.inl ⟨name, props, .entry hd, h⟩)
    · cases h
  | leaf tag spec =>
    simp only [hd] at h
    obtain h | ⟨_, -, h⟩ := Loaded.bind_eq_error.mp h
    · exact Or.inl (declaration_fails hd e h)
    · exact Or.inl (finish_fails name tag props _ e h)
  | array =>
    simp only [hd] at h
    obtain h | ⟨item, -, h⟩ := Loaded.bind_eq_error.mp h
    · exact stops_of_memberOr (fun v hv => .items hd hv) (fun hnone href => .items hd hnone href) h
    · obtain h | ⟨_, -, h⟩ := Loaded.bind_eq_error.mp h
      · exact Or.inl (arrayOf_fails name props item e h)
      · exact Or.inl (finish_fails name .array props _ e h)
  | dictionary =>
    simp only [hd] at h
    obtain h | ⟨key, hkey, h⟩ := Loaded.bind_eq_error.mp h
    · exact stops_of_keys hd h
    · cases key with
      | none =>
        obtain rfl := Except.error.inj h
        exact Or.inl trivial
      | some key =>
        obtain ⟨w, hw, hkey⟩ := loadMember_inv hkey
        obtain h | ⟨value, -, h⟩ := Loaded.bind_eq_error.mp h
        · exact stops_of_memberOr (fun v hv => .values hd hw hkey hv)
            (fun hnone href => .values hd hw hkey hnone href) h
        · cases value with
          | none =>
            obtain rfl := Except.error.inj h
            exact Or.inl trivial
          | some value => exact Or.inl (finish_fails name .dict props _ e h)
  | object =>
    simp only [hd] at h
    obtain h | ⟨_, -, h⟩ := Loaded.bind_eq_error.mp h
    · exact stops_of_properties hd h
    · exact Or.inl (finish_fails name .object props _ e h)

theorem sizeOf_lt_of_lookup {members : List (String × Json)} (h : members.lookup key = some v) :
    sizeOf v < sizeOf (Json.object members) := by
  have hmem := List.sizeOf_lt_of_mem (Json.mem_of_lookup h)
  simp only [Prod.mk.sizeOf_spec, Json.object.sizeOf_spec] at hmem ⊢
  omega

/-- Going down leads to something smaller. -/
theorem GoesDown.sizeOf_lt {k : String} (h : GoesDown resolve name props k v) :
    sizeOf v < sizeOf (Json.object props) := by
  cases h with
  | items _ hv => exact sizeOf_lt_of_lookup hv
  | keys _ hv => exact sizeOf_lt_of_lookup hv
  | values _ _ _ hv => exact sizeOf_lt_of_lookup hv
  | @field _ _ front rest _ hv _ =>
    have hentries := sizeOf_lt_of_lookup hv
    have hmem : (k, v) ∈ front ++ (k, v) :: rest := by simp
    have hfield := List.sizeOf_lt_of_mem hmem
    simp only [Prod.mk.sizeOf_spec, Json.object.sizeOf_spec] at hentries hfield ⊢
    omega

/-- **What stops a load** is what some entry says, or a site that it asks for. -/
theorem load_error : ∀ {name : String} {v : Json}, (load resolve name v).result = .error e →
    e.OfReading ∨
      ∃ asked site, Asks resolve name v asked site ∧ (resolve asked site).result = .error e
  | name, .object props, h => by
    obtain hreading | ⟨asked, site, hhere, h⟩ | ⟨k, v, hdown, h⟩ := stops_of_load h
    · exact Or.inl hreading
    · exact Or.inr ⟨asked, site, .here hhere, h⟩
    · obtain hreading | ⟨asked, site, hasks, h⟩ := load_error h
      · exact Or.inl hreading
      · exact Or.inr ⟨asked, site, .inside hdown hasks, h⟩
  | _, .null, h | _, .bool _, h | _, .number _, h | _, .string _, h | _, .array _, h => by
    simp [load, Loaded.value] at h
termination_by _ v => sizeOf v
decreasing_by exact hdown.sizeOf_lt

/-! ## Other resolvers -/

/-- Loads with the first resolver end as those with the second, unless a circle stops them. -/
def Resolver.EndsAs (R S : Resolver) : Prop := ∀ name v, (load R name v).EndsAs (load S name v)

section
variable {R S : Resolver}

theorem Loads.mono (h : R.EndsAs S)
    {entries : List (String × Json)} (hR : Loads R entries) : Loads S entries := by
  intro m hm
  obtain ⟨node, hnode⟩ := hR m hm
  exact ⟨node, (h m.1 m.2).of_ok hnode⟩

theorem GoesDown.mono (h : R.EndsAs S) {k : String}
    (hR : GoesDown R name props k v) : GoesDown S name props k v := by
  cases hR with
  | items hd hv => exact .items hd hv
  | keys hd hv => exact .keys hd hv
  | values hd hw hkey hv => exact .values hd hw ((h _ _).of_ok hkey) hv
  | field hd hv hfront => exact .field hd hv (hfront.mono h)

theorem AsksHere.mono (h : R.EndsAs S) {asked : String}
    (hR : AsksHere R name props asked site) : AsksHere S name props asked site := by
  cases hR with
  | entry hd => exact .entry hd
  | items hd hnone href => exact .items hd hnone href
  | values hd hw hkey hnone href => exact .values hd hw ((h _ _).of_ok hkey) hnone href

/-- What a load asks for that circles can stop is asked for as well where they cannot. -/
theorem Asks.mono (h : R.EndsAs S) {asked : String}
    (hR : Asks R name v asked site) : Asks S name v asked site := by
  induction hR with
  | here hhere => exact .here (hhere.mono h)
  | inside hdown _ ih => exact .inside (hdown.mono h) ih

/-- Entries that load elsewhere load here, or a circle stops one of them. -/
theorem Loads.or_cyclic (h : R.EndsAs S) :
    ∀ {entries : List (String × Json)}, Loads S entries → Loads R entries ∨
      ∃ front k v rest, entries = front ++ (k, v) :: rest ∧ Loads R front ∧ (load R k v).Cyclic
  | [], _ => Or.inl loads_nil
  | (k, v) :: rest, hS => by
    obtain ⟨⟨node, hnode⟩, hrest⟩ := List.forall_mem_cons.mp hS
    rcases h k v with hcyclic | heq
    · exact Or.inr ⟨[], k, v, rest, rfl, loads_nil, hcyclic⟩
    · have hnode' : ∃ node, (load R k v).result = .ok node := ⟨node, heq.trans hnode⟩
      obtain hR | ⟨front, k', v', behind, rfl, hR, hcyclic⟩ := Loads.or_cyclic h hrest
      · exact Or.inl (List.forall_mem_cons.mpr ⟨hnode', hR⟩)
      · exact Or.inr ⟨(k, v) :: front, k', v', behind, rfl,
          List.forall_mem_cons.mpr ⟨hnode', hR⟩, hcyclic⟩

/-- An entry below which a circle stops the load is stopped as well. -/
theorem GoesDown.cyclic {k : String} (h : GoesDown R name props k v)
    (hcyclic : (load R k v).Cyclic) : (load R name (.object props)).Cyclic := by
  obtain ⟨chain, hchain⟩ := hcyclic
  exact ⟨chain, h.fails hchain⟩

/-- The keys of a dictionary load if they do so elsewhere and no circle stops the dictionary. -/
theorem keys_of_endsAs (h : R.EndsAs S)
    (hnot : ¬ (load R name (.object props)).Cyclic) (hd : declaration name props = .dictionary)
    {w : Json} (hw : List.lookup "keys" props = some w) {node : Node}
    (hkey : (load S "keys" w).result = .ok (some node)) :
    (load R "keys" w).result = .ok (some node) := by
  rcases h "keys" w with hcyclic | heq
  · exact absurd (GoesDown.cyclic (.keys hd hw) hcyclic) hnot
  · exact heq.trans hkey

theorem GoesDown.of_endsAs (h : R.EndsAs S)
    (hnot : ¬ (load R name (.object props)).Cyclic) {k : String}
    (hS : GoesDown S name props k v) : GoesDown R name props k v := by
  cases hS with
  | items hd hv => exact .items hd hv
  | keys hd hv => exact .keys hd hv
  | values hd hw hkey hv => exact .values hd hw (keys_of_endsAs h hnot hd hw hkey) hv
  | @field _ _ front rest hd hv hfront =>
    obtain hR | ⟨front', k', v', behind, rfl, hR, hcyclic⟩ := hfront.or_cyclic h
    · exact .field hd hv hR
    · rw [List.append_assoc, List.cons_append] at hv
      exact absurd (GoesDown.cyclic (.field hd hv hR) hcyclic) hnot

theorem AsksHere.of_endsAs (h : R.EndsAs S)
    (hnot : ¬ (load R name (.object props)).Cyclic) {asked : String}
    (hS : AsksHere S name props asked site) : AsksHere R name props asked site := by
  cases hS with
  | entry hd => exact .entry hd
  | items hd hnone href => exact .items hd hnone href
  | values hd hw hkey hnone href =>
    exact .values hd hw (keys_of_endsAs h hnot hd hw hkey) hnone href

/-- **A load that no circle stops asks for all that it asks for elsewhere.** -/
theorem Asks.of_endsAs (h : R.EndsAs S) {asked : String}
    (hS : Asks S name v asked site) (hnot : ¬ (load R name v).Cyclic) :
    Asks R name v asked site := by
  induction hS with
  | here hhere => exact .here (hhere.of_endsAs h hnot)
  | inside hdown _ ih =>
    have hdown := hdown.of_endsAs h hnot
    exact .inside hdown (ih fun hcyclic => hnot (hdown.cyclic hcyclic))

end

/-! ## References met -/

theorem AsksHere.reference_mem {asked s : String} (h : AsksHere resolve name props asked site)
    (hs : List.lookup "$ref" site = some (.string s)) : s ∈ (Json.object props).references := by
  cases h with
  | entry _ => exact Json.reference_of_mem (Json.mem_of_lookup hs)
  | items _ _ _ =>
    rw [lookup_referenceOnly] at hs
    exact Json.reference_of_mem (Json.mem_of_lookup hs)
  | values _ _ _ _ _ =>
    rw [lookup_referenceOnly] at hs
    exact Json.reference_of_mem (Json.mem_of_lookup hs)

theorem GoesDown.references_subset {k : String} (h : GoesDown resolve name props k v) :
    v.references ⊆ (Json.object props).references := by
  cases h with
  | items _ hv => exact Json.references_of_mem (Json.mem_of_lookup hv)
  | keys _ hv => exact Json.references_of_mem (Json.mem_of_lookup hv)
  | values _ _ _ hv => exact Json.references_of_mem (Json.mem_of_lookup hv)
  | @field _ _ front rest _ hv _ =>
    have hmem : (k, v) ∈ front ++ (k, v) :: rest := by simp
    exact List.Subset.trans (Json.references_of_mem hmem)
      (Json.references_of_mem (Json.mem_of_lookup hv))

/-- The references that a load asks for are references of the entry. -/
theorem Asks.reference_mem {asked s : String} (h : Asks resolve name v asked site)
    (hs : List.lookup "$ref" site = some (.string s)) : s ∈ v.references := by
  induction h with
  | here hhere => exact hhere.reference_mem hs
  | inside hdown _ ih => exact hdown.references_subset (ih hs)

/-- A reference is met while an entry is loaded. -/
def Meets (document : Json) (name : String) (v : Json) (reference : String) : Prop :=
  ∃ asked site, Asks (resolveIn document) name v asked site ∧
    List.lookup "$ref" site = some (.string reference)

/-- A reference leads to those that are met while its target is loaded. -/
def Leads (document : Json) (r s : String) : Prop :=
  ∃ key target, Pointer.resolve document r = .ok (key, target) ∧ Meets document key target s

/-- The last of some references is also among those in front of it. -/
def ComesBack (chain : List String) : Prop := ∃ front last, chain = front ++ [last] ∧ last ∈ front

variable {document : Json} {levels : Nat} {resolving chain : List String}

/-! ## The chain of a circle -/

/-- What stands behind a circle that a resolver reports. -/
theorem resolver_cyclic
    (h : (resolver document (levels + 1) resolving name site).result =
      .error (.cyclicReference chain)) :
    ∃ reference key target, List.lookup "$ref" site = some (.string reference) ∧
      Pointer.resolve document reference = .ok (key, target) ∧
      (reference ∈ resolving ∧ chain = resolving ++ [reference] ∨
        reference ∉ resolving ∧
          (load (resolver document levels (resolving ++ [reference])) key target).result =
            .error (.cyclicReference chain)) := by
  rw [resolver] at h
  cases hl : List.lookup "$ref" site with
  | none => simp [hl, Loaded.fail] at h
  | some v =>
    cases v with
    | string reference =>
      simp only [hl] at h
      obtain h | ⟨⟨key, target⟩, hfound, h⟩ := Loaded.bind_eq_error.mp h
      · exact absurd (Pointer.resolve_fails document reference _ h) id
      · refine ⟨reference, key, target, rfl, hfound, ?_⟩
        by_cases hin : reference ∈ resolving
        · simp only [List.contains_eq_mem, decide_eq_true hin, if_true] at h
          obtain rfl := SchemaError.cyclicReference.inj (Except.error.inj h)
          exact Or.inl ⟨hin, rfl⟩
        · simp only [List.contains_eq_mem, decide_eq_false hin] at h
          refine Or.inr ⟨hin, ?_⟩
          obtain h | ⟨node, -, h⟩ := Loaded.bind_eq_error.mp h
          · exact h
          · cases node with
            | none => cases h
            | some m => exact absurd ((m.atSite_fails name site).map some _ h) id
    | _ => simp [hl, Loaded.fail] at h

/-- What a load behind some references meets, it meets by itself. -/
theorem meets_of_asks {asked s : String} (hlevels : levels ≤ Entry.levels document)
    (h : Asks (resolver document levels resolving) name v asked site)
    (hs : List.lookup "$ref" site = some (.string s)) : Meets document name v s :=
  ⟨asked, site, h.mono (load_endsAs hlevels (List.nil_subset _)), hs⟩

/-- **The chain of a circle**: behind the references being resolved come those that lead from the
one of the site to one that is there already. -/
theorem resolver_chain : ∀ {levels : Nat} {resolving : List String} {name : String} {site : Props}
    {chain : List String}, levels ≤ Entry.levels document →
      (∀ reference, List.lookup "$ref" site = some (.string reference) → reference ∉ resolving →
        (unmet document.references (resolving ++ [reference])).length < levels) →
      (resolver document (levels + 1) resolving name site).result =
        .error (.cyclicReference chain) →
      ∃ reference more, List.lookup "$ref" site = some (.string reference) ∧
        chain = resolving ++ reference :: more ∧ (reference :: more).IsChain (Leads document) ∧
        ComesBack chain
  | levels, resolving, name, site, chain, hlevels, hfewer, h => by
    obtain ⟨reference, key, target, hl, hfound, ⟨hin, rfl⟩ | ⟨hnot, h⟩⟩ := resolver_cyclic h
    · exact ⟨reference, [], hl, rfl, .singleton reference, resolving, reference, rfl, hin⟩
    · obtain ⟨below, rfl⟩ : ∃ below, levels = below + 1 :=
        Nat.exists_eq_add_one_of_ne_zero (Nat.ne_zero_of_lt (hfewer reference hl hnot))
      obtain hreading | ⟨asked, next, hasks, h⟩ := load_error h
      · exact absurd hreading id
      · have hbelow : below ≤ Entry.levels document := by omega
        have hless : ∀ s, List.lookup "$ref" next = some (.string s) →
            s ∉ resolving ++ [reference] →
              (unmet document.references (resolving ++ [reference] ++ [s])).length < below := by
          intro s hs hnew
          have hmem := Pointer.references_of_resolve hfound (hasks.reference_mem hs)
          have hstep := length_unmet_append_lt hmem hnew
          have henough := hfewer reference hl hnot
          omega
        obtain ⟨s, more, hs, rfl, hchain, hback⟩ := resolver_chain hbelow hless h
        have hleads : Leads document reference s :=
          ⟨key, target, hfound, meets_of_asks hlevels hasks hs⟩
        exact ⟨reference, s :: more, hl, by simp, hchain.cons_cons hleads, hback⟩

/-- **The chain that a load reports** begins with a reference that the load meets. -/
theorem loadIn_chain (h : (loadIn document name v).result = .error (.cyclicReference chain)) :
    ∃ first more, chain = first :: more ∧ Meets document name v first ∧
      chain.IsChain (Leads document) ∧ ComesBack chain := by
  obtain hreading | ⟨asked, site, hasks, h⟩ := load_error h
  · exact absurd hreading id
  · have hfewer : ∀ s, List.lookup "$ref" site = some (.string s) → s ∉ ([] : List String) →
        (unmet document.references ([] ++ [s])).length < document.references.length + 1 :=
      fun s _ _ => Nat.lt_succ_of_le (List.length_filter_le _ _)
    obtain ⟨first, more, hl, rfl, hchain, hback⟩ :=
      resolver_chain (Nat.le_succ (document.references.length + 1)) hfewer h
    exact ⟨first, more, rfl, ⟨asked, site, hasks, hl⟩, hchain, hback⟩

/-- In a chain of references each leads to those behind it. -/
theorem pairwise_of_isChain {R : String → String → Prop} (h : chain.IsChain R) :
    chain.Pairwise (TransGen R) :=
  (h.imp fun _ _ => TransGen.single).pairwise

theorem transGen_of_comesBack {R : String → String → Prop} {front : List String} {last : String}
    (h : (front ++ [last]).IsChain R) (hlast : last ∈ front) : TransGen R last last :=
  (List.pairwise_append.mp (pairwise_of_isChain h)).2.2 last hlast last List.mem_cons_self

/-! ## Circles stop loads -/

/-- While references are being resolved, the target of a reference is loaded and no circle stops it.
-/
def Unfolding (document : Json) (resolving : List String) (reference : String) : Prop :=
  ∃ levels key target, levels ≤ Entry.levels document ∧
    Pointer.resolve document reference = .ok (key, target) ∧
    ¬ (load (resolver document levels resolving) key target).Cyclic

/-- **A load that no circle stops follows each reference that it meets**, and the reference is new.
-/
theorem Unfolding.of_meets (hlevels : levels ≤ Entry.levels document)
    (hnot : ¬ (load (resolver document levels resolving) name v).Cyclic) {reference : String}
    (hmeets : Meets document name v reference) (hleads : ∃ s, Leads document reference s) :
    reference ∉ resolving ∧ Unfolding document (resolving ++ [reference]) reference := by
  obtain ⟨asked, site, hasks, hl⟩ := hmeets
  obtain ⟨-, key, target, hfound, -⟩ := hleads
  have hasks := hasks.of_endsAs (load_endsAs hlevels (List.nil_subset _)) hnot
  have hsite : ¬ (resolver document levels resolving asked site).Cyclic :=
    fun ⟨chain, hchain⟩ => hnot ⟨chain, hasks.fails hchain⟩
  cases levels with
  | zero => exact absurd ⟨resolving, rfl⟩ hsite
  | succ below =>
    simp only [resolver, hl, hfound, Loaded.lift_ok_bind] at hsite
    by_cases hin : reference ∈ resolving
    · simp only [List.contains_eq_mem, decide_eq_true hin, if_true] at hsite
      exact absurd ⟨resolving ++ [reference], rfl⟩ hsite
    · simp only [List.contains_eq_mem, decide_eq_false hin] at hsite
      exact ⟨hin, below, key, target, by omega, hfound, fun hcyclic => hsite (hcyclic.bind _)⟩

/-- One reference further down. -/
theorem Unfolding.of_leads {r s : String} (h : Unfolding document resolving r)
    (hleads : Leads document r s) (hs : ∃ t, Leads document s t) :
    s ∉ resolving ∧ Unfolding document (resolving ++ [s]) s := by
  obtain ⟨levels, key, target, hlevels, hfound, hnot⟩ := h
  obtain ⟨key', target', hfound', hmeets⟩ := hleads
  obtain ⟨rfl, rfl⟩ := Prod.mk.inj (Except.ok.inj (hfound.symm.trans hfound'))
  exact Unfolding.of_meets hlevels hnot hmeets hs

/-- **Down a path of references** every reference is new. -/
theorem Unfolding.of_path {r s : String} (h : Unfolding document resolving r)
    (hpath : TransGen (Leads document) r s) (hs : ∃ t, Leads document s t) :
    s ∉ resolving ∧ ∃ more, resolving ⊆ more ∧ s ∈ more ∧ Unfolding document more s := by
  induction hpath with
  | single hleads =>
    obtain ⟨hnew, hnext⟩ := h.of_leads hleads hs
    exact ⟨hnew, _, List.subset_append_left _ _, by simp, hnext⟩
  | tail _ hleads ih =>
    obtain ⟨-, more, hsub, -, hbetween⟩ := ih ⟨_, hleads⟩
    obtain ⟨hnew, hnext⟩ := hbetween.of_leads hleads hs
    exact ⟨fun hin => hnew (hsub hin), _, List.subset_append_of_subset_left _ hsub, by simp, hnext⟩

/-- A circle that a load leads to stops it. -/
theorem cyclic_of_circle {r s : String} (hr : Meets document name v r)
    (hpath : ReflTransGen (Leads document) r s) (hcircle : TransGen (Leads document) s s) :
    (loadIn document name v).Cyclic := by
  by_contra hnot
  have hpath : TransGen (Leads document) r s := TransGen.trans_right hpath hcircle
  have hleads : ∀ {a b : String}, TransGen (Leads document) a b → ∃ t, Leads document a t := by
    intro a b hab
    obtain ⟨t, ht, -⟩ := TransGen.head'_iff.mp hab
    exact ⟨t, ht⟩
  have hs := hleads hcircle
  obtain ⟨-, hfirst⟩ := Unfolding.of_meets (Nat.le_refl _) hnot hr (hleads hpath)
  obtain ⟨-, more, -, hin, hinside⟩ := hfirst.of_path hpath hs
  -- once around the circle, the reference is met again
  exact (hinside.of_path hcircle hs).1 hin

/-! ## The theorem -/

/-- **Loading ends, and reports exactly the circles that it meets.** Whatever answers below the
levels that a load starts with, it is never asked, so a load unfolds to the same result at any
greater depth. The chain of a reported circle begins with a reference that the load meets, each of
its references leads to the next one, and the last one is there before and leads back to itself. A
circle is reported if and only if a reference that the load meets leads to one that leads back to
itself. -/
theorem loadIn_circles (document : Json) (name : String) (v : Json) :
    (∀ below more, Entry.levels document ≤ more →
      load ((ask document)^[more] below []) name v = loadIn document name v) ∧
    (∀ chain, (loadIn document name v).result = .error (.cyclicReference chain) →
      chain.IsChain (Leads document) ∧ (∃ first ∈ chain.head?, Meets document name v first) ∧
        ∃ front last, chain = front ++ [last] ∧ last ∈ front ∧
          TransGen (Leads document) last last) ∧
    ((∃ chain, (loadIn document name v).result = .error (.cyclicReference chain)) ↔
      ∃ r s, Meets document name v r ∧ ReflTransGen (Leads document) r s ∧
        TransGen (Leads document) s s) := by
  refine ⟨fun below more hmore => ?_, fun chain h => ?_, fun ⟨chain, h⟩ => ?_, ?_⟩
  · have hsites : Resolver.Related (fun _ x y => x = y) (fun _ => True)
        ((ask document)^[more] below []) (resolveIn document) :=
      fun name site _ => iterate_levels hmore name site
    exact load_related Loaded.congruent_eq hsites name v fun _ _ => trivial
  · obtain ⟨first, more, hfirst, hmeets, hchain, front, last, rfl, hlast⟩ := loadIn_chain h
    refine ⟨hchain, ⟨first, by simp [hfirst], hmeets⟩, front, last, rfl, hlast, ?_⟩
    exact transGen_of_comesBack hchain hlast
  · obtain ⟨first, more, rfl, hmeets, hchain, front, last, heq, hlast⟩ := loadIn_chain h
    have hcircle : TransGen (Leads document) last last :=
      transGen_of_comesBack (heq ▸ hchain) hlast
    have hmem : last ∈ first :: more := by rw [heq]; simp
    refine ⟨first, last, hmeets, ?_, hcircle⟩
    rcases List.mem_cons.mp hmem with rfl | hmore
    · exact .refl
    · have hpath := (List.pairwise_cons.mp (pairwise_of_isChain hchain)).1 last hmore
      exact hpath.to_reflTransGen
  · rintro ⟨r, s, hr, hpath, hcircle⟩
    exact cyclic_of_circle hr hpath hcircle

end Entry

namespace Sample

/-- An employee has a team, and a team is a list of employees. -/
def staff : Json := .object [("types", .object
  [("Employee", .object [("type", .string "object"), ("properties", .object
      [("name", .object [("type", .string "string")]),
        ("team", .object [("$ref", .string "#/types/Team")])])]),
    ("Team", .object [("type", .string "array"), ("$ref", .string "#/types/Employee")])])]

end Sample

/-- The reference beside the type of the team is met as its item type, and leads back. -/
example : (match (Entry.loadIn Sample.staff "boss"
      (.object [("$ref", .string "#/types/Employee")])).result with
    | .error e => some e
    | .ok _ => none) =
      some (.cyclicReference ["#/types/Employee", "#/types/Team", "#/types/Employee"]) := by
  decide +kernel

end Schemata
