import Schemata.Proofs.Build.Loading

/-!
# How loading fails

Loading a section fails on wrong declarations and on references; circles among finished types are
found by a later stage, files and validation belong to earlier ones. Which errors a section can
raise, and what it can record, is seen step by step: `Loaded.Stepwise` says of a property that the
single steps of loading have it and that steps in a row pass it on. Reading what an entry says and
following a pointer never report a circle of references; only a resolver does.

Results:
* `loadSection_stepwise`: what the steps of loading have, loading a section has.
* `loadSection_fails`: the errors with which loading a section can fail.
-/

namespace Schemata

/-- The errors with which reading a declaration or following a pointer can fail. -/
def SchemaError.OfReading : SchemaError → Prop
  | .unsupportedReference _ | .unresolvedReference _ => True
  | .unresolvedItemType _ | .unresolvedKeyType _ | .unresolvedValueType _ => True
  | .malformedType _ _ => True
  | .cyclicReference _ | .invalidSection _ => False
  | .fileNotFound _ _ | .cyclicDependency _ | .validation _ | .io | .yaml => False

/-- The errors with which loading a section can fail. -/
def SchemaError.OfLoading : SchemaError → Prop
  | .cyclicReference _ | .invalidSection _ => True
  | e => e.OfReading

theorem SchemaError.OfReading.ofLoading {e : SchemaError} (h : e.OfReading) : e.OfLoading := by
  cases e with
  | cyclicReference chain => trivial
  | invalidSection name => trivial
  | _ => exact h

/-- A step fails, if at all, with an allowed error. -/
def FailsWith (allowed : SchemaError → Prop) {α : Type} (r : Except SchemaError α) : Prop :=
  ∀ e, r = .error e → allowed e

section
variable {allowed : SchemaError → Prop} {α β : Type}

@[simp] theorem failsWith_ok (a : α) : FailsWith allowed (.ok a) := fun _ h => by cases h

@[simp] theorem failsWith_pure (a : α) : FailsWith allowed (pure a) := failsWith_ok a

@[simp] theorem failsWith_error {e : SchemaError} :
    FailsWith allowed (.error e : Except SchemaError α) ↔ allowed e :=
  ⟨fun h => h e rfl, fun h _ heq => Except.error.inj heq ▸ h⟩

theorem FailsWith.bind {r : Except SchemaError α} {f : α → Except SchemaError β}
    (h : FailsWith allowed r) (hstep : ∀ a, FailsWith allowed (f a)) :
    FailsWith allowed (r >>= f) := by
  cases r with
  | error e => exact fun e' he => h e' (by simpa [Bind.bind, Except.bind] using he)
  | ok a => exact hstep a

theorem FailsWith.map {r : Except SchemaError α} (h : FailsWith allowed r) (f : α → β) :
    FailsWith allowed (r.map f) := by
  cases r with
  | error e => exact fun e' he => h e' (by simpa [Except.map] using he)
  | ok a => exact failsWith_ok (f a)

theorem FailsWith.mapM {f : α → Except SchemaError β} (h : ∀ a, FailsWith allowed (f a)) :
    ∀ as : List α, FailsWith allowed (as.mapM f)
  | [] => failsWith_ok []
  | a :: as => by
    rw [List.mapM_cons]
    exact (h a).bind fun b => (FailsWith.mapM h as).bind fun bs => failsWith_pure (b :: bs)

/-- A load followed by another fails as one of them. -/
theorem FailsWith.andThen {x : Loaded α} {f : α → Loaded β} (h : FailsWith allowed x.result)
    (hstep : ∀ a, FailsWith allowed (f a).result) : FailsWith allowed (x >>= f).result := by
  rw [Loaded.result_bind]
  exact h.bind hstep

end

/-- A step that reads fails, if at all, as reading does. -/
abbrev FailsReading {α : Type} (r : Except SchemaError α) : Prop :=
  FailsWith SchemaError.OfReading r

/-! ## Step by step -/

/-- A property of loads that the single steps have and that steps in a row pass on. -/
structure Loaded.Stepwise (P : (α : Type) → Loaded α → Prop) : Prop where
  /-- A value. -/
  value : ∀ {α : Type} (a : α), P α (Loaded.value a)
  /-- A step without diagnostics that fails, if at all, as reading does. -/
  lift : ∀ {α : Type} {r : Except SchemaError α}, FailsReading r → P α (Loaded.lift r)
  /-- A reference that leads back to one that is being resolved. -/
  cyclic : ∀ {α : Type} (chain : List String), P α (Loaded.fail (.cyclicReference chain))
  /-- A section of the wrong form. -/
  invalid : ∀ {α : Type} (name : String), P α (Loaded.fail (.invalidSection name))
  /-- An entry that is left out. -/
  ignored : ∀ place name : String, P Unit (Loaded.record (.ignored place name))
  /-- Two steps in a row. -/
  andThen : ∀ {α β : Type} {x : Loaded α} {f : α → Loaded β},
    P α x → (∀ a, P β (f a)) → P β (x >>= f)

theorem Loaded.Stepwise.fail {P : (α : Type) → Loaded α → Prop} (hP : Loaded.Stepwise P)
    {α : Type} {e : SchemaError} (he : e.OfReading) : P α (Loaded.fail e) :=
  hP.lift (failsWith_error.mpr he)

/-- Failing, if at all, with an error of loading. -/
theorem failsLoading_stepwise :
    Loaded.Stepwise fun _ x => FailsWith SchemaError.OfLoading x.result where
  value := failsWith_ok
  lift h := fun e he => (h e he).ofLoading
  cyclic _ := failsWith_error.mpr trivial
  invalid _ := failsWith_error.mpr trivial
  ignored _ _ := failsWith_ok ()
  andThen := FailsWith.andThen

/-! ## Properties -/

namespace Props

variable (props : Props) (name key : String)

theorem number?_fails : FailsReading (props.number? name key) := by
  unfold number?
  split <;> simp [SchemaError.OfReading]

theorem count?_fails : FailsReading (props.count? name key) := by
  unfold count?
  split
  · simp
  · split <;> simp [SchemaError.OfReading]

theorem countOr?_fails (fallback : String) : FailsReading (props.countOr? name key fallback) := by
  refine (props.count?_fails name key).bind fun n => ?_
  split
  · exact failsWith_pure _
  · exact props.count?_fails name fallback

theorem base?_fails : FailsReading (props.base? name) := by
  refine (props.count?_fails name "base").bind fun n => ?_
  split
  · exact failsWith_pure _
  · split <;> simp [SchemaError.OfReading]

theorem text?_fails : FailsReading (props.text? name key) := by
  unfold text?
  split <;> simp [SchemaError.OfReading]

theorem xml_fails : FailsReading (props.xml name) := by
  unfold xml
  split <;> simp [SchemaError.OfReading]

end Props

/-! ## Leaves and overrides -/

namespace Leaf

theorem literal_fails (name : String) (v : Json) : FailsReading (literal name v) := by
  cases v <;> simp [literal, SchemaError.OfReading]

variable (name : String) (props : Props)

theorem integerOf_fails : FailsReading (integerOf name props) :=
  (props.base?_fails name).bind fun _ => (props.number?_fails name _).bind fun _ =>
    (props.number?_fails name _).bind fun _ => failsWith_pure _

theorem floatOf_fails : FailsReading (floatOf name props) :=
  (props.number?_fails name _).bind fun _ => (props.number?_fails name _).bind fun _ =>
    failsWith_pure _

theorem stringOf_fails : FailsReading (stringOf name props) :=
  (props.text?_fails name _).bind fun _ => (props.count?_fails name _).bind fun _ =>
    (props.count?_fails name _).bind fun _ => failsWith_pure _

theorem enumOf_fails (base : Tag) : FailsReading (enumOf name base props) := by
  unfold enumOf
  split
  · exact (FailsWith.mapM (literal_fails name) _).bind fun _ => failsWith_pure _
  · simp [SchemaError.OfReading]

theorem override_fails (site : Props) (leaf : Leaf) : FailsReading (leaf.override name site) := by
  cases leaf with
  | integer s =>
    exact (site.base?_fails name).bind fun _ => (site.number?_fails name _).bind fun _ =>
      (site.number?_fails name _).bind fun _ => failsWith_pure _
  | float s =>
    exact (site.number?_fails name _).bind fun _ => (site.number?_fails name _).bind fun _ =>
      failsWith_pure _
  | boolean d => exact failsWith_ok _
  | string s =>
    exact (site.text?_fails name _).bind fun _ => (site.count?_fails name _).bind fun _ =>
      (site.count?_fails name _).bind fun _ => failsWith_pure _
  | enum s => exact failsWith_ok _

end Leaf

theorem Kind.override_fails (name : String) (site : Props) (k : Kind) :
    FailsReading (k.override name site) := by
  cases k with
  | leaf spec => exact (spec.override_fails name site).map _
  | array item s =>
    exact (site.countOr?_fails name _ _).bind fun _ => (site.countOr?_fails name _ _).bind fun _ =>
      failsWith_pure _
  | dictionary key value d => exact failsWith_ok _
  | object fields d => exact failsWith_ok _

theorem Node.atSite_fails (name : String) (site : Props) (n : Node) :
    FailsReading (n.atSite name site) := by
  refine (site.text?_fails name _).bind fun _ => ?_
  split
  · exact (site.xml_fails name).bind fun _ => (n.kind.override_fails name site).bind fun _ =>
      failsWith_pure _
  · exact (failsWith_ok _).bind fun _ => (n.kind.override_fails name site).bind fun _ =>
      failsWith_pure _

theorem Pointer.resolve_fails (document : Json) (reference : String) :
    FailsReading (Pointer.resolve document reference) := by
  unfold Pointer.resolve
  split
  · simp only
    split <;> simp [SchemaError.OfReading]
  · simp [SchemaError.OfReading]

/-! ## Entries -/

namespace Entry

theorem finish_fails (name : String) (tag : Tag) (props : Props) (kind : Kind) :
    FailsReading (finish name tag props kind) :=
  (props.text?_fails name _).bind fun _ => (props.xml_fails name).bind fun _ => failsWith_pure _

theorem arrayOf_fails (name : String) (props : Props) (item : Option Node) :
    FailsReading (arrayOf name props item) := by
  cases item with
  | none => simp [arrayOf, SchemaError.OfReading]
  | some item =>
    exact (props.text?_fails name _).bind fun _ => (props.countOr?_fails name _ _).bind fun _ =>
      (props.countOr?_fails name _ _).bind fun _ => failsWith_pure _

theorem leafDeclaration_fails {name : String} {tag found : Tag} {props : Props}
    {spec : Except SchemaError Leaf} (h : leafDeclaration name tag props = .leaf found spec) :
    FailsReading spec := by
  unfold leafDeclaration at h
  split at h
  · obtain ⟨-, rfl⟩ := Declaration.leaf.inj h
    exact Leaf.enumOf_fails name props tag
  · split at h <;> obtain ⟨-, rfl⟩ := Declaration.leaf.inj h
    · exact Leaf.integerOf_fails name props
    · exact Leaf.integerOf_fails name props
    · exact Leaf.floatOf_fails name props
    · exact Leaf.floatOf_fails name props
    · exact failsWith_ok _
    · exact Leaf.stringOf_fails name props

theorem declaration_fails {name : String} {tag : Tag} {props : Props}
    {spec : Except SchemaError Leaf} (h : declaration name props = .leaf tag spec) :
    FailsReading spec := by
  unfold declaration at h
  split at h
  · split at h <;> cases h
  · split at h
    · cases h
    · cases h
    · cases h
    · exact leafDeclaration_fails h
    · split at h <;> cases h

section
variable {P : (α : Type) → Loaded α → Prop} {resolve : Resolver}

theorem memberOr_stepwise (hP : Loaded.Stepwise P) (hR : ∀ name site, P _ (resolve name site))
    (props : Props) (key : String) {member : Loaded (Option Node)} (h : P _ member) :
    P _ (memberOr resolve props key member) := by
  unfold memberOr
  split
  · exact h
  · split
    · exact hR key _
    · exact hP.value none

mutual
/-- **What the steps of loading have, loading an entry has**, given that the resolver has it. -/
theorem load_stepwise (hP : Loaded.Stepwise P) (hR : ∀ name site, P _ (resolve name site))
    (name : String) : ∀ v : Json, P _ (load resolve name v)
  | .object props => by
    rw [load]
    cases hd : declaration name props with
    | nothing => exact hP.value none
    | reference => exact hP.andThen (hR name props) fun _ => hP.value _
    | unrecognized found => exact hP.fail trivial
    | leaf tag spec =>
      exact hP.andThen (hP.lift (declaration_fails hd)) fun _ =>
        hP.lift (finish_fails name tag props _)
    | array =>
      have hitem := memberOr_stepwise hP hR props "items" (loadMember_stepwise hP hR "items" props)
      exact hP.andThen hitem fun item => hP.andThen (hP.lift (arrayOf_fails name props item))
        fun _ => hP.lift (finish_fails name .array props _)
    | dictionary =>
      refine hP.andThen (loadMember_stepwise hP hR "keys" props) fun key => ?_
      cases key with
      | none => exact hP.fail trivial
      | some key =>
        have hvalue :=
          memberOr_stepwise hP hR props "values" (loadMember_stepwise hP hR "values" props)
        refine hP.andThen hvalue fun value => ?_
        cases value with
        | none => exact hP.fail trivial
        | some value => exact hP.lift (finish_fails name .dict props _)
    | object =>
      exact hP.andThen (loadProperties_stepwise hP hR name _ props) fun _ =>
        hP.lift (finish_fails name .object props _)
  | .null | .bool _ | .number _ | .string _ | .array _ => by
    simp only [load]
    exact hP.value none
theorem loadMember_stepwise (hP : Loaded.Stepwise P) (hR : ∀ name site, P _ (resolve name site))
    (key : String) : ∀ members : List (String × Json), P _ (loadMember resolve key members)
  | [] => by
    rw [loadMember]
    exact hP.value none
  | (k, v) :: rest => by
    rw [loadMember]
    split
    · exact load_stepwise hP hR key v
    · exact loadMember_stepwise hP hR key rest
theorem loadProperties_stepwise (hP : Loaded.Stepwise P)
    (hR : ∀ name site, P _ (resolve name site)) (name : String) (required : List String) :
    ∀ members : List (String × Json), P _ (loadProperties resolve name required members)
  | [] => by
    rw [loadProperties]
    exact hP.value []
  | (k, .object entries) :: rest => by
    rw [loadProperties]
    split
    · exact loadFields_stepwise hP hR name required entries
    · exact loadProperties_stepwise hP hR name required rest
  | (k, .null) :: rest => by
    rw [loadProperties]
    split
    · exact hP.value []
    · exact loadProperties_stepwise hP hR name required rest
  | (k, .bool _) :: rest | (k, .number _) :: rest | (k, .string _) :: rest
  | (k, .array _) :: rest => by
    simp only [loadProperties]
    split
    · exact hP.fail trivial
    · exact loadProperties_stepwise hP hR name required rest
theorem loadFields_stepwise (hP : Loaded.Stepwise P) (hR : ∀ name site, P _ (resolve name site))
    (name : String) (required : List String) :
    ∀ members : List (String × Json), P _ (loadFields resolve name required members)
  | [] => by
    rw [loadFields]
    exact hP.value []
  | (k, v) :: rest => by
    have hrest := loadFields_stepwise hP hR name required rest
    rw [loadFields]
    refine hP.andThen (load_stepwise hP hR k v) fun node => ?_
    cases node with
    | none => exact hP.andThen (hP.ignored _ k) fun _ => hrest
    | some type => exact hP.andThen hrest fun _ => hP.value _
end

theorem resolver_stepwise (hP : Loaded.Stepwise P) (document : Json) :
    ∀ (levels : Nat) (resolving : List String) (name : String) (site : Props),
      P _ (resolver document levels resolving name site)
  | 0, resolving, _, _ => hP.cyclic resolving
  | levels + 1, resolving, name, site => by
    rw [resolver]
    cases hl : List.lookup "$ref" site with
    | none =>
      simp only [hl]
      exact hP.fail trivial
    | some v =>
      cases v with
      | string reference =>
        simp only [hl]
        refine hP.andThen (hP.lift (Pointer.resolve_fails document reference)) fun found => ?_
        obtain ⟨key, target⟩ := found
        simp only
        split
        · exact hP.cyclic _
        · have hR := resolver_stepwise hP document levels (resolving ++ [reference])
          refine hP.andThen (load_stepwise hP hR key target) fun node => ?_
          cases node with
          | none => exact hP.value none
          | some m => exact hP.lift ((m.atSite_fails name site).map some)
      | _ =>
        simp only [hl]
        exact hP.fail trivial

theorem loadEntries_stepwise (hP : Loaded.Stepwise P) (document : Json) (name : String) :
    ∀ entries : List (String × Json), P _ (loadEntries document name entries)
  | [] => hP.value []
  | (k, v) :: rest => by
    have hrest := loadEntries_stepwise hP document name rest
    rw [loadEntries]
    refine hP.andThen (load_stepwise hP (resolver_stepwise hP document _ []) k v) fun node => ?_
    cases node with
    | none => exact hP.andThen (hP.ignored name k) fun _ => hrest
    | some n => exact hP.andThen hrest fun _ => hP.value _

/-- **What the steps of loading have, loading a section has.** -/
theorem loadSection_stepwise (hP : Loaded.Stepwise P) (document : Json) (name : String) :
    P _ (loadSection document name) := by
  unfold loadSection
  split
  · exact hP.value []
  · exact hP.value []
  · exact loadEntries_stepwise hP document name _
  · exact hP.invalid name

end

/-- **The errors with which loading a section can fail.** -/
theorem loadSection_fails (document : Json) (name : String) :
    FailsWith SchemaError.OfLoading (loadSection document name).result :=
  loadSection_stepwise failsLoading_stepwise document name

end Entry

end Schemata
