import Schemata.Proofs.Build.Loading

/-!
# Two loads of one entry

Two loads of an entry take the same steps until one of them meets a reference, so they are related
in any way in which equal loads are, in which steps in a row are when the steps are, and in which
what the two resolvers answer is.

A resolver fails when it runs into a reference that is being resolved already, and which references
are being resolved depends on the way that led to an entry. It makes no other difference: unless a
circle stops it, a load ends as it does while fewer references are being resolved, and two loads of
an entry that both succeed come to the same node.

Results:
* `load_related`: loads with related resolvers are related.
* `load_endsAs`: a load ends as it does with fewer references being resolved and with more levels.
* `load_agree`: loads of one entry of a document agree.
-/

namespace Schemata

namespace Loaded

variable {α β : Type}

/-- A relation in which equal loads are, and steps in a row when the steps are. -/
structure Congruent (Q : (α : Type) → Loaded α → Loaded α → Prop) : Prop where
  /-- A load and itself. -/
  refl : ∀ {α : Type} (x : Loaded α), Q α x x
  /-- Two steps in a row. -/
  bind : ∀ {α β : Type} {x y : Loaded α} {f g : α → Loaded β},
    Q α x y → (∀ a, Q β (f a) (g a)) → Q β (x >>= f) (y >>= g)

/-- Equal loads are followed by the same step. -/
theorem congruent_eq : Congruent fun _ x y => x = y where
  refl _ := rfl
  bind h hstep := by
    rw [h, funext hstep]

/-- A circle among references stops the load. -/
def Cyclic (x : Loaded α) : Prop := ∃ chain, x.result = .error (.cyclicReference chain)

/-- The first load ends as the second one, unless a circle stops it. -/
def EndsAs (x y : Loaded α) : Prop := x.Cyclic ∨ x.result = y.result

theorem EndsAs.of_ok {x y : Loaded α} {a : α} (h : x.EndsAs y) (ha : x.result = .ok a) :
    y.result = .ok a := by
  rcases h with ⟨chain, hx⟩ | hxy
  · rw [ha] at hx
    cases hx
  · rw [← hxy, ha]

/-- A step behind a load that a circle stopped is not taken. -/
theorem Cyclic.bind {x : Loaded α} (h : x.Cyclic) (f : α → Loaded β) : (x >>= f).Cyclic := by
  obtain ⟨chain, hx⟩ := h
  exact ⟨chain, by rw [result_bind, hx]; rfl⟩

theorem congruent_endsAs : Congruent fun _ x y => x.EndsAs y where
  refl _ := Or.inr rfl
  bind := by
    intro α β x y f g h hstep
    rcases h with hcyclic | heq
    · exact Or.inl (hcyclic.bind f)
    · unfold EndsAs Cyclic
      simp only [result_bind, ← heq]
      cases x.result with
      | error e => exact Or.inr rfl
      | ok a => exact hstep a

end Loaded

namespace Entry

/-- Two resolvers are related at every site with an allowed reference. -/
def Resolver.Related (Q : (α : Type) → Loaded α → Loaded α → Prop) (allowed : String → Prop)
    (R S : Resolver) : Prop :=
  ∀ (name : String) (site : Props),
    (∀ s, List.lookup "$ref" site = some (.string s) → allowed s) →
      Q (Option Node) (R name site) (S name site)

section
variable {Q : (α : Type) → Loaded α → Loaded α → Prop} {allowed : String → Prop} {R S : Resolver}

theorem memberOr_related (hQ : Loaded.Congruent Q) (h : R.Related Q allowed S) {props : Props}
    (hsite : ∀ s, List.lookup "$ref" props = some (.string s) → allowed s) (key : String)
    {x y : Loaded (Option Node)} (hxy : Q _ x y) :
    Q _ (memberOr R props key x) (memberOr S props key y) := by
  unfold memberOr
  split
  · exact hxy
  · split
    · exact h key props.referenceOnly (by rwa [lookup_referenceOnly])
    · exact hQ.refl _

mutual
/-- **Loads with related resolvers are related**, of an entry whose references are allowed. -/
theorem load_related (hQ : Loaded.Congruent Q) (h : R.Related Q allowed S) (name : String) :
    ∀ v : Json, (∀ s ∈ v.references, allowed s) → Q _ (load R name v) (load S name v)
  | .object props, hv => by
    have hsite := allowed_site hv
    rw [load, load]
    cases declaration name props with
    | reference => exact hQ.bind (h name props hsite) fun _ => hQ.refl _
    | array =>
      have hitem := memberOr_related hQ h hsite "items" (loadMember_related hQ h "items" props hv)
      exact hQ.bind hitem fun _ => hQ.refl _
    | dictionary =>
      refine hQ.bind (loadMember_related hQ h "keys" props hv) fun key => ?_
      cases key with
      | none => exact hQ.refl _
      | some key =>
        have hvalue :=
          memberOr_related hQ h hsite "values" (loadMember_related hQ h "values" props hv)
        exact hQ.bind hvalue fun _ => hQ.refl _
    | object =>
      exact hQ.bind (loadProperties_related hQ h name (Props.requiredNames props) props hv)
        fun _ => hQ.refl _
    | _ => exact hQ.refl _
  | .null, _ | .bool _, _ | .number _, _ | .string _, _ | .array _, _ => by
    simp only [load]
    exact hQ.refl _
theorem loadMember_related (hQ : Loaded.Congruent Q) (h : R.Related Q allowed S) (key : String) :
    ∀ members : List (String × Json), (∀ s ∈ Json.referencesUnder members, allowed s) →
      Q _ (loadMember R key members) (loadMember S key members)
  | [], _ => by
    rw [loadMember, loadMember]
    exact hQ.refl _
  | (k, v) :: rest, hv => by
    rw [loadMember, loadMember]
    split
    · exact load_related hQ h key v
        fun s hs => hv s (Json.references_of_mem List.mem_cons_self hs)
    · exact loadMember_related hQ h key rest
        fun s hs => hv s (Json.mem_referencesUnder_cons.mpr (Or.inr (Or.inr hs)))
theorem loadProperties_related (hQ : Loaded.Congruent Q) (h : R.Related Q allowed S)
    (name : String) (required : List String) :
    ∀ members : List (String × Json), (∀ s ∈ Json.referencesUnder members, allowed s) →
      Q _ (loadProperties R name required members) (loadProperties S name required members)
  | [], _ => by
    rw [loadProperties, loadProperties]
    exact hQ.refl _
  | (k, .object entries) :: rest, hv => by
    rw [loadProperties, loadProperties]
    split
    · exact loadFields_related hQ h name required entries
        fun s hs => hv s (Json.references_of_mem List.mem_cons_self hs)
    · exact loadProperties_related hQ h name required rest
        fun s hs => hv s (Json.mem_referencesUnder_cons.mpr (Or.inr (Or.inr hs)))
  | (k, .null) :: rest, hv | (k, .bool _) :: rest, hv | (k, .number _) :: rest, hv
  | (k, .string _) :: rest, hv | (k, .array _) :: rest, hv => by
    simp only [loadProperties]
    split
    · exact hQ.refl _
    · exact loadProperties_related hQ h name required rest
        fun s hs => hv s (Json.mem_referencesUnder_cons.mpr (Or.inr (Or.inr hs)))
theorem loadFields_related (hQ : Loaded.Congruent Q) (h : R.Related Q allowed S)
    (name : String) (required : List String) :
    ∀ members : List (String × Json), (∀ s ∈ Json.referencesUnder members, allowed s) →
      Q _ (loadFields R name required members) (loadFields S name required members)
  | [], _ => by
    rw [loadFields, loadFields]
    exact hQ.refl _
  | (k, v) :: rest, hv => by
    have hfirst := load_related hQ h k v
      fun s hs => hv s (Json.references_of_mem List.mem_cons_self hs)
    have hrest := loadFields_related hQ h name required rest
      fun s hs => hv s (Json.mem_referencesUnder_cons.mpr (Or.inr (Or.inr hs)))
    rw [loadFields, loadFields]
    refine hQ.bind hfirst fun node => ?_
    cases node with
    | none => exact hQ.bind (hQ.refl _) fun _ => hrest
    | some type => exact hQ.bind hrest fun _ => hQ.refl _
end

end

/-! ## Loads that agree -/

/-- **What a resolver answers while references are being resolved** it also answers while there are
fewer, and with more levels, unless a circle stops it. -/
theorem resolver_endsAs (document : Json) : ∀ {levels levels' : Nat}
    {resolving resolving' : List String}, levels ≤ levels' → resolving' ⊆ resolving →
      (resolver document levels resolving).Related (fun _ x y => x.EndsAs y) (fun _ => True)
        (resolver document levels' resolving')
  | 0, _, _, _, _, _ => fun _ _ _ => Or.inl ⟨_, rfl⟩
  | levels + 1, 0, _, _, hlevels, _ => absurd hlevels (Nat.not_succ_le_zero levels)
  | levels + 1, levels' + 1, resolving, resolving', hlevels, hsub => by
    intro name site _
    simp only [resolver]
    cases hl : List.lookup "$ref" site with
    | none => exact Or.inr rfl
    | some v =>
      cases v with
      | string reference =>
        refine Loaded.congruent_endsAs.bind (Loaded.congruent_endsAs.refl _) fun found => ?_
        obtain ⟨key, target⟩ := found
        by_cases hin : reference ∈ resolving
        · exact Or.inl ⟨resolving ++ [reference], by simp [hin, Loaded.fail]⟩
        · have hin' : reference ∉ resolving' := fun hmem => hin (hsub hmem)
          have hmore : resolving' ++ [reference] ⊆ resolving ++ [reference] :=
            List.append_subset.mpr ⟨List.Subset.trans hsub (List.subset_append_left _ _),
              List.subset_append_right _ _⟩
          have hbelow := resolver_endsAs document (Nat.le_of_succ_le_succ hlevels) hmore
          have htarget := load_related Loaded.congruent_endsAs hbelow key target fun _ _ => trivial
          simp only [List.contains_eq_mem, decide_eq_false hin, decide_eq_false hin']
          exact Loaded.congruent_endsAs.bind htarget fun _ => Loaded.congruent_endsAs.refl _
      | _ => exact Or.inr rfl

variable {document : Json} {levels levels' : Nat} {resolving resolving' : List String}

/-- **A load ends as it does with fewer references being resolved** and with more levels, unless a
circle stops it. -/
theorem load_endsAs (hlevels : levels ≤ levels') (hsub : resolving' ⊆ resolving) (name : String)
    (v : Json) : (load (resolver document levels resolving) name v).EndsAs
      (load (resolver document levels' resolving') name v) :=
  load_related Loaded.congruent_endsAs (resolver_endsAs document hlevels hsub) name v
    fun _ _ => trivial

/-- **Loads of one entry of a document agree**, whichever references are being resolved. -/
theorem load_agree {name : String} {v : Json} {a b : Option Node}
    (ha : (load (resolver document levels resolving) name v).result = .ok a)
    (hb : (load (resolver document levels' resolving') name v).result = .ok b) : a = b := by
  have ha' := (load_endsAs (Nat.le_max_left levels levels') (List.nil_subset _) name v).of_ok ha
  have hb' := (load_endsAs (Nat.le_max_right levels levels') (List.nil_subset _) name v).of_ok hb
  exact Except.ok.inj (ha'.symm.trans hb')

end Entry

end Schemata
