import Schemata.Proofs.Model.Descent

/-!
# Types that are the same at every place

Two nodes are the same type when they are equal once erased. Erasing goes all the way down: it is
the same as comparing, at every place of the two trees, what the nodes there say by themselves. So
nothing else than what erasing empties can change anywhere in a tree without making another type of
it, and bounds are equal as numbers are, but for the sign of a zero.

Results:
* `Number.normal_eq_iff`: numbers are equal up to the sign of a zero.
* `Node.erased_eq_iff_traits`: nodes that agree at every place are equal once erased.
* `Node.same_iff_erased`: the comparisons of types are equalities after erasure.
-/

namespace Schemata

/-! ## Numbers -/

theorem Binary64.isZero_iff {x : Binary64} : x.isZero = true ↔ ∃ negative, x = zero negative := by
  obtain ⟨negative, mantissa, exponent, hcanonical⟩ := x
  constructor
  · intro h
    have hzero : mantissa = 0 := by simpa [isZero] using h
    have hexponent : exponent = -1074 := by
      obtain ⟨-, -, -, hnormal | h⟩ := hcanonical
      · exact absurd (hzero ▸ hnormal) (by decide)
      · exact h
    subst hzero hexponent
    exact ⟨negative, rfl⟩
  · rintro ⟨sign, h⟩
    rw [h]
    rfl

theorem Binary64.isZero_unsignedZero (x : Binary64) : x.unsignedZero.isZero = x.isZero := by
  unfold unsignedZero
  by_cases h : x.isZero = true
  · rw [if_pos h, h]
    rfl
  · rw [if_neg h]

theorem Binary64.unsignedZero_eq_iff {x y : Binary64} :
    x.unsignedZero = y.unsignedZero ↔ x = y ∨ x.isZero = true ∧ y.isZero = true := by
  constructor
  · intro h
    have hzero : x.isZero = y.isZero := by
      rw [← isZero_unsignedZero x, h, isZero_unsignedZero]
    by_cases hx : x.isZero = true
    · exact Or.inr ⟨hx, hzero ▸ hx⟩
    · have hy : ¬ y.isZero = true := hzero ▸ hx
      unfold unsignedZero at h
      rw [if_neg hx, if_neg hy] at h
      exact Or.inl h
  · rintro (rfl | ⟨hx, hy⟩)
    · rfl
    · unfold unsignedZero
      rw [if_pos hx, if_pos hy]

/-- **Numbers are equal up to the sign of a zero**, and a whole number is no double. -/
theorem Number.normal_eq_iff {m n : Number} :
    m.normal = n.normal ↔ m = n ∨ ∃ p q, m = .float (.zero p) ∧ n = .float (.zero q) := by
  cases m with
  | int i => cases n <;> simp [normal]
  | float x =>
    cases n with
    | int j => simp [normal]
    | float y =>
      simp only [normal, Number.float.injEq, Binary64.unsignedZero_eq_iff, Binary64.isZero_iff]
      exact or_congr Iff.rfl ⟨fun ⟨⟨p, hp⟩, q, hq⟩ => ⟨p, q, hp, hq⟩,
        fun ⟨p, q, hp, hq⟩ => ⟨⟨p, hp⟩, q, hq⟩⟩

/-! ## What a node says by itself -/

/-- What a kind says by itself, its members and defaults left aside. -/
inductive Kind.Traits where
  /-- A leaf kind, bounds up to the sign of a zero. -/
  | leaf (spec : Leaf)
  /-- An array, by what it calls an item and by its bounds. -/
  | array (itemName : String) (minItems maxItems : Option Nat)
  /-- A dictionary. -/
  | dictionary
  /-- An object, by the names of its fields in order. -/
  | object (fields : List String)
deriving DecidableEq

/-- What a node says by itself. -/
structure Node.Traits where
  /-- The name. -/
  name : String
  /-- The tag. -/
  tag : Tag
  /-- Whether the node is a reference. -/
  isRef : Bool
  /-- What the kind says by itself. -/
  kind : Kind.Traits
deriving DecidableEq

/-- What a kind says by itself. -/
def Kind.traits : Kind → Kind.Traits
  | .leaf spec => .leaf spec.erased
  | .array _ s => .array s.itemName s.minItems s.maxItems
  | .dictionary .. => .dictionary
  | .object fields _ => .object (fields.map Field.name)

/-- What a node says by itself. -/
def Node.traits (n : Node) : Node.Traits := ⟨n.name, n.tag, n.isRef, n.kind.traits⟩

/-! ## Erasing goes all the way down -/

theorem Field.erasedAll_eq (fields : List Field) :
    Field.erasedAll fields = fields.map fun f => ⟨f.head.erased, f.type.erased⟩ := by
  induction fields with
  | nil => rfl
  | cons f rest ih =>
    obtain ⟨_, _⟩ := f
    rw [Field.erasedAll, ih, List.map_cons]

theorem Kind.traits_eq_of_erased_eq {k l : Kind} (h : k.erased = l.erased) :
    k.traits = l.traits := by
  cases k with
  | object fields d =>
    cases l with
    | object others e =>
      have hall : Field.erasedAll fields = Field.erasedAll others := by
        simpa [Kind.erased] using h
      have hnames := congrArg (List.map Field.name) hall
      rw [Field.erasedAll_eq, Field.erasedAll_eq, List.map_map, List.map_map] at hnames
      exact congrArg Traits.object hnames
    | _ => simp [Kind.erased] at h
  | _ => cases l <;> simp_all [Kind.erased, Kind.traits, ArraySpec.erased]

namespace Node

variable {a b n : Node} {step : Step} {path : List Step}

theorem child?_erased (n : Node) (step : Step) :
    n.erased.child? step = (n.child? step).map erased := by
  obtain ⟨_, k⟩ := n
  cases step with
  | field i =>
    cases k with
    | object fields d =>
      simp only [erased, Kind.erased, child?, Field.erasedAll_eq, List.getElem?_map, Option.map_map]
      rfl
    | _ => rfl
  | _ => cases k <;> rfl

theorem traits_eq_iff :
    a.traits = b.traits ↔ a.head.erased = b.head.erased ∧ a.kind.traits = b.kind.traits := by
  unfold traits
  simp only [Traits.mk.injEq, Head.erased_eq_iff, Head.sameShape, Bool.and_eq_true,
    decide_eq_true_eq, and_assoc]
  exact Iff.rfl

theorem kind_erased_eq_of_traits (htraits : a.kind.traits = b.kind.traits)
    (hchildren : ∀ step, (a.child? step).map erased = (b.child? step).map erased) :
    a.kind.erased = b.kind.erased := by
  obtain ⟨_, k⟩ := a
  obtain ⟨_, l⟩ := b
  cases k with
  | leaf spec => cases l <;> simp_all [Kind.traits, Kind.erased]
  | array item s =>
    cases l with
    | array other t =>
      have hitem : item.erased = other.erased := Option.some.inj (hchildren .item)
      simp_all [Kind.traits, Kind.erased, ArraySpec.erased]
    | _ => simp [Kind.traits] at htraits
  | dictionary key value d =>
    cases l with
    | dictionary key' value' e =>
      have hkey : key.erased = key'.erased := Option.some.inj (hchildren .key)
      have hvalue : value.erased = value'.erased := Option.some.inj (hchildren .value)
      simp [Kind.erased, hkey, hvalue]
    | _ => simp [Kind.traits] at htraits
  | object fields d =>
    cases l with
    | object others e =>
      have hnames : fields.map Field.name = others.map Field.name := Kind.Traits.object.inj htraits
      have hfields : Field.erasedAll fields = Field.erasedAll others := by
        rw [Field.erasedAll_eq, Field.erasedAll_eq]
        refine List.ext_getElem? fun i => ?_
        have hname := congrArg (·[i]?) hnames
        have htype := hchildren (.field i)
        simp only [child?, List.getElem?_map, Option.map_map] at hname htype ⊢
        cases hf : fields[i]? <;> cases hg : others[i]? <;>
          simp_all [Field.name, FieldHead.erased]
      simp [Kind.erased, hfields]
    | _ => simp [Kind.traits] at htraits

/-- One step of erasing: a node is what it says by itself and its erased children. -/
theorem erased_eq_iff_children : a.erased = b.erased ↔
    a.traits = b.traits ∧ ∀ step, (a.child? step).map erased = (b.child? step).map erased := by
  constructor
  · intro h
    obtain ⟨hhead, hkind⟩ := erased_eq_iff.mp h
    refine ⟨traits_eq_iff.mpr ⟨hhead, Kind.traits_eq_of_erased_eq hkind⟩, fun step => ?_⟩
    rw [← child?_erased, h, child?_erased]
  · rintro ⟨htraits, hchildren⟩
    obtain ⟨hhead, hkind⟩ := traits_eq_iff.mp htraits
    exact erased_eq_iff.mpr ⟨hhead, kind_erased_eq_of_traits hkind hchildren⟩

theorem traits_at?_of_erased_eq (h : a.erased = b.erased) (path : List Step) :
    (a.at? path).map traits = (b.at? path).map traits := by
  induction path generalizing a b with
  | nil => exact congrArg some (erased_eq_iff_children.mp h).1
  | cons step path ih =>
    have hchild := (erased_eq_iff_children.mp h).2 step
    unfold at?
    cases hc : a.child? step with
    | none =>
      rw [hc] at hchild
      rw [Option.map_eq_none_iff.mp hchild.symm]
    | some c =>
      rw [hc] at hchild
      obtain ⟨d, hd, heq⟩ := Option.map_eq_some_iff.mp hchild.symm
      rw [hd]
      exact ih heq.symm

/-- **Nodes that agree at every place are equal once erased**, and the other way round. -/
theorem erased_eq_iff_traits :
    a.erased = b.erased ↔ ∀ path, (a.at? path).map traits = (b.at? path).map traits := by
  constructor
  · exact traits_at?_of_erased_eq
  · induction a using children_induction generalizing b with
    | h a ih =>
      intro h
      refine erased_eq_iff_children.mpr ⟨Option.some.inj (h []), fun step => ?_⟩
      -- what the trees say behind the step, where one of them may have no child
      have hbelow : ∀ path, ((a.child? step).bind fun c => c.at? path).map traits =
          ((b.child? step).bind fun d => d.at? path).map traits := fun path => h (step :: path)
      cases hc : a.child? step with
      | none =>
        cases hd : b.child? step with
        | none => rfl
        | some d => exact absurd (hbelow []) (by simp [hc, hd, at?])
      | some c =>
        cases hd : b.child? step with
        | none => exact absurd (hbelow []) (by simp [hc, hd, at?])
        | some d =>
          simp only [hc, hd, Option.bind_some] at hbelow
          exact congrArg some (ih c (mem_children_of_child? hc) hbelow)

/-- **The comparisons of types are equalities after erasure.** Two nodes are the same type when they
are equal once erased, and have the same shape when they are so under one name. Both are
equivalences, and both see whatever a node of the trees says by itself, at any place: they hold
exactly when the two trees have the same places and say the same there. Bounds count as equal numbers
do, the two zeros as one; a whole number is never a double. -/
theorem same_iff_erased :
    (∀ a b, sameType a b = true ↔ a.erased = b.erased) ∧
    (∀ a b, sameShape a b = true ↔ (a.rename "").erased = (b.rename "").erased) ∧
    (∀ a b, sameType a b = true ↔
      ∀ path, (a.at? path).map traits = (b.at? path).map traits) ∧
    (∀ a b, sameShape a b = true ↔
      ∀ path, ((a.rename "").at? path).map traits = ((b.rename "").at? path).map traits) ∧
    Equivalence (fun a b => sameType a b = true) ∧
    Equivalence (fun a b => sameShape a b = true) ∧
    ∀ m n : Number, m.normal = n.normal ↔
      m = n ∨ ∃ p q, m = .float (.zero p) ∧ n = .float (.zero q) := by
  refine ⟨fun a b => sameType_iff, sameShape_iff, fun a b => ?_, fun a b => ?_,
    ⟨fun a => ?_, fun h => ?_, fun hab hbc => ?_⟩,
    ⟨sameShape_refl, sameShape_symm, sameShape_trans⟩, fun m n => Number.normal_eq_iff⟩
  · rw [sameType_iff, erased_eq_iff_traits]
  · rw [sameShape_iff, shape, shape, erased_eq_iff_traits]
  · exact sameType_iff.mpr rfl
  · exact sameType_iff.mpr (sameType_iff.mp h).symm
  · exact sameType_iff.mpr ((sameType_iff.mp hab).trans (sameType_iff.mp hbc))

end Node

end Schemata
