import Schemata.Proofs.Extract.Naming
import Schemata.Proofs.Extract.Placed
import Mathlib.Data.List.Forall2

/-!
# Walking one tree

The planner walks a tree from the leaves up and hands itself on from each node to the next. What one
walk does is said by `Planner.Places`: the planner has grown, every placed node of the tree has the
first name that fits it, and every new definition was made from a placed node. The walk of a tree is
put together from the walks of its members, and `Places` from theirs.

Results:
* `canonicalize_places`: what the walk of a tree does.
* `canonicalize_of_settled`: a tree all of whose placed nodes have the first name that fits is left
  as it is, and so is the planner.
* `settled_of_canonicalKind_eq`: a kind that is left as it is has such names afterwards.
* `canonicalize_eq_of_renames`: a tree for which no rename is recorded is left as it is.
* `typesPlanner_induction`: what holds at the start of the walk of the types, and is kept by the walk
  of one type, holds at its end.
-/

namespace Schemata

/-- A definition made from a node has its kind and its constraints, and is a reference if the node
is one. -/
def Hoisted.MadeFrom (e : Hoisted) (m : Node) : Prop :=
  e.node.kind = m.kind ∧ e.node.isRef = m.isRef ∧ e.node.head.constraints = m.head.constraints

namespace Planner

open Node

variable {p q : Planner} {here : Place} {scalars : Bool} {n : Node} {k : Kind}

/-! ## One equation for each case -/

theorem settle_of_inner (p : Planner) (here : Place) (h : (scalars || n.kind.isComposite) = false) :
    p.settle here scalars n = (n, p) := by
  unfold settle
  rw [if_neg (by simp [h])]

theorem hoisted_place (p : Planner) (origin : String) (n : Node) :
    ∀ e ∈ (p.place origin n).2.hoisted, e ∈ p.hoisted ∨ e.MadeFrom n := by
  intro e he
  unfold place at he
  simp only at he
  split at he
  · exact Or.inl he
  · rcases List.mem_append.mp he with he | he
    · exact Or.inl he
    · rw [List.mem_singleton.mp he]
      exact Or.inr ⟨rfl, rfl, rfl⟩

/-- A placed node gets the first name that fits, and a new name is recorded. -/
theorem settle_of_placed (p : Planner) (here : Place) (h : (scalars || n.kind.isComposite) = true) :
    ∃ name q, p.settle here scalars n = (n.rename name, q) ∧ Grows p q ∧
      FirstFit q.registry n name ∧
      (∀ e ∈ q.hoisted, e ∈ p.hoisted ∨ e.MadeFrom n) ∧
      q.renames = p.renames ++ if name = n.name then [] else [⟨here.root, here.path, name⟩] := by
  have hgrows := grows_place p ("/".intercalate here.trail) n
  have hfit := place_spec p ("/".intercalate here.trail) n
  have hsource := hoisted_place p ("/".intercalate here.trail) n
  have hrenames := renames_place p ("/".intercalate here.trail) n
  simp only [settle, if_pos h]
  split
  · rename_i heq
    refine ⟨n.name, _, by rw [rename_self], hgrows, heq ▸ hfit, hsource, ?_⟩
    rw [if_pos rfl, List.append_nil, hrenames]
  · rename_i hne
    refine ⟨_, _, rfl, ⟨hgrows.declared, hgrows.hoisted, hgrows.fresh, ?_⟩, hfit, hsource, ?_⟩
    · exact hrenames ▸ List.prefix_append _ _
    · rw [if_neg hne, hrenames]

/-- Giving a node its name changes no more than its name. -/
theorem exists_rename_settle (p : Planner) (here : Place) (scalars : Bool) (n : Node) :
    ∃ name, (p.settle here scalars n).1 = n.rename name := by
  cases hs : scalars || n.kind.isComposite with
  | false => exact ⟨n.name, by rw [settle_of_inner p here hs, rename_self]⟩
  | true =>
    obtain ⟨name, q, heq, -⟩ := settle_of_placed p here hs
    exact ⟨name, by rw [heq]⟩

theorem grows_settle (p : Planner) (here : Place) (scalars : Bool) (n : Node) :
    Grows p (p.settle here scalars n).2 := by
  cases hs : scalars || n.kind.isComposite with
  | false =>
    rw [settle_of_inner p here hs]
    exact Grows.refl p
  | true =>
    obtain ⟨name, q, heq, hgrows, -⟩ := settle_of_placed p here hs
    rw [heq]
    exact hgrows

theorem canonicalize_of_isRef (p : Planner) (here : Place) (scalars : Bool) (h : n.isRef = true) :
    p.canonicalize here scalars n = (n, p) := by
  obtain ⟨_, _⟩ := n
  rw [canonicalize]
  exact if_pos h

theorem canonicalize_eq (p : Planner) (here : Place) (scalars : Bool) (h : n.isRef = false) :
    p.canonicalize here scalars n = (p.canonicalKind here n.kind).2.settle here scalars
      ⟨n.head, (p.canonicalKind here n.kind).1⟩ := by
  obtain ⟨_, _⟩ := n
  rw [canonicalize, if_neg (by simpa [isRef] using h)]

theorem canonicalKind_array (p : Planner) (here : Place) (item : Node) (s : ArraySpec) :
    p.canonicalKind here (.array item s) =
      let r := p.canonicalize (here.down .item "items") false item
      (.array r.1 s, r.2) := by
  rw [canonicalKind]

theorem canonicalKind_dictionary (p : Planner) (here : Place) (key value : Node)
    (d : Option Json) :
    p.canonicalKind here (.dictionary key value d) =
      let r := p.canonicalize (here.down .key "keys") false key
      let s := r.2.canonicalize (here.down .value "values") false value
      (.dictionary r.1 s.1 d, s.2) := by
  rw [canonicalKind]

theorem canonicalKind_object (p : Planner) (here : Place) (fields : List Field)
    (d : Option Json) :
    p.canonicalKind here (.object fields d) =
      let r := p.canonicalFields here 0 fields
      (.object r.1 d, r.2) := by
  rw [canonicalKind]

theorem canonicalFields_cons (p : Planner) (here : Place) (index : Nat) (h : FieldHead)
    (type : Node) (rest : List Field) :
    p.canonicalFields here index (⟨h, type⟩ :: rest) =
      let r := p.canonicalize (here.down (.field index) h.name) true type
      let s := r.2.canonicalFields here (index + 1) rest
      (⟨h, r.1⟩ :: s.1, s.2) := by
  rw [canonicalFields]

/-! ## What a walk does -/

/-- The planner `q` comes after `p`, and in between the nodes `raw` were placed, which now are
`final`. -/
structure Places (p q : Planner) (raw final : List Node) : Prop where
  /-- The planner has grown. -/
  grows : Grows p q
  /-- Every placed node has the first name that fits it. -/
  fits : List.Forall₂ (fun r m => FirstFit q.registry (m.rename r.name) m.name) raw final
  /-- Every new definition was made from a placed node. -/
  source : ∀ e ∈ q.hoisted, e ∈ p.hoisted ∨ ∃ m ∈ final, e.MadeFrom m

theorem Places.nil (p : Planner) : Places p p [] [] :=
  ⟨Grows.refl p, List.Forall₂.nil, fun _ he => Or.inl he⟩

theorem Places.append {r : Planner} {as bs cs ds : List Node} (hpq : Places p q as bs)
    (hqr : Places q r cs ds) : Places p r (as ++ cs) (bs ++ ds) where
  grows := hpq.grows.trans hqr.grows
  fits := List.rel_append (hpq.fits.imp fun _ _ => hqr.grows.firstFit) hqr.fits
  source e he := by
    rcases hqr.source e he with he | ⟨m, hm, hmade⟩
    · rcases hpq.source e he with he | ⟨m, hm, hmade⟩
      · exact Or.inl he
      · exact Or.inr ⟨m, List.mem_append_left _ hm, hmade⟩
    · exact Or.inr ⟨m, List.mem_append_right _ hm, hmade⟩

/-- Every placed node names a type of its shape. -/
theorem Places.shared {raw final : List Node} (h : Places p q raw final) :
    ∀ m ∈ final, Shared q.registry m m.name := by
  obtain ⟨-, hfits, -⟩ := h
  induction hfits with
  | nil => exact fun _ hm => absurd hm List.not_mem_nil
  | cons hfit _ ih => exact List.forall_mem_cons.mpr ⟨hfit.shared, ih⟩

/-- Giving a node its name places it, behind what has been placed below it. -/
theorem settle_places (h : n.isRef = false) (hk : Places p q k.placed n.kind.placed)
    (hcomp : n.kind.isComposite = k.isComposite) :
    Places p (q.settle here scalars n).2 (placedAt scalars ⟨n.head, k⟩)
      ((q.settle here scalars n).1.placedAt scalars) := by
  cases hs : scalars || n.kind.isComposite with
  | false =>
    rw [settle_of_inner q here hs, placedAt_of_inner h hs,
      placedAt_of_inner (n := ⟨n.head, k⟩) h (hcomp ▸ hs)]
    exact hk
  | true =>
    obtain ⟨name, r, heq, hgrows, hfit, hsource, -⟩ := settle_of_placed q here hs
    rw [heq, placedAt_of_placed (n := n.rename name) h hs,
      placedAt_of_placed (n := ⟨n.head, k⟩) h (hcomp ▸ hs)]
    refine ⟨hk.grows.trans hgrows, ?_, fun e he => ?_⟩
    · refine List.Forall₂.cons ?_ (hk.fits.imp fun _ _ => hgrows.firstFit)
      rwa [← rename_self n] at hfit
    · rcases hsource e he with he | hmade
      · rcases hk.source e he with he | ⟨m, hm, hmade⟩
        · exact Or.inl he
        · exact Or.inr ⟨m, List.mem_cons_of_mem _ hm, hmade⟩
      · exact Or.inr ⟨n.rename name, List.mem_cons_self, hmade⟩

theorem isComposite_canonicalKind (p : Planner) (here : Place) (k : Kind) :
    (p.canonicalKind here k).1.isComposite = k.isComposite := by
  cases k with
  | leaf _ => rfl
  | array item s => rw [canonicalKind_array]; rfl
  | dictionary key value d => rw [canonicalKind_dictionary]; rfl
  | object fields d => rw [canonicalKind_object]; rfl

mutual
/-- **What the walk of a tree does**: it places the placed nodes of the tree. -/
theorem canonicalize_places (p : Planner) (here : Place) (scalars : Bool) : ∀ n : Node,
    Places p (p.canonicalize here scalars n).2 (n.placedAt scalars)
      ((p.canonicalize here scalars n).1.placedAt scalars)
  | ⟨h, k⟩ => by
    cases hr : Node.isRef ⟨h, k⟩ with
    | true =>
      rw [canonicalize_of_isRef p here scalars hr, placedAt_of_isRef scalars hr]
      exact Places.nil p
    | false =>
      rw [canonicalize_eq p here scalars hr]
      exact settle_places (n := ⟨h, _⟩) hr (canonicalKind_places p here k)
        (isComposite_canonicalKind p here k)
theorem canonicalKind_places (p : Planner) (here : Place) : ∀ k : Kind,
    Places p (p.canonicalKind here k).2 k.placed (p.canonicalKind here k).1.placed
  | .leaf _ => Places.nil p
  | .array item s => by
    rw [canonicalKind_array]
    exact canonicalize_places p _ false item
  | .dictionary key value d => by
    rw [canonicalKind_dictionary]
    exact (canonicalize_places p _ false key).append (canonicalize_places _ _ false value)
  | .object fields d => by
    rw [canonicalKind_object]
    exact canonicalFields_places p here 0 fields
theorem canonicalFields_places (p : Planner) (here : Place) (index : Nat) :
    ∀ fields : List Field, Places p (p.canonicalFields here index fields).2
      (Field.placedAll fields) (Field.placedAll (p.canonicalFields here index fields).1)
  | [] => Places.nil p
  | ⟨h, type⟩ :: rest => by
    rw [canonicalFields_cons]
    exact (canonicalize_places p _ true type).append (canonicalFields_places _ here _ rest)
end

/-- A kind that is left as it is has settled: its placed nodes have the first names that fit. -/
theorem settled_of_canonicalKind_eq (h : (p.canonicalKind here k).1 = k) :
    ∀ m ∈ k.placed, FirstFit (p.canonicalKind here k).2.registry m m.name := by
  have hfits := (canonicalKind_places p here k).fits
  rw [h, List.forall₂_same] at hfits
  exact fun m hm => m.rename_self ▸ hfits m hm

/-! ## Settled trees -/

/-- A placed node that has the first name that fits is left as it is. -/
theorem settle_of_firstFit (p : Planner) (here : Place)
    (h : (scalars || n.kind.isComposite) = true → FirstFit p.registry n n.name) :
    p.settle here scalars n = (n, p) := by
  cases hs : scalars || n.kind.isComposite with
  | false => exact settle_of_inner p here hs
  | true =>
    unfold settle
    simp only [if_pos hs, place_eq_of_firstFit _ (h hs), if_true]

mutual
/-- **A settled tree is left as it is**, and so is the planner. -/
theorem canonicalize_of_settled (p : Planner) (here : Place) (scalars : Bool) : ∀ n : Node,
    (∀ m ∈ n.placedAt scalars, FirstFit p.registry m m.name) →
      p.canonicalize here scalars n = (n, p)
  | ⟨h, k⟩, hfit => by
    cases hr : Node.isRef ⟨h, k⟩ with
    | true => exact canonicalize_of_isRef p here scalars hr
    | false =>
      have hkind : p.canonicalKind here k = (k, p) :=
        canonicalKind_of_settled p here k fun m hm => hfit m (by
          cases hs : scalars || k.isComposite with
          | true => rw [placedAt_of_placed hr hs]; exact List.mem_cons_of_mem _ hm
          | false => rwa [placedAt_of_inner hr hs])
      rw [canonicalize_eq p here scalars hr, hkind]
      refine settle_of_firstFit p here fun hs => hfit _ ?_
      rw [placedAt_of_placed hr hs]
      exact List.mem_cons_self
theorem canonicalKind_of_settled (p : Planner) (here : Place) : ∀ k : Kind,
    (∀ m ∈ k.placed, FirstFit p.registry m m.name) → p.canonicalKind here k = (k, p)
  | .leaf _, _ => rfl
  | .array item s, hfit => by
    rw [canonicalKind_array, canonicalize_of_settled p _ false item hfit]
  | .dictionary key value d, hfit => by
    obtain ⟨hkey, hvalue⟩ := List.forall_mem_append.mp hfit
    simp only [canonicalKind_dictionary, canonicalize_of_settled p _ false key hkey,
      canonicalize_of_settled p _ false value hvalue]
  | .object fields d, hfit => by
    rw [canonicalKind_object, canonicalFields_of_settled p here 0 fields hfit]
theorem canonicalFields_of_settled (p : Planner) (here : Place) (index : Nat) :
    ∀ fields : List Field, (∀ m ∈ Field.placedAll fields, FirstFit p.registry m m.name) →
      p.canonicalFields here index fields = (fields, p)
  | [], _ => rfl
  | ⟨h, type⟩ :: rest, hfit => by
    obtain ⟨htype, hrest⟩ := List.forall_mem_append.mp hfit
    simp only [canonicalFields_cons, canonicalize_of_settled p _ true type htype,
      canonicalFields_of_settled p here (index + 1) rest hrest]
end

/-! ## Walks without renames -/

theorem Grows.renames_eq_of_trans {r : Planner} (hpq : Grows p q) (hqr : Grows q r)
    (h : r.renames = p.renames) : q.renames = p.renames ∧ r.renames = q.renames := by
  have hlen := hpq.renames.length_le
  have hlen' := hqr.renames.length_le
  rw [h] at hlen'
  have heq := hpq.renames.eq_of_length (Nat.le_antisymm hlen hlen')
  exact ⟨heq.symm, h.trans heq⟩

mutual
/-- **A tree for which no rename is recorded is left as it is.** -/
theorem canonicalize_eq_of_renames (p : Planner) (here : Place) (scalars : Bool) : ∀ n : Node,
    (p.canonicalize here scalars n).2.renames = p.renames → (p.canonicalize here scalars n).1 = n
  | ⟨h, k⟩, hren => by
    cases hr : Node.isRef ⟨h, k⟩ with
    | true => rw [canonicalize_of_isRef p here scalars hr]
    | false =>
      rw [canonicalize_eq p here scalars hr] at hren ⊢
      have hk := (canonicalKind_places p here k).grows
      cases hs : scalars || (p.canonicalKind here k).1.isComposite with
      | false =>
        rw [settle_of_inner (n := ⟨h, _⟩) _ here hs] at hren ⊢
        exact congrArg (Node.mk h) (canonicalKind_eq_of_renames p here k hren)
      | true =>
        obtain ⟨name, r, heq, hgrows, -, -, hrenames⟩ :=
          settle_of_placed (n := ⟨h, (p.canonicalKind here k).1⟩) (p.canonicalKind here k).2 here hs
        rw [heq] at hren ⊢
        obtain ⟨hkeep, hsame⟩ := hk.renames_eq_of_trans hgrows hren
        have hkind := canonicalKind_eq_of_renames p here k hkeep
        have hname : name = Node.name ⟨h, (p.canonicalKind here k).1⟩ := by
          by_contra hne
          rw [if_neg hne, hsame] at hrenames
          simp at hrenames
        simp only [hname, rename_self, hkind]
theorem canonicalKind_eq_of_renames (p : Planner) (here : Place) : ∀ k : Kind,
    (p.canonicalKind here k).2.renames = p.renames → (p.canonicalKind here k).1 = k
  | .leaf _, _ => rfl
  | .array item s, hren => by
    rw [canonicalKind_array] at hren ⊢
    exact congrArg (Kind.array · s) (canonicalize_eq_of_renames p _ false item hren)
  | .dictionary key value d, hren => by
    rw [canonicalKind_dictionary] at hren ⊢
    obtain ⟨hkey, hvalue⟩ := (canonicalize_places p _ false key).grows.renames_eq_of_trans
      (canonicalize_places _ _ false value).grows hren
    simp only [canonicalize_eq_of_renames p _ false key hkey,
      canonicalize_eq_of_renames _ _ false value hvalue]
  | .object fields d, hren => by
    rw [canonicalKind_object] at hren ⊢
    exact congrArg (Kind.object · d) (canonicalFields_eq_of_renames p here 0 fields hren)
theorem canonicalFields_eq_of_renames (p : Planner) (here : Place) (index : Nat) :
    ∀ fields : List Field, (p.canonicalFields here index fields).2.renames = p.renames →
      (p.canonicalFields here index fields).1 = fields
  | [], _ => rfl
  | ⟨h, type⟩ :: rest, hren => by
    rw [canonicalFields_cons] at hren ⊢
    obtain ⟨htype, hrest⟩ := (canonicalize_places p _ true type).grows.renames_eq_of_trans
      (canonicalFields_places _ here _ rest).grows hren
    simp only [canonicalize_eq_of_renames p _ true type htype,
      canonicalFields_eq_of_renames _ here _ rest hrest]
end

/-! ## The declared types -/

variable {pre rest : List Node}

/-- The place of a declared type. -/
def typePlace (index : Nat) (n : Node) : Place := ⟨.type index, [], [s!"types/{n.name}"]⟩

/-- The place of an element. -/
def elementPlace (index : Nat) (n : Node) : Place := ⟨.element index, [], [s!"elements/{n.label}"]⟩

theorem walkType_of_isRef (p : Planner) (index : Nat) (h : n.isRef = true) :
    p.walkType index n = p := by
  unfold walkType
  exact if_pos h

/-- The walk of a declared type replaces it by its final form. -/
theorem walkType_of_not_ref (h : n.isRef = false) (hp : p.declared = pre ++ n :: rest) :
    p.walkType pre.length n =
      { (p.canonicalKind (typePlace pre.length n) n.kind).2 with
        declared := pre ++ ⟨n.head, (p.canonicalKind (typePlace pre.length n) n.kind).1⟩ :: rest } := by
  have hdeclared := (canonicalKind_places p (typePlace pre.length n) n.kind).grows.declared
  unfold walkType
  rw [if_neg (by simp [h])]
  simp only [typePlace] at hdeclared ⊢
  rw [hdeclared, hp]
  simp

/-- **What each walk of a declared type keeps up, all of them do.** The property is about the planner
and the nodes placed so far; references are passed over. -/
theorem walkTypes_induction {I : Planner → List Node → Prop} {P : Node → Prop}
    (hstep : ∀ (p : Planner) (pre rest placed : List Node) (n : Node),
      p.declared = pre ++ n :: rest → n.isRef = false → P n → I p placed →
        I (p.walkType pre.length n)
          (placed ++ (p.canonicalKind (typePlace pre.length n) n.kind).1.placed)) :
    ∀ (types pre : List Node) (p : Planner), p.declared = pre ++ types →
      (∀ n ∈ types, n.isRef = false → P n) → I p (pre.flatMap placedBelow) →
        I (p.walkTypes pre.length types)
          ((p.walkTypes pre.length types).declared.flatMap placedBelow)
  | [], pre, p, hp, _, hI => by
    rw [walkTypes, hp, List.append_nil]
    exact hI
  | n :: rest, pre, p, hp, hP, hI => by
    obtain ⟨c, hc, hnext⟩ : ∃ c, (p.walkType pre.length n).declared = pre ++ c :: rest ∧
        I (p.walkType pre.length n) ((pre ++ [c]).flatMap placedBelow) := by
      cases hn : n.isRef with
      | true =>
        refine ⟨n, by rw [walkType_of_isRef p _ hn, hp], ?_⟩
        rw [walkType_of_isRef p _ hn]
        simpa [placedBelow, hn] using hI
      | false =>
        refine ⟨⟨n.head, _⟩, by rw [walkType_of_not_ref hn hp], ?_⟩
        rw [List.flatMap_append, List.flatMap_singleton,
          placedBelow_of_not_ref (n := ⟨n.head, _⟩) hn]
        exact hstep p pre rest _ n hp hn (hP n List.mem_cons_self hn) hI
    have hrest := walkTypes_induction hstep rest (pre ++ [c]) (p.walkType pre.length n)
      (by rw [hc, List.append_assoc]; rfl) (fun m hm => hP m (List.mem_cons_of_mem _ hm)) hnext
    rwa [List.length_append] at hrest

/-! ## The elements -/

theorem walkElement_eq (p : Planner) (index : Nat) (n : Node) :
    p.walkElement index n = (p.canonicalize (elementPlace index n) true n).2 := rfl

/-- The final forms of the elements from position `index` on. -/
def finalElements (p : Planner) (index : Nat) : List Node → List Node
  | [] => []
  | n :: rest => (p.canonicalize (elementPlace index n) true n).1 ::
      finalElements (p.walkElement index n) (index + 1) rest

/-- **What the walk of the elements does.** -/
theorem walkElements_places : ∀ (elements : List Node) (p : Planner) (index : Nat),
    Places p (p.walkElements index elements) (elements.flatMap (placedAt true))
      ((p.finalElements index elements).flatMap (placedAt true))
  | [], p, _ => Places.nil p
  | n :: rest, p, index =>
    (canonicalize_places p (elementPlace index n) true n).append (walkElements_places rest _ _)

end Planner

/-! ## The whole forest -/

namespace Forest

/-- The planner that has walked the declared types. -/
def typesPlanner (f : Forest) : Planner := (⟨f.types, [], []⟩ : Planner).walkTypes 0 f.types

/-- The planner that has walked the forest. -/
def planner (f : Forest) : Planner := f.typesPlanner.walkElements 0 f.elements

/-- The final forms of the elements. -/
def finalElements (f : Forest) : List Node := f.typesPlanner.finalElements 0 f.elements

/-- The final trees, new definitions left aside. -/
def walked (f : Forest) : Forest := ⟨f.planner.declared, f.finalElements⟩

theorem planner_places (f : Forest) : Planner.Places f.typesPlanner f.planner
    (f.elements.flatMap (Node.placedAt true)) (f.finalElements.flatMap (Node.placedAt true)) :=
  Planner.walkElements_places f.elements f.typesPlanner 0

/-- What each walk of a declared type keeps up holds once all of them have been walked. -/
theorem typesPlanner_induction {f : Forest} {I : Planner → List Node → Prop} {P : Node → Prop}
    (hstep : ∀ (p : Planner) (pre rest placed : List Node) (n : Node),
      p.declared = pre ++ n :: rest → n.isRef = false → P n → I p placed →
        I (p.walkType pre.length n)
          (placed ++ (p.canonicalKind (Planner.typePlace pre.length n) n.kind).1.placed))
    (hP : ∀ n ∈ f.types, n.isRef = false → P n) (hI : I ⟨f.types, [], []⟩ []) :
    I f.typesPlanner (f.typesPlanner.declared.flatMap Node.placedBelow) :=
  Planner.walkTypes_induction hstep f.types [] ⟨f.types, [], []⟩ rfl hP hI

end Forest

end Schemata
