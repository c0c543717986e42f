import Schemata.Proofs.Extract.Declared
import Schemata.Proofs.Extract.Records

/-!
# New definitions are fresh and minimal

A node is placed under a name when its members are in their final form and its own name is still the
one that it was declared with. `Forest.placings` lists the placings of a walk in order, each with
the planner as it is then; those under a name that is unknown make the new definitions.

A name that was tried for a node in vain stays known while the walk goes on, although what it stands
for may change when declared types get their final form. A new definition does not change, and its
name stands for it. So a later node of the same shape for which the same names are tried finds the
definition, or an earlier name that fits by now, and makes no definition of its own.

Results:
* `Placing.not_isNew`: behind a placing that makes a definition, none of the same base name and
  shape does.
* `Forest.placings_trace`: the placings of a forest, its visits and its new definitions.
* `Forest.plan_fresh_minimal`: new definitions have names of their own, and those from one base name
  have different shapes.
-/

namespace Schemata

open Node Planner

/-! ## Placings -/

/-- A visit with the planner that places the node. The node has its members in their final form and
still its own name. -/
structure Placing where
  /-- The planner. -/
  planner : Planner
  /-- The visit. -/
  visit : Visit

namespace Placing

/-- The name under which the node is placed. -/
def name (a : Placing) : String := a.planner.choose a.visit.node

/-- The planner knows no type of the name. -/
def isNew (a : Placing) : Bool := !a.planner.names.contains a.name

/-- The visit with the node under its name. -/
def outcome (a : Placing) : Visit := ⟨a.visit.place, a.visit.node.rename a.name⟩

/-- The planner when the node has been placed. -/
def after (a : Placing) : Planner :=
  (a.planner.place ("/".intercalate a.visit.place.trail) a.visit.node).2

end Placing

mutual
/-- The placings of a tree, those of its members first. -/
def Node.placings (p : Planner) (here : Place) (scalars : Bool) : Node → List Placing
  | ⟨h, k⟩ =>
    if h.isRef then []
    else
      k.placings p here ++
        if scalars || (p.canonicalKind here k).1.isComposite then
          [⟨(p.canonicalKind here k).2, here, ⟨h, (p.canonicalKind here k).1⟩⟩]
        else []
/-- The placings of the members of a kind. -/
def Kind.placings (p : Planner) (here : Place) : Kind → List Placing
  | .leaf _ => []
  | .array item _ => item.placings p (here.down .item "items") false
  | .dictionary key value _ =>
    key.placings p (here.down .key "keys") false ++
      value.placings (p.canonicalize (here.down .key "keys") false key).2
        (here.down .value "values") false
  | .object fields _ => Field.placings p here 0 fields
/-- The placings of the types of fields from position `index` on. -/
def Field.placings (p : Planner) (here : Place) (index : Nat) : List Field → List Placing
  | [] => []
  | ⟨h, type⟩ :: rest =>
    type.placings p (here.down (.field index) h.name) true ++
      Field.placings (p.canonicalize (here.down (.field index) h.name) true type).2 here (index + 1)
        rest
end

/-- The placings of the declared types from position `index` on; references are passed over. -/
def Planner.typePlacings (p : Planner) (index : Nat) : List Node → List Placing
  | [] => []
  | n :: rest =>
    (if n.isRef then [] else n.kind.placings p (typePlace index n)) ++
      (p.walkType index n).typePlacings (index + 1) rest

/-- The placings of the elements from position `index` on. -/
def Planner.elementPlacings (p : Planner) (index : Nat) : List Node → List Placing
  | [] => []
  | n :: rest =>
    n.placings p (elementPlace index n) true ++
      (p.walkElement index n).elementPlacings (index + 1) rest

/-- The placings of a forest. -/
def Forest.placings (f : Forest) : List Placing :=
  (⟨f.types, [], []⟩ : Planner).typePlacings 0 f.types ++
    f.typesPlanner.elementPlacings 0 f.elements

/-! ## Planners one after the other -/

/-- The planner `q` comes after `p`: declared types may have changed, but not their names, and
definitions are added at the end. -/
structure Planner.Later (p q : Planner) : Prop where
  /-- The declared types have the same names. -/
  declared : q.declared.map Node.name = p.declared.map Node.name
  /-- Definitions are added at the end. -/
  hoisted : p.hoisted <+: q.hoisted

namespace Planner

variable {p q r : Planner}

theorem Later.refl (p : Planner) : Later p p := ⟨rfl, List.prefix_refl _⟩

theorem Later.trans (hpq : Later p q) (hqr : Later q r) : Later p r :=
  ⟨hqr.declared.trans hpq.declared, hpq.hoisted.trans hqr.hoisted⟩

/-- Planners with the same names of declared types and the same definitions. -/
theorem Later.of_eq (hdeclared : q.declared.map Node.name = p.declared.map Node.name)
    (hhoisted : q.hoisted = p.hoisted) : Later p q :=
  ⟨hdeclared, hhoisted ▸ List.prefix_refl _⟩

theorem names_eq (p : Planner) :
    p.names = p.declared.map Node.name ++ p.hoisted.map fun e => e.node.name := by
  simp [names, registry]

/-- No name is forgotten. -/
theorem Later.names (h : Later p q) : p.names ⊆ q.names := by
  obtain ⟨more, hmore⟩ := h.hoisted
  rw [names_eq, names_eq, h.declared, ← hmore, List.map_append, ← List.append_assoc]
  exact List.subset_append_left _ _

end Planner

namespace Placing

variable {a b : Placing} {q : Planner}

theorem isNew_iff : a.isNew = true ↔ a.name ∉ a.planner.names := by
  simp [isNew]

/-- A placing makes a definition if its name is new, and nothing otherwise. -/
theorem hoisted_after (a : Placing) : a.after.hoisted =
    a.planner.hoisted ++ if a.isNew then [a.outcome.definition] else [] := by
  unfold after
  rcases place_cases a.planner ("/".intercalate a.visit.place.trail) a.visit.node with
    ⟨hin, heq⟩ | ⟨hnot, heq⟩
  · have hold : ¬ a.isNew = true := fun hnew => isNew_iff.mp hnew hin
    rw [heq, if_neg hold, List.append_nil]
  · rw [heq, if_pos (isNew_iff.mpr hnot)]
    rfl

theorem later_after (a : Placing) : Later a.planner a.after where
  declared := by rw [after, (grows_place _ _ _).declared]
  hoisted := (grows_place _ _ _).hoisted

/-- The name is known when the node has been placed. -/
theorem name_mem_after (a : Placing) : a.name ∈ a.after.names := by
  by_cases hnew : a.isNew = true
  · rw [names_eq, hoisted_after, if_pos hnew]
    simp [outcome, Visit.definition, Node.name, Node.rename]
  · exact a.later_after.names (not_not.mp (mt isNew_iff.mpr hnew))

/-- **The name of a new definition stands for it**, however far the walk goes on. -/
theorem named?_of_isNew (ha : a.isNew = true) (h : Later a.after q) :
    named? q.registry a.name = some a.outcome.definition.node := by
  obtain ⟨more, hmore⟩ := h.hoisted
  have hsplit : q.registry = (q.declared ++ a.planner.hoisted.map (·.node)) ++
      a.outcome.definition.node :: more.map (·.node) := by
    rw [registry, ← hmore, hoisted_after, if_pos ha]
    simp
  have hdeclared : q.declared.map Node.name = a.planner.declared.map Node.name :=
    h.declared.trans a.later_after.declared
  rw [hsplit]
  refine named?_of_split ?_ rfl
  have hunknown := isNew_iff.mp ha
  rw [names_eq] at hunknown
  simpa [hdeclared] using hunknown

theorem candidate_eq (hbase : a.visit.node.baseName = b.visit.node.baseName)
    (hshape : a.visit.node.shape = b.visit.node.shape) :
    a.visit.node.candidate = b.visit.node.candidate := by
  have hkind := (shape_eq_iff.mp hshape).2
  refine candidate_congr hbase ?_
  rw [← Kind.suffix_erased, hkind, Kind.suffix_erased]

/-- **Behind a placing that makes a definition, none of the same base name and shape does.** -/
theorem not_isNew (ha : a.isNew = true) (h : Later a.after b.planner)
    (hbase : a.visit.node.baseName = b.visit.node.baseName)
    (hshape : a.visit.node.shape = b.visit.node.shape) : ¬ b.isNew = true := by
  intro hb
  have hcand := candidate_eq hbase hshape
  have hbefore := (a.later_after.trans h).names
  have hunknown := isNew_iff.mp hb
  obtain ⟨k, hk, htaken, -⟩ := choose_spec a.planner a.visit.node
  obtain ⟨l, hl, htaken', -⟩ := choose_spec b.planner b.visit.node
  rcases Nat.lt_trichotomy l k with hlt | rfl | hlt
  · -- a name tried in vain before is known
    have hmem := hbefore (htaken l hlt).mem_names
    rw [hcand, hl] at hmem
    exact hunknown hmem
  · have hmem := h.names a.name_mem_after
    rw [name, ← hk, hcand, hl] at hmem
    exact hunknown hmem
  · -- the name of the definition would have been accepted
    obtain ⟨d, hd, hne⟩ := htaken' k hlt
    rw [← hcand, hk] at hd
    have hfound := named?_of_isNew ha h
    rw [name, hd, Option.some.injEq] at hfound
    rw [hfound] at hne
    exact hne hshape

end Placing

/-! ## The trace of a walk -/

namespace Planner

variable {p q r : Planner} {as bs : List Placing} {final more : List Visit} {here : Place}
  {scalars : Bool} {n : Node}

/-- The planner `q` comes after `p`, and in between the placings `as` were made, which led to the
visits `final`. -/
structure Traces (p q : Planner) (as : List Placing) (final : List Visit) : Prop where
  /-- The planner comes later. -/
  later : Later p q
  /-- Each placing is made in between. -/
  between : ∀ a ∈ as, Later p a.planner ∧ Later a.after q
  /-- They are made one after the other. -/
  ordered : as.Pairwise fun a b => Later a.after b.planner
  /-- They lead to the visits. -/
  visits : as.map Placing.outcome = final
  /-- They make the new definitions. -/
  hoisted : q.hoisted = p.hoisted ++ (as.filter Placing.isNew).map fun a => a.outcome.definition

theorem Traces.nil (p : Planner) : Traces p p [] [] where
  later := Later.refl p
  between := by simp
  ordered := List.Pairwise.nil
  visits := rfl
  hoisted := (List.append_nil _).symm

theorem Traces.append (hpq : Traces p q as final) (hqr : Traces q r bs more) :
    Traces p r (as ++ bs) (final ++ more) where
  later := hpq.later.trans hqr.later
  between := by
    refine List.forall_mem_append.mpr ⟨fun a ha => ?_, fun b hb => ?_⟩
    · exact ⟨(hpq.between a ha).1, (hpq.between a ha).2.trans hqr.later⟩
    · exact ⟨hpq.later.trans (hqr.between b hb).1, (hqr.between b hb).2⟩
  ordered := by
    refine List.pairwise_append.mpr ⟨hpq.ordered, hqr.ordered, fun a ha b hb => ?_⟩
    exact (hpq.between a ha).2.trans (hqr.between b hb).1
  visits := by rw [List.map_append, hpq.visits, hqr.visits]
  hoisted := by
    rw [hqr.hoisted, hpq.hoisted, List.filter_append, List.map_append, List.append_assoc]

/-- What matters of the planner behind the placings are its definitions and the declared names. -/
theorem Traces.congr (h : Traces p q as final)
    (hdeclared : r.declared.map Node.name = q.declared.map Node.name)
    (hhoisted : r.hoisted = q.hoisted) : Traces p r as final where
  later := h.later.trans (Later.of_eq hdeclared hhoisted)
  between a ha :=
    ⟨(h.between a ha).1, (h.between a ha).2.trans (Later.of_eq hdeclared hhoisted)⟩
  ordered := h.ordered
  visits := h.visits
  hoisted := hhoisted.trans h.hoisted

/-- A single placing. -/
theorem Traces.single (a : Placing) : Traces a.planner a.after [a] [a.outcome] where
  later := a.later_after
  between := by simp [Later.refl]
  ordered := List.pairwise_singleton _ _
  visits := rfl
  hoisted := by
    rw [a.hoisted_after]
    by_cases hnew : a.isNew = true <;> simp [hnew]

/-! ## One tree -/

/-- Giving a node its name places it, behind what has been placed below it. -/
theorem settle_traces (h : n.isRef = false) (hk : Traces p q as (n.kind.visits here)) :
    Traces p (q.settle here scalars n).2
      (as ++ if scalars || n.kind.isComposite then [⟨q, here, n⟩] else [])
      ((q.settle here scalars n).1.visits here scalars) := by
  cases hs : scalars || n.kind.isComposite with
  | false =>
    rw [settle_of_inner q here hs, visits_of_not_ref here scalars h, hs]
    simpa using hk
  | true =>
    have hplaced : (q.place ("/".intercalate here.trail) n).1 = Placing.name ⟨q, here, n⟩ :=
      name_place q _ n
    have hfinal : (n.rename (q.place ("/".intercalate here.trail) n).1).visits here scalars =
        n.kind.visits here ++ [Placing.outcome ⟨q, here, n⟩] := by
      rw [hplaced, visits_of_not_ref (n := n.rename (Placing.name ⟨q, here, n⟩)) here scalars h]
      exact congrArg (n.kind.visits here ++ ·) (if_pos hs)
    rw [settle_eq q here hs, hfinal, if_pos rfl]
    exact hk.append ((Traces.single ⟨q, here, n⟩).congr rfl rfl)

mutual
/-- **The placings of a tree** are those of its walk. -/
theorem canonicalize_traces (p : Planner) (here : Place) (scalars : Bool) : ∀ n : Node,
    Traces p (p.canonicalize here scalars n).2 (n.placings p here scalars)
      ((p.canonicalize here scalars n).1.visits here scalars)
  | ⟨h, k⟩ => by
    rw [Node.placings]
    cases hr : Node.isRef ⟨h, k⟩ with
    | true =>
      have href : h.isRef = true := hr
      rw [canonicalize_of_isRef p here scalars hr, visits_of_isRef here scalars hr, if_pos href]
      exact Traces.nil p
    | false =>
      have href : ¬ h.isRef = true := by simpa [Node.isRef] using hr
      rw [canonicalize_eq p here scalars hr, if_neg href]
      exact settle_traces (n := ⟨h, _⟩) hr (canonicalKind_traces p here k)
theorem canonicalKind_traces (p : Planner) (here : Place) : ∀ k : Kind,
    Traces p (p.canonicalKind here k).2 (k.placings p here)
      ((p.canonicalKind here k).1.visits here)
  | .leaf _ => Traces.nil p
  | .array item s => by
    rw [canonicalKind_array]
    exact canonicalize_traces p _ false item
  | .dictionary key value d => by
    rw [canonicalKind_dictionary]
    exact (canonicalize_traces p _ false key).append (canonicalize_traces _ _ false value)
  | .object fields d => by
    rw [canonicalKind_object]
    exact canonicalFields_traces p here 0 fields
theorem canonicalFields_traces (p : Planner) (here : Place) (index : Nat) :
    ∀ fields : List Field, Traces p (p.canonicalFields here index fields).2
      (Field.placings p here index fields)
      (Field.visits here index (p.canonicalFields here index fields).1)
  | [] => Traces.nil p
  | ⟨h, type⟩ :: rest => by
    rw [canonicalFields_cons]
    exact (canonicalize_traces p _ true type).append (canonicalFields_traces _ here _ rest)
end

/-! ## The whole forest -/

/-- The walk of a declared type replaces it and places what is inside it. -/
theorem walkType_traces {pre rest : List Node} (hp : p.declared = pre ++ n :: rest) :
    ∃ c, (p.walkType pre.length n).declared = pre ++ c :: rest ∧
      Traces p (p.walkType pre.length n)
        (if n.isRef then [] else n.kind.placings p (typePlace pre.length n))
        (c.typeVisits pre.length) := by
  cases hn : n.isRef with
  | true =>
    have hnone : n.typeVisits pre.length = [] := if_pos hn
    refine ⟨n, by rw [walkType_of_isRef p _ hn, hp], ?_⟩
    rw [walkType_of_isRef p _ hn, hnone]
    exact Traces.nil p
  | false =>
    have hkind := canonicalKind_traces p (typePlace pre.length n) n.kind
    have hdeclared := (canonicalKind_places p (typePlace pre.length n) n.kind).grows.declared
    refine ⟨⟨n.head, _⟩, by rw [walkType_of_not_ref hn hp], ?_⟩
    rw [walkType_of_not_ref hn hp, typeVisits_of_not_ref (n := ⟨n.head, _⟩) _ hn]
    refine hkind.congr ?_ rfl
    -- the final form has the name of the type
    simp [hdeclared, hp, Node.name]

theorem walkTypes_traces : ∀ (types pre : List Node) (p : Planner), p.declared = pre ++ types →
    ∃ final, (p.walkTypes pre.length types).declared = pre ++ final ∧
      Traces p (p.walkTypes pre.length types) (p.typePlacings pre.length types)
        (visitsFrom typeVisits pre.length final)
  | [], pre, p, hp => ⟨[], hp, Traces.nil p⟩
  | n :: rest, pre, p, hp => by
    obtain ⟨c, hc, hfirst⟩ := walkType_traces hp
    obtain ⟨final, hfinal, hrest⟩ := walkTypes_traces rest (pre ++ [c]) (p.walkType pre.length n)
      (by rw [hc, List.append_assoc]; rfl)
    rw [List.length_append, List.length_singleton] at hfinal hrest
    exact ⟨c :: final, by rw [walkTypes, hfinal, List.append_assoc]; rfl, hfirst.append hrest⟩

theorem walkElements_traces : ∀ (elements : List Node) (p : Planner) (index : Nat),
    Traces p (p.walkElements index elements) (p.elementPlacings index elements)
      (visitsFrom elementVisits index (p.finalElements index elements))
  | [], p, _ => Traces.nil p
  | n :: rest, p, index => by
    have hfirst := canonicalize_traces p (elementPlace index n) true n
    refine Traces.append ?_ (walkElements_traces rest (p.walkElement index n) (index + 1))
    rw [elementVisits, elementPlace_canonicalize]
    exact hfirst

end Planner

namespace Forest

/-- **The placings of a forest** lead to its visits and make its new definitions. -/
theorem placings_trace (f : Forest) :
    Planner.Traces ⟨f.types, [], []⟩ f.planner f.placings f.walked.visits := by
  obtain ⟨final, hfinal, htypes⟩ := Planner.walkTypes_traces f.types [] ⟨f.types, [], []⟩ rfl
  have hdeclared : f.planner.declared = final := f.planner_declared.trans hfinal
  rw [visits, walked, hdeclared]
  exact htypes.append (Planner.walkElements_traces f.elements f.typesPlanner 0)

/-- **New definitions are fresh and minimal.** A forest's new definitions are made by its placings
of new names, in order, and its placings lead to its visits. The names of new definitions are
different, and no declared type has one of them. Of two placings of new names whose nodes have the
same base name, the definitions have different shapes. -/
theorem plan_fresh_minimal (f : Forest) :
    f.placings.map Placing.outcome = f.walked.visits ∧
    f.plan.hoisted = (f.placings.filter Placing.isNew).map (fun a => a.outcome.definition) ∧
    (f.plan.hoisted.map fun e => e.node.name).Nodup ∧
    (∀ e ∈ f.plan.hoisted, e.node.name ∉ f.types.map Node.name) ∧
    (f.placings.filter Placing.isNew).Pairwise fun a b =>
      a.visit.node.baseName = b.visit.node.baseName →
        a.outcome.definition.node.sameShape b.outcome.definition.node = false ∧
          b.outcome.definition.node.sameShape a.outcome.definition.node = false := by
  have htrace := f.placings_trace
  have hhoisted : f.plan.hoisted =
      (f.placings.filter Placing.isNew).map fun a => a.outcome.definition := htrace.hoisted
  have hnew : ∀ a ∈ f.placings.filter Placing.isNew, a.isNew = true :=
    fun a ha => (List.mem_filter.mp ha).2
  have hordered := htrace.ordered.filter Placing.isNew
  refine ⟨htrace.visits, hhoisted, ?_, f.hoisted_fresh, ?_⟩
  · rw [hhoisted, List.map_map]
    refine List.pairwise_map.mpr (hordered.imp_of_mem fun {a b} ha hb hlater heq => ?_)
    -- the name of the first one is known when the second one is placed
    have hknown := hlater.names a.name_mem_after
    have hsame : a.name = b.name := heq
    exact Placing.isNew_iff.mp (hnew b hb) (hsame ▸ hknown)
  · refine hordered.imp_of_mem fun {a b} ha hb hlater hbase => ?_
    have hdiffer : a.visit.node.shape ≠ b.visit.node.shape := fun hshape =>
      Placing.not_isNew (hnew a ha) hlater hbase hshape (hnew b hb)
    have hapart : ¬ a.outcome.definition.node.sameShape b.outcome.definition.node = true :=
      fun hsame =>
        hdiffer ((sameShape_iff a.outcome.definition.node b.outcome.definition.node).mp hsame)
    constructor
    · exact Bool.eq_false_iff.mpr hapart
    · exact Bool.eq_false_iff.mpr fun hsame => hapart (sameShape_symm hsame)

end Forest

namespace Sample

/-- A list of texts that may have to have some of them. -/
def listed (label : String) (least : Option Nat) : Node :=
  ⟨Head.fresh label .array, .array
    ⟨Head.fresh "items" .string, .leaf (.string ⟨none, none, none, none⟩)⟩
    ⟨"entry", none, least, none⟩⟩

/-- Lists of texts of four shapes, one of them declared. -/
def lists : Forest where
  types := [listed "string_array" (some 3)]
  elements := [listed "tags" none, listed "codes" (some 1), listed "words" none,
    listed "rows" (some 2), listed "cells" (some 1)]

end Sample

/-- Five lists have three shapes that are not declared, and make three definitions. -/
example : Sample.lists.plan.hoisted.map (fun e => e.node.name) =
    ["string_array-array", "string_array-0", "string_array-1"] := by
  decide +kernel

end Schemata
