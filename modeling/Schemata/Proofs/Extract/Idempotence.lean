import Schemata.Proofs.Extract.Final
import Mathlib.Data.Nat.Find

/-!
# When a second extraction has nothing to do

A plan is empty exactly when every placed node has the first name that fits it (`plan_isEmpty_iff`).
In a final forest the names tried before a node's own are all taken; but the first run may have
turned one of them down for the shape of a declared type that had not been walked yet, and the walk
may have given that type the shape of the node. Then a second run takes the name. So extraction is
idempotent on a forest exactly when in its final form no name tried before a node's own fits it.

Results:
* `Forest.plan_isEmpty_iff`: a plan is empty exactly when the forest is settled.
* `extract_idempotent_iff`: the exact condition for an empty second plan.
* `extract_not_idempotent`: two declared types for which the second plan renames a node.
-/

namespace Schemata

namespace Planner

open Node

/-! ## Settled forests -/

theorem walkTypes_of_settled : ∀ (types pre : List Node) (p : Planner), p.declared = pre ++ types →
    (∀ n ∈ types, n.isRef = false → ∀ m ∈ n.kind.placed, FirstFit p.registry m m.name) →
      p.walkTypes pre.length types = p
  | [], _, _, _, _ => rfl
  | n :: rest, pre, p, hp, hfit => by
    have hstep : p.walkType pre.length n = p := by
      cases hn : n.isRef with
      | true => exact walkType_of_isRef p _ hn
      | false =>
        have hkind := canonicalKind_of_settled p (typePlace pre.length n) n.kind
          (hfit n List.mem_cons_self hn)
        rw [walkType_of_not_ref hn hp, hkind]
        simp only [n.eta, ← hp]
    have hrest := walkTypes_of_settled rest (pre ++ [n]) p (by rw [hp, List.append_assoc]; rfl)
      fun m hm => hfit m (List.mem_cons_of_mem _ hm)
    rw [List.length_append] at hrest
    rw [walkTypes, hstep]
    exact hrest

theorem walkElements_of_settled : ∀ (elements : List Node) (p : Planner) (index : Nat),
    (∀ n ∈ elements, ∀ m ∈ n.placedAt true, FirstFit p.registry m m.name) →
      p.walkElements index elements = p
  | [], _, _, _ => rfl
  | n :: rest, p, index, hfit => by
    have hstep : p.walkElement index n = p := by
      rw [walkElement_eq, canonicalize_of_settled p _ true n (hfit n List.mem_cons_self)]
    rw [walkElements, hstep]
    exact walkElements_of_settled rest p (index + 1) fun m hm => hfit m (List.mem_cons_of_mem _ hm)

/-- While nothing has been renamed or added, the nodes placed so far have settled. -/
def Idle (p : Planner) (placed : List Node) : Prop :=
  p.renames = [] → p.hoisted = [] → ∀ m ∈ placed, FirstFit p.registry m m.name

theorem walkType_idle {p : Planner} {pre rest placed : List Node} {n : Node} (h : p.Idle placed)
    (hp : p.declared = pre ++ n :: rest) (hn : n.isRef = false) :
    (p.walkType pre.length n).Idle
      (placed ++ (p.canonicalKind (typePlace pre.length n) n.kind).1.placed) := by
  have hgrows := (canonicalKind_places p (typePlace pre.length n) n.kind).grows
  rw [walkType_of_not_ref hn hp]
  intro hrenames hhoisted
  have hnone : p.renames = [] := List.prefix_nil.mp (hrenames ▸ hgrows.renames)
  have hno : p.hoisted = [] := List.prefix_nil.mp (hhoisted ▸ hgrows.hoisted)
  have hkeep := canonicalKind_eq_of_renames p (typePlace pre.length n) n.kind
    (hrenames.trans hnone.symm)
  have hsame : ({ (p.canonicalKind (typePlace pre.length n) n.kind).2 with
      declared := pre ++ ⟨n.head, (p.canonicalKind (typePlace pre.length n) n.kind).1⟩ :: rest } :
        Planner).registry = (p.canonicalKind (typePlace pre.length n) n.kind).2.registry := by
    simp only [Planner.registry, hkeep, n.eta, hgrows.declared, hp]
  rw [hsame, hkeep]
  refine List.forall_mem_append.mpr ⟨fun m hm => ?_, settled_of_canonicalKind_eq hkeep⟩
  exact hgrows.firstFit (h hnone hno m hm)

end Planner

namespace Forest

/-- Every placed node has the first name that fits it. -/
def Settled (f : Forest) : Prop := ∀ m ∈ f.placed, Node.FirstFit f.types m m.name

theorem planner_of_settled {f : Forest} (h : f.Settled) : f.planner = ⟨f.types, [], []⟩ := by
  have htypes : f.typesPlanner = ⟨f.types, [], []⟩ :=
    Planner.walkTypes_of_settled f.types [] ⟨f.types, [], []⟩ rfl fun n hn hr m hm => by
      simpa [Planner.registry] using h m (mem_placed.mpr (Or.inl ⟨n, hn, hr, hm⟩))
  rw [planner, htypes]
  refine Planner.walkElements_of_settled f.elements _ 0 fun n hn m hm => ?_
  simpa [Planner.registry] using h m (mem_placed.mpr (Or.inr ⟨n, hn, hm⟩))

/-- A forest that a plan leaves alone is its own final form, and has settled. -/
theorem settled_of_planner {f : Forest} (hrenames : f.planner.renames = [])
    (hhoisted : f.planner.hoisted = []) : f.Settled := by
  have hgrows := (planner_places f).grows
  have hwalked : f = f.walked := by
    have hall := renameAll_plan f
    rwa [show f.plan.renames = [] from hrenames] at hall
  have helements : f.finalElements = f.elements := (congrArg elements hwalked).symm
  have hregistry : f.planner.registry = f.types := by
    rw [Planner.registry, hhoisted, List.map_nil, List.append_nil]
    exact (congrArg types hwalked).symm
  have htypes : Planner.Idle f.typesPlanner (f.typesPlanner.declared.flatMap Node.placedBelow) :=
    typesPlanner_induction (P := fun _ => True)
      (fun p pre rest placed n hp hn _ h => Planner.walkType_idle h hp hn)
      (fun _ _ _ => trivial) (fun _ _ => by simp)
  intro m hm
  rw [hwalked] at hm
  rw [← hregistry]
  rcases List.mem_append.mp hm with hm | hm
  · rw [walked, hgrows.declared] at hm
    exact hgrows.firstFit (htypes (List.prefix_nil.mp (hrenames ▸ hgrows.renames))
      (List.prefix_nil.mp (hhoisted ▸ hgrows.hoisted)) m hm)
  · have hfits := (planner_places f).fits
    rw [helements, List.forall₂_same] at hfits
    rw [walked, helements] at hm
    exact m.rename_self ▸ hfits m hm

/-- **A plan is empty exactly when the forest is settled.** -/
theorem plan_isEmpty_iff (f : Forest) : f.plan.isEmpty = true ↔ f.Settled := by
  have hplan : f.plan = ⟨f.planner.renames, f.planner.hoisted⟩ := rfl
  rw [hplan]
  constructor
  · intro hempty
    obtain ⟨hrenames, hhoisted⟩ := Bool.and_eq_true_iff.mp hempty
    exact settled_of_planner (List.isEmpty_iff.mp hrenames) (List.isEmpty_iff.mp hhoisted)
  · intro hsettled
    rw [planner_of_settled hsettled]
    rfl

end Forest

/-! ## Twice -/

/-- Among the names tried for a node that all stand for types, its own is the first to fit exactly
when it fits and none before it does. -/
theorem Node.Tried.firstFit_iff {types : List Node} {n : Node} (h : Node.Tried types n) :
    Node.FirstFit types n n.name ↔ Node.Shared types n n.name ∧
      ∀ k, (∀ j ≤ k, n.candidate j ≠ n.name) → ¬ Node.Shared types n (n.candidate k) := by
  constructor
  · rintro ⟨k, hk, htaken, hshared⟩
    refine ⟨hshared, fun i hi => (htaken i ?_).not_shared⟩
    by_contra hle
    exact hi k (Nat.not_lt.mp hle) hk
  · rintro ⟨hshared, hbefore⟩
    obtain ⟨k, hk, hnames⟩ := h
    -- the least position of the name: no earlier candidate is the name itself
    have hex : ∃ i, n.candidate i = n.name := ⟨k, hk⟩
    refine ⟨Nat.find hex, Nat.find_spec hex, fun j hj => ?_, hshared⟩
    have hnot := hbefore j fun i hi => Nat.find_min hex (Nat.lt_of_le_of_lt hi hj)
    obtain ⟨d, hd⟩ := Node.exists_named?
      (hnames j (Nat.le_of_lt (Nat.lt_of_lt_of_le hj (Nat.find_min' hex hk))))
    exact ⟨d, hd, fun hshape => hnot ⟨d, hd, hshape⟩⟩

/-- **When a second extraction has nothing to do.** The plan for an extracted forest is empty exactly
when every placed node still names a type of its shape, and none of the names tried for it before its
own names one. -/
theorem extract_idempotent_iff (f : Forest) : f.extract.plan.isEmpty = true ↔
    ∀ n ∈ f.extract.placed, Node.Shared f.extract.types n n.name ∧
      ∀ k, (∀ j ≤ k, n.candidate j ≠ n.name) →
        ¬ Node.Shared f.extract.types n (n.candidate k) := by
  rw [Forest.plan_isEmpty_iff]
  exact forall₂_congr fun n hn => (Forest.extract_tried f n hn).firstFit_iff

namespace Sample

/-- An array of arrays of texts before its walk: its item is named after its place. -/
def rawGrid (name : String) : Node :=
  let items : ArraySpec := ⟨"entry", none, none, none⟩
  let text : Node := ⟨Head.fresh "items" .string, .leaf (.string ⟨none, none, none, none⟩)⟩
  ⟨Head.fresh name .array, .array ⟨Head.fresh "items" .array, .array text items⟩ items⟩

/-- A type with a field for a grid, and a declared grid under the name that is tried first for the
type of the field. -/
def board : Forest :=
  ⟨[⟨Head.fresh "Board" .object, .object [⟨⟨"cells", "", false, none⟩, rawGrid "cells"⟩] none⟩,
    rawGrid "array_array"], []⟩

end Sample

/-- The first run turns `array_array` down for the field, as the declared grid has not been walked and
its item has another name; the second run takes it. -/
theorem extract_not_idempotent :
    Sample.board.extract.plan = ⟨[⟨.type 0, [.field 0], "array_array"⟩], []⟩ ∧
      ¬ ∀ f : Forest, f.extract.plan.isEmpty = true := by
  have hplan : Sample.board.extract.plan = ⟨[⟨.type 0, [.field 0], "array_array"⟩], []⟩ := by
    decide +kernel
  refine ⟨hplan, fun hall => ?_⟩
  have hempty := hall Sample.board
  rw [hplan] at hempty
  exact absurd hempty (by decide)

end Schemata
