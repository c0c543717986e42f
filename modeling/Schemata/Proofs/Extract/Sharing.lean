import Schemata.Proofs.Extract.Final
import Schemata.Proofs.Extract.Plain

/-!
# Nodes share a type only with nodes of their shape

A placed node may be given the name of a declared type that has not been walked yet. The walk of
that type may rename its members and so change its shape, and the node would be left with the name
of a type it does not have. In a forest of plain types this does not happen: a node of the shape of
a plain type has settled, so the type has settled too and its walk changes nothing
(`walkType_shape_ne`).

Results:
* `walkType_sound`: the walk of a plain declared type keeps the planner sound.
* `Forest.extract_shared`: in the final forest, every placed node names a type of its shape.
-/

namespace Schemata

/-! ## Replacing a type by one of its name -/

namespace Node

variable {pre rest : List Node} {n c m : Node} {name : String}

theorem named?_replace (hname : c.name = n.name) (pre rest : List Node) (name : String) :
    named? (pre ++ c :: rest) name = named? (pre ++ n :: rest) name ∨
      named? (pre ++ n :: rest) name = some n ∧ named? (pre ++ c :: rest) name = some c := by
  unfold named?
  rw [List.find?_append, List.find?_append]
  cases pre.find? (·.name = name) with
  | some d => exact Or.inl rfl
  | none =>
    by_cases hn : n.name = name
    · exact Or.inr (by simp [hn, hname])
    · exact Or.inl (by simp [hn, hname])

/-- A node whose shape is not that of the old type, or is that of the new one, stays shared. -/
theorem Shared.replace (hname : c.name = n.name) (hshape : n.shape = m.shape → c.shape = m.shape)
    (h : Shared (pre ++ n :: rest) m name) : Shared (pre ++ c :: rest) m name := by
  obtain ⟨d, hd, hm⟩ := h
  rcases named?_replace hname pre rest name with hsame | ⟨hold, hnew⟩
  · exact ⟨d, hsame.trans hd, hm⟩
  · rw [hold, Option.some.injEq] at hd
    exact ⟨c, hnew, hshape (hd ▸ hm)⟩

theorem Taken.replace (hname : c.name = n.name) (hshape : n.shape ≠ m.shape → c.shape ≠ m.shape)
    (h : Taken (pre ++ n :: rest) m name) : Taken (pre ++ c :: rest) m name := by
  obtain ⟨d, hd, hm⟩ := h
  rcases named?_replace hname pre rest name with hsame | ⟨hold, hnew⟩
  · exact ⟨d, hsame.trans hd, hm⟩
  · rw [hold, Option.some.injEq] at hd
    exact ⟨c, hnew, hshape (hd ▸ hm)⟩

/-- The first name to fit stays the first when the new type fits a node exactly if the old one
did. -/
theorem FirstFit.replace (hname : c.name = n.name) (hshape : n.shape = m.shape ↔ c.shape = m.shape)
    (h : FirstFit (pre ++ n :: rest) m name) : FirstFit (pre ++ c :: rest) m name := by
  obtain ⟨k, hk, htaken, hshared⟩ := h
  exact ⟨k, hk, fun j hj => (htaken j hj).replace hname (mt hshape.mpr),
    hshared.replace hname hshape.mp⟩

theorem FirstFit.of_erased_eq {types : List Node} (h : n.erased = m.erased)
    (hfit : FirstFit types n n.name) : FirstFit types m m.name := by
  obtain ⟨hname, hshape⟩ := erased_eq_iff_shape.mp h
  have hbase : n.baseName = m.baseName := by
    rw [← n.baseName_erased, ← m.baseName_erased, h]
  have hsuffix : n.kind.suffix = m.kind.suffix := by
    rw [← n.kind.suffix_erased, ← m.kind.suffix_erased, (erased_eq_iff.mp h).2]
  exact hname ▸ hfit.congr (candidate_congr hbase hsuffix) hshape

end Node

/-! ## The planner stays sound -/

namespace Planner

open Node

/-- What is known of the placed nodes of plain types: they name types of their shapes, and plain ones
have settled. -/
structure Sound (p : Planner) (placed : List Node) : Prop where
  /-- Every placed node names a type of its shape. -/
  shared : ∀ m ∈ placed, Shared p.registry m m.name
  /-- Plain placed nodes have settled. -/
  settled : ∀ m ∈ placed, p.Settled m

variable {p q : Planner} {placed pre rest raw final : List Node} {n : Node}

/-- More placed nodes keep the planner sound. -/
theorem Sound.append (h : Sound p placed) (hpq : Places p q raw final)
    (hsettled : ∀ m ∈ final, q.Settled m) : Sound q (placed ++ final) where
  shared := List.forall_mem_append.mpr
    ⟨fun m hm => hpq.grows.shared (h.shared m hm), hpq.shared⟩
  settled := List.forall_mem_append.mpr
    ⟨fun m hm => hpq.grows.settled (h.settled m hm), hsettled⟩

/-- A declared type may be replaced by one of its name and shape, and by one that is not plain if no
placed node has its shape. -/
theorem Sound.replace {c : Node} (h : Sound p placed)
    (hclosed : ∀ m ∈ placed, m.kind.placed ⊆ placed) (hp : p.declared = pre ++ n :: rest)
    (hname : c.name = n.name)
    (hshape : n.shape = c.shape ∨ ¬ c.kind.Plain ∧ ∀ m ∈ placed, n.shape ≠ m.shape) :
    Sound { p with declared := pre ++ c :: rest } placed := by
  have hold : p.registry = pre ++ n :: (rest ++ p.hoisted.map (·.node)) := by
    simp [Planner.registry, hp]
  have hnew : ({ p with declared := pre ++ c :: rest } : Planner).registry =
      pre ++ c :: (rest ++ p.hoisted.map (·.node)) := by
    simp [Planner.registry]
  refine ⟨fun m hm => ?_, fun m hm hplain x hx => ?_⟩
  · have hshared := h.shared m hm
    rw [hold] at hshared
    rw [hnew]
    refine hshared.replace hname fun hnm => ?_
    rcases hshape with heq | ⟨-, hne⟩
    · exact heq.symm.trans hnm
    · exact absurd hnm (hne m hm)
  · have hfit := h.settled m hm hplain x hx
    rw [hold] at hfit
    rw [hnew]
    refine hfit.replace hname ?_
    rcases hshape with heq | ⟨hnot, hne⟩
    · rw [heq]
    · have hxplain := Kind.plain_of_placed x m.kind hplain hx
      refine ⟨fun hnx => absurd hnx (hne x (hclosed m hm hx)), fun hcx => ?_⟩
      exact absurd (Kind.plain_of_erased_eq (shape_eq_iff.mp hcx).2.symm hxplain) hnot

/-- **A walk that changes the shape of a plain type has placed no node of that shape.** -/
theorem walkType_shape_ne {here : Place} {k : Kind} (hp : Sound p placed) (hk : k.Plain)
    (hne : (p.canonicalKind here k).1.erased ≠ k.erased) :
    ∀ m ∈ placed ++ (p.canonicalKind here k).1.placed, m.kind.erased ≠ k.erased := by
  intro m hm hshape
  rcases List.mem_append.mp hm with hm | hm
  · -- a node placed before the walk has settled, so the type has, and the walk changes nothing
    have hfit := hp.settled m hm (Kind.plain_of_erased_eq hshape.symm hk)
    have hkeep : p.canonicalKind here k = (k, p) := canonicalKind_of_settled p here k fun x hx => by
      obtain ⟨y, hy, hyx⟩ := Kind.exists_placed_of_erased_eq hshape.symm hx
      exact (hfit y hy).of_erased_eq hyx
    exact hne (by rw [hkeep])
  · -- a node placed by the walk is smaller than the type
    have hlt := Kind.length_placed_lt hm
    have hlen := (canonicalKind_places p here k).fits.length_eq
    have heq := Kind.length_placed_of_erased_eq hshape
    omega

/-- **The walk of a plain declared type keeps the planner sound.** -/
theorem walkType_sound (htracked : Tracked p placed) (hp : Sound p placed)
    (hdeclared : p.declared = pre ++ n :: rest) (hn : n.isRef = false) (hk : n.kind.Plain) :
    Sound (p.walkType pre.length n)
      (placed ++ (p.canonicalKind (typePlace pre.length n) n.kind).1.placed) := by
  have hplaces := canonicalKind_places p (typePlace pre.length n) n.kind
  have hclosed := (htracked.append hplaces fun m hm => Kind.placed_subset hm).closed
  have hsound := hp.append hplaces (canonicalKind_settled p (typePlace pre.length n) n.kind hk)
  rw [walkType_of_not_ref hn hdeclared]
  refine hsound.replace hclosed (hplaces.grows.declared.trans hdeclared) rfl ?_
  by_cases hshape : (p.canonicalKind (typePlace pre.length n) n.kind).1.erased = n.kind.erased
  · have hhead : n.head.sameShape n.head = true := by simp [Head.sameShape]
    exact Or.inl (shape_eq_iff.mpr ⟨hhead, hshape.symm⟩)
  · refine Or.inr ⟨fun hplain => hshape ?_, fun m hm hnm => ?_⟩
    · rw [canonicalKind_eq_of_plain p _ n.kind hk hplain]
    · exact walkType_shape_ne hp hk hshape m hm (shape_eq_iff.mp hnm).2.symm

end Planner

/-! ## The final forest -/

namespace Forest

/-- A forest whose declared types, down to the references, are named after their places. -/
def Plain (f : Forest) : Prop := ∀ n ∈ f.types, n.isRef = false → n.kind.Plain

/-- **In the final forest, every placed node names a type of its shape.** -/
theorem extract_shared {f : Forest} (hf : f.Plain) :
    ∀ m ∈ f.extract.placed, Node.Shared f.extract.types m m.name := by
  have htypes := typesPlanner_induction (f := f)
    (I := fun p placed => Planner.Tracked p placed ∧ Planner.Sound p placed)
    (fun p pre rest placed n hp hn hk h =>
      ⟨Planner.walkType_tracked h.1 hp hn, Planner.walkType_sound h.1 h.2 hp hn hk⟩) hf
    ⟨⟨by simp, by simp, by simp⟩, ⟨by simp, by simp⟩⟩
  have helements := Planner.walkElements_places f.elements f.typesPlanner 0
  have hdeclared : f.planner.declared = f.typesPlanner.declared := helements.grows.declared
  have hwalked : ∀ m ∈ f.walked.placed, Node.Shared f.planner.registry m m.name := by
    unfold walked placed
    rw [hdeclared]
    exact List.forall_mem_append.mpr
      ⟨fun m hm => helements.grows.shared (htypes.2.shared m hm), helements.shared⟩
  intro m hm
  have hshared := hwalked m (placed_extract_subset f hm)
  rwa [extract_eq]

end Forest

end Schemata
