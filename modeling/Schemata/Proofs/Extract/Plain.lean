import Schemata.Proofs.Extract.Walk

/-!
# Trees with the names of their places

The builder names every node after its place: a field's type after the field, and the members of
containers `items`, `keys` and `values`. A tree is plain when all its nodes down to the references
still have these names. A walk may rename them; a plain tree that is plain again after its walk
has not been renamed at all.

Results:
* `Kind.plain_of_erased_eq`: whether a tree is plain depends only on what tells types apart.
* `canonicalKind_eq_of_plain`: a plain kind that is plain after its walk is what it was.
* `canonicalKind_settled`: a plain placed node of a walked plain tree has settled.
-/

namespace Schemata

/-! ## Plain trees -/

mutual
/-- A reference, or a node of the given name with a plain tree. -/
def Node.NamedAs (label : String) : Node → Prop
  | ⟨h, k⟩ => h.isRef = true ∨ h.name = label ∧ k.Plain
/-- All nodes below, down to the references, are named after their places. -/
def Kind.Plain : Kind → Prop
  | .leaf _ => True
  | .array item _ => item.NamedAs "items"
  | .dictionary key value _ => key.NamedAs "keys" ∧ value.NamedAs "values"
  | .object fields _ => Field.AllPlain fields
/-- The types of fields are named after the fields. -/
def Field.AllPlain : List Field → Prop
  | [] => True
  | ⟨h, type⟩ :: rest => type.NamedAs h.name ∧ Field.AllPlain rest
end

/-- A named node that is no reference has its name and a plain tree. -/
theorem Node.NamedAs.resolve {label : String} {n : Node} (h : n.NamedAs label)
    (hn : n.isRef = false) : n.name = label ∧ n.kind.Plain := by
  obtain ⟨_, _⟩ := n
  exact Or.resolve_left h (by simpa [Node.isRef] using hn)

mutual
theorem Node.namedAs_erased (label : String) :
    ∀ n : Node, n.erased.NamedAs label ↔ n.NamedAs label
  | ⟨_, k⟩ => or_congr Iff.rfl (and_congr Iff.rfl (Kind.plain_erased k))
theorem Kind.plain_erased : ∀ k : Kind, k.erased.Plain ↔ k.Plain
  | .leaf _ => Iff.rfl
  | .array item _ => Node.namedAs_erased "items" item
  | .dictionary key value _ =>
    and_congr (Node.namedAs_erased "keys" key) (Node.namedAs_erased "values" value)
  | .object fields _ => Field.allPlain_erased fields
theorem Field.allPlain_erased : ∀ fields : List Field,
    Field.AllPlain (Field.erasedAll fields) ↔ Field.AllPlain fields
  | [] => Iff.rfl
  | ⟨h, type⟩ :: rest =>
    and_congr (Node.namedAs_erased h.name type) (Field.allPlain_erased rest)
end

/-- **Whether a tree is plain depends only on what tells types apart.** -/
theorem Kind.plain_of_erased_eq {k l : Kind} (h : k.erased = l.erased) (hk : k.Plain) : l.Plain :=
  (Kind.plain_erased l).mp (h ▸ (Kind.plain_erased k).mpr hk)

theorem Kind.Plain.members {k : Kind} (h : k.Plain) :
    ∀ c ∈ k.children, ∃ label, c.NamedAs label := by
  have hfields : ∀ fields : List Field, Field.AllPlain fields →
      ∀ c ∈ fields.map (·.type), ∃ label, c.NamedAs label := fun fields => by
    induction fields with
    | nil => exact fun _ _ hc => absurd hc List.not_mem_nil
    | cons f rest ih =>
      obtain ⟨head, _⟩ := f
      exact fun hall => List.forall_mem_cons.mpr ⟨⟨head.name, hall.1⟩, ih hall.2⟩
  cases k with
  | leaf spec => exact fun _ hc => absurd hc List.not_mem_nil
  | array item s => exact List.forall_mem_singleton.mpr ⟨_, h⟩
  | dictionary key value d =>
    exact List.forall_mem_cons.mpr ⟨⟨_, h.1⟩, List.forall_mem_singleton.mpr ⟨_, h.2⟩⟩
  | object fields d => exact hfields fields h

/-- What is placed in a plain tree is plain. -/
theorem Kind.plain_of_placed (m : Node) (k : Kind) (hk : k.Plain) (hm : m ∈ k.placed) :
    m.kind.Plain := by
  have hinherited : Node.Inherited fun n => ∃ label, n.NamedAs label := by
    rintro n hr ⟨label, hn⟩
    exact (hn.resolve hr).2.members
  obtain ⟨label, hnamed⟩ := hinherited.placed m k hk.members hm
  exact (hnamed.resolve (Kind.placed_spec m k hm).1).2

/-! ## Walking a plain tree -/

namespace Planner

open Node

mutual
theorem canonicalize_eq_of_namedAs (p : Planner) (here : Place) (scalars : Bool) (label : String) :
    ∀ n : Node, n.NamedAs label → (p.canonicalize here scalars n).1.NamedAs label →
      (p.canonicalize here scalars n).1 = n
  | ⟨h, k⟩, hn, hc => by
    cases hr : Node.isRef ⟨h, k⟩ with
    | true => rw [canonicalize_of_isRef p here scalars hr]
    | false =>
      have hnot : ¬ h.isRef = true := by simpa [isRef] using hr
      obtain ⟨hname, hk⟩ := hn.resolve_left hnot
      rw [canonicalize_eq p here scalars hr] at hc ⊢
      obtain ⟨name, heq⟩ := exists_rename_settle (p.canonicalKind here k).2 here scalars
        ⟨h, (p.canonicalKind here k).1⟩
      rw [heq] at hc ⊢
      obtain ⟨hsame, hplain⟩ := hc.resolve_left hnot
      have hkind := canonicalKind_eq_of_plain p here k hk hplain
      rw [show name = h.name from hsame.trans hname.symm, hkind]
      exact rename_self ⟨h, k⟩
/-- **A plain kind that is plain after its walk is what it was.** -/
theorem canonicalKind_eq_of_plain (p : Planner) (here : Place) : ∀ k : Kind,
    k.Plain → (p.canonicalKind here k).1.Plain → (p.canonicalKind here k).1 = k
  | .leaf _, _, _ => rfl
  | .array item s, hk, hc => by
    rw [canonicalKind_array] at hc ⊢
    exact congrArg (Kind.array · s) (canonicalize_eq_of_namedAs p _ false "items" item hk hc)
  | .dictionary key value d, hk, hc => by
    rw [canonicalKind_dictionary] at hc ⊢
    exact congrArg₂ (Kind.dictionary · · d)
      (canonicalize_eq_of_namedAs p _ false "keys" key hk.1 hc.1)
      (canonicalize_eq_of_namedAs _ _ false "values" value hk.2 hc.2)
  | .object fields d, hk, hc => by
    rw [canonicalKind_object] at hc ⊢
    exact congrArg (Kind.object · d) (canonicalFields_eq_of_allPlain p here 0 fields hk hc)
theorem canonicalFields_eq_of_allPlain (p : Planner) (here : Place) (index : Nat) :
    ∀ fields : List Field, Field.AllPlain fields →
      Field.AllPlain (p.canonicalFields here index fields).1 →
        (p.canonicalFields here index fields).1 = fields
  | [], _, _ => rfl
  | ⟨h, type⟩ :: rest, hk, hc => by
    rw [canonicalFields_cons] at hc ⊢
    exact congrArg₂ (⟨h, ·⟩ :: ·)
      (canonicalize_eq_of_namedAs p _ true h.name type hk.1 hc.1)
      (canonicalFields_eq_of_allPlain _ here (index + 1) rest hk.2 hc.2)
end

/-- A plain node has settled when what is placed below it has the first names that fit. -/
def Settled (p : Planner) (m : Node) : Prop :=
  m.kind.Plain → ∀ x ∈ m.kind.placed, FirstFit p.registry x x.name

theorem Grows.settled {p q : Planner} {m : Node} (h : Grows p q) (hm : p.Settled m) :
    q.Settled m :=
  fun hplain x hx => h.firstFit (hm hplain x hx)

mutual
theorem canonicalize_settled (p : Planner) (here : Place) (scalars : Bool) (label : String) :
    ∀ n : Node, n.NamedAs label → ∀ m ∈ (p.canonicalize here scalars n).1.placedAt scalars,
      (p.canonicalize here scalars n).2.Settled m
  | ⟨h, k⟩, hn, m, hm => by
    cases hr : Node.isRef ⟨h, k⟩ with
    | true =>
      rw [canonicalize_of_isRef p here scalars hr, placedAt_of_isRef scalars hr] at hm
      exact absurd hm List.not_mem_nil
    | false =>
      obtain ⟨-, hk⟩ := hn.resolve hr
      have hbelow := canonicalKind_settled p here k hk
      rw [canonicalize_eq p here scalars hr] at hm ⊢
      obtain ⟨name, heq⟩ := exists_rename_settle (p.canonicalKind here k).2 here scalars
        ⟨h, (p.canonicalKind here k).1⟩
      have hgrows := grows_settle (p.canonicalKind here k).2 here scalars
        ⟨h, (p.canonicalKind here k).1⟩
      rw [heq] at hm
      obtain ⟨-, rfl | hm⟩ := mem_placedAt hm
      · -- the root itself: plain again, so nothing below it was renamed
        intro hplain x hx
        have hkeep := canonicalKind_eq_of_plain p here k hk hplain
        exact hgrows.firstFit (settled_of_canonicalKind_eq hkeep x (by rwa [← hkeep]))
      · exact hgrows.settled (hbelow m hm)
/-- **A plain placed node of a walked plain tree has settled.** -/
theorem canonicalKind_settled (p : Planner) (here : Place) : ∀ k : Kind, k.Plain →
    ∀ m ∈ (p.canonicalKind here k).1.placed, (p.canonicalKind here k).2.Settled m
  | .leaf _, _, _, hm => absurd hm List.not_mem_nil
  | .array item s, hk, m, hm => by
    rw [canonicalKind_array] at hm ⊢
    exact canonicalize_settled p _ false "items" item hk m hm
  | .dictionary key value d, hk, m, hm => by
    rw [canonicalKind_dictionary] at hm ⊢
    rcases List.mem_append.mp hm with hm | hm
    · exact (canonicalize_places _ _ false value).grows.settled
        (canonicalize_settled p _ false "keys" key hk.1 m hm)
    · exact canonicalize_settled _ _ false "values" value hk.2 m hm
  | .object fields d, hk, m, hm => by
    rw [canonicalKind_object] at hm ⊢
    exact canonicalFields_settled p here 0 fields hk m hm
theorem canonicalFields_settled (p : Planner) (here : Place) (index : Nat) :
    ∀ fields : List Field, Field.AllPlain fields →
      ∀ m ∈ Field.placedAll (p.canonicalFields here index fields).1,
        (p.canonicalFields here index fields).2.Settled m
  | [], _, _, hm => absurd hm List.not_mem_nil
  | ⟨h, type⟩ :: rest, hk, m, hm => by
    rw [canonicalFields_cons] at hm ⊢
    rcases List.mem_append.mp hm with hm | hm
    · exact (canonicalFields_places _ here _ rest).grows.settled
        (canonicalize_settled p _ true h.name type hk.1 m hm)
    · exact canonicalFields_settled _ here (index + 1) rest hk.2 m hm
end

end Planner

end Schemata
