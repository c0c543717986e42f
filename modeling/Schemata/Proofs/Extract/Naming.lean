import Schemata.Extract.Plan
import Schemata.Proofs.Model.Erasure
import Schemata.Proofs.Model.Lookup
import Schemata.Proofs.Text.Digits
import Mathlib.Data.List.Nodup
import Mathlib.Data.List.Perm.Subperm
import Mathlib.Order.Bounds.Defs

/-!
# How a node gets its name

The names that are tried for a node form a sequence without end: its base name, the base name with
a suffix, then counters. A name fits when it stands for a type of the node's shape, and
`Node.FirstFit` says that a name is the first to fit while those before it stand for types of other
shapes. The names of the sequence are all different (`candidate_injective`), so of as many as there
are types and one more, one is free (`exists_free_candidate`). The planner therefore comes to a name
that it accepts, and placing a node always makes its name the first to fit.

Results:
* `find?_candidates`: the search ends at the first name of the sequence that is accepted, behind no
  more names than there are types.
* `choose_spec`: the chosen name is free or fits, and every name before it stands for another shape.
* `place_spec`: once a node has been placed, its name is the first to fit; the planner has grown.
* `place_isLeast`: placing a node finds it a name, which stands for a type of its shape afterwards.
* `place_eq_of_firstFit`: a node whose name is the first to fit keeps it, and the planner stays.
* `FirstFit.unique`, `FirstFit.append`: the first name to fit is one, and stays so as types are
  added.
* `FirstFit.eq_baseName_iff`: the name tried first is the first to fit exactly when it fits.
-/

namespace Schemata

namespace Node

/-! ## Names and types -/

/-- The names tried for a node, in order. -/
def candidate (n : Node) : Nat → String
  | 0 => n.baseName
  | 1 => n.baseName ++ n.kind.suffix
  | i + 2 => s!"{n.baseName}-{i}"

/-- A name stands for a type of the node's shape. -/
def Shared (types : List Node) (n : Node) (name : String) : Prop :=
  ∃ d, named? types name = some d ∧ d.shape = n.shape

/-- A name stands for a type of another shape. -/
def Taken (types : List Node) (n : Node) (name : String) : Prop :=
  ∃ d, named? types name = some d ∧ d.shape ≠ n.shape

/-- A name is the first to fit: it is shared, and every name tried before it is taken. -/
def FirstFit (types : List Node) (n : Node) (name : String) : Prop :=
  ∃ k, n.candidate k = name ∧ (∀ j < k, Taken types n (n.candidate j)) ∧ Shared types n name

variable {types : List Node} {n m : Node} {name : String}

theorem Taken.not_shared (h : Taken types n name) : ¬ Shared types n name := by
  rintro ⟨d, hd, hshape⟩
  obtain ⟨e, he, hne⟩ := h
  rw [hd, Option.some.injEq] at he
  exact hne (he ▸ hshape)

theorem Shared.append (h : Shared types n name) (new : List Node) :
    Shared (types ++ new) n name := by
  obtain ⟨d, hd, hshape⟩ := h
  exact ⟨d, named?_append hd new, hshape⟩

theorem Taken.append (h : Taken types n name) (new : List Node) : Taken (types ++ new) n name := by
  obtain ⟨d, hd, hshape⟩ := h
  exact ⟨d, named?_append hd new, hshape⟩

/-- A name that stands for a type fits a node exactly when the type has its shape. -/
theorem shared_iff (hd : named? types name = some d) :
    Shared types n name ↔ d.shape = n.shape := by
  unfold Shared
  rw [hd]
  simp

theorem Shared.mem_names (h : Shared types n name) : name ∈ types.map Node.name := by
  obtain ⟨d, hd, -⟩ := h
  exact List.mem_map.mpr ⟨d, mem_of_named? hd, name_of_named? hd⟩

theorem Taken.mem_names (h : Taken types n name) : name ∈ types.map Node.name := by
  obtain ⟨d, hd, -⟩ := h
  exact List.mem_map.mpr ⟨d, mem_of_named? hd, name_of_named? hd⟩

/-! ## The first name to fit -/

theorem FirstFit.shared (h : FirstFit types n name) : Shared types n name := by
  obtain ⟨-, -, -, hshared⟩ := h
  exact hshared

/-- **The first name to fit stays the first as types are added.** -/
theorem FirstFit.append (h : FirstFit types n name) (new : List Node) :
    FirstFit (types ++ new) n name := by
  obtain ⟨k, hk, htaken, hshared⟩ := h
  exact ⟨k, hk, fun j hj => (htaken j hj).append new, hshared.append new⟩

/-- **There is one first name to fit.** -/
theorem FirstFit.unique {other : String} (h : FirstFit types n name)
    (h' : FirstFit types n other) : name = other := by
  obtain ⟨k, rfl, htaken, hshared⟩ := h
  obtain ⟨l, rfl, htaken', hshared'⟩ := h'
  rcases Nat.lt_trichotomy k l with hlt | rfl | hlt
  · exact absurd hshared (htaken' k hlt).not_shared
  · rfl
  · exact absurd hshared' (htaken l hlt).not_shared

/-- The name tried first is the first to fit exactly when it fits. -/
theorem FirstFit.eq_baseName_iff (h : FirstFit types n name) :
    name = n.baseName ↔ Shared types n n.baseName := by
  constructor
  · rintro rfl
    exact h.shared
  · intro hfits
    obtain ⟨k, rfl, htaken, -⟩ := h
    cases k with
    | zero => rfl
    | succ k => exact absurd hfits (htaken 0 k.succ_pos).not_shared

/-- Which names fit a node depends on its base name and its shape. -/
theorem candidate_congr (hbase : n.baseName = m.baseName)
    (hsuffix : n.kind.suffix = m.kind.suffix) : n.candidate = m.candidate := by
  funext i
  match i with
  | 0 => exact hbase
  | 1 => simp only [candidate, hbase, hsuffix]
  | _ + 2 => simp only [candidate, hbase]

theorem FirstFit.congr (hcand : n.candidate = m.candidate) (hshape : n.shape = m.shape)
    (h : FirstFit types n name) : FirstFit types m name := by
  obtain ⟨k, hk, htaken, hshared⟩ := h
  refine ⟨k, hcand ▸ hk, fun j hj => ?_, ?_⟩
  · have := htaken j hj
    unfold Taken at this ⊢
    rwa [← hcand, ← hshape]
  · unfold Shared at hshared ⊢
    rwa [← hshape]

/-! ## Names tried before -/

/-- The name of a node is one of those tried for it, and it and those before it name types. -/
def Tried (types : List Node) (n : Node) : Prop :=
  ∃ k, n.candidate k = n.name ∧ ∀ j ≤ k, n.candidate j ∈ types.map Node.name

theorem Tried.mono {more : List Node} (h : Tried types n)
    (hmore : types.map Node.name ⊆ more.map Node.name) : Tried more n := by
  obtain ⟨k, hk, hbefore⟩ := h
  exact ⟨k, hk, fun j hj => hmore (hbefore j hj)⟩

/-- A node that was given the first name to fit has tried the names before it. The names tried for
containers do not depend on their own names; any other node tries its own name first. -/
theorem FirstFit.tried {old : String} (h : FirstFit types (n.rename old) n.name) :
    Tried types n := by
  obtain ⟨k, hk, htaken, hshared⟩ := h
  by_cases hbase : (n.rename old).baseName = n.baseName
  · rw [candidate_congr hbase rfl] at hk htaken
    refine ⟨k, hk, fun j hj => ?_⟩
    rcases Nat.lt_or_eq_of_le hj with hlt | rfl
    · exact (htaken j hlt).mem_names
    · exact hk ▸ hshared.mem_names
  · have hown : n.baseName = n.name := by
      obtain ⟨h, kind⟩ := n
      cases kind <;> first | rfl | exact absurd rfl hbase
    refine ⟨0, hown, fun j hj => ?_⟩
    obtain rfl := Nat.le_zero.mp hj
    rw [show n.candidate 0 = n.name from hown]
    exact hshared.mem_names

/-! ## Different names -/

/-- Every suffix has a letter, which a counter has not. -/
theorem exists_letter_suffix (k : Kind) : ∃ c ∈ k.suffix.toList, c ≠ '-' ∧ c.isDigit = false := by
  cases k with
  | leaf spec =>
    cases spec with
    | enum => exact ⟨'e', by simp [Kind.suffix], by simp, rfl⟩
    | _ => exact ⟨'t', by simp [Kind.suffix], by simp, rfl⟩
  | array => exact ⟨'a', by simp [Kind.suffix], by simp, rfl⟩
  | dictionary => exact ⟨'d', by simp [Kind.suffix], by simp, rfl⟩
  | object => exact ⟨'o', by simp [Kind.suffix], by simp, rfl⟩

/-- A name with a counter is the base name, a hyphen and digits. -/
theorem candidate_counter (n : Node) (i : Nat) :
    n.candidate (i + 2) = n.baseName ++ String.ofList ('-' :: Nat.toDigits 10 i) := by
  apply String.toList_injective
  simp [candidate, toString]

theorem candidate_ne_of_lt (n : Node) {i j : Nat} (h : i < j) : n.candidate i ≠ n.candidate j := by
  intro heq
  match i, j, h with
  | 0, 1, _ =>
    have hempty : n.kind.suffix = "" := String.append_eq_left_iff.mp heq.symm
    obtain ⟨c, hc, -⟩ := exists_letter_suffix n.kind
    simp [hempty] at hc
  | 0, j + 2, _ =>
    rw [candidate_counter] at heq
    have hempty := String.append_eq_left_iff.mp heq.symm
    simp at hempty
  | 1, j + 2, _ =>
    rw [candidate_counter] at heq
    have hcounter : n.kind.suffix = String.ofList ('-' :: Nat.toDigits 10 j) :=
      (String.append_right_inj _).mp heq
    obtain ⟨c, hc, hhyphen, hletter⟩ := exists_letter_suffix n.kind
    rw [hcounter, String.toList_ofList, List.mem_cons] at hc
    have hdigit := Nat.isDigit_of_mem_toDigits (by decide) (by decide) (hc.resolve_left hhyphen)
    rw [hletter] at hdigit
    exact absurd hdigit (by decide)
  | i + 2, j + 2, h =>
    rw [candidate_counter, candidate_counter, String.append_right_inj] at heq
    have hdigits := (List.cons.inj (String.ofList_injective heq)).2
    have hcounter := Text.toDigits_inj hdigits
    omega

/-- **The names tried for a node are all different.** -/
theorem candidate_injective (n : Node) : Function.Injective n.candidate := by
  intro i j h
  rcases Nat.lt_trichotomy i j with hlt | heq | hlt
  · exact absurd h (n.candidate_ne_of_lt hlt)
  · exact heq
  · exact absurd h.symm (n.candidate_ne_of_lt hlt)

/-- **One name more than there are types** makes a free one. -/
theorem exists_free_candidate (types : List Node) (n : Node) :
    ∃ k ≤ types.length, named? types (n.candidate k) = none := by
  by_contra hall
  have hnodup : ((List.range (types.length + 1)).map n.candidate).Nodup :=
    List.nodup_range.map n.candidate_injective
  have hsub : (List.range (types.length + 1)).map n.candidate ⊆ types.map Node.name := by
    intro x hx
    obtain ⟨k, hk, rfl⟩ := List.mem_map.mp hx
    by_contra hfree
    exact hall ⟨k, Nat.le_of_lt_succ (List.mem_range.mp hk), named?_eq_none_iff.mpr hfree⟩
  have hlen := (hnodup.subperm hsub).length_le
  simp only [List.length_map, List.length_range] at hlen
  omega

end Node

namespace Planner

open Node

variable {p q : Planner} {n : Node} {name : String}

theorem lookup?_eq (p : Planner) (name : String) : p.lookup? name = named? p.registry name := rfl

theorem accepts_iff :
    p.accepts n name = true ↔ named? p.registry name = none ∨ Shared p.registry n name := by
  unfold accepts Shared
  rw [lookup?_eq]
  cases named? p.registry name with
  | none => simp
  | some d =>
    simp only [reduceCtorEq, false_or, Option.some.injEq, exists_eq_left', sameShape_iff]
    exact eq_comm

theorem not_accepts_iff : p.accepts n name = false ↔ Taken p.registry n name := by
  unfold accepts Taken
  rw [lookup?_eq]
  cases named? p.registry name with
  | none => simp
  | some d =>
    simp only [← Bool.not_eq_true, Option.some.injEq, exists_eq_left', sameShape_iff]
    exact not_congr eq_comm

/-- The planner tries the names of the sequence, one counter more than there are types. -/
theorem candidates_eq (p : Planner) (n : Node) :
    p.candidates n = (List.range (p.registry.length + 3)).map n.candidate := by
  rw [List.range_succ_eq_map, List.range_succ_eq_map]
  simp [candidates, candidate, Function.comp_def]

/-- **The search for a name ends** at the first name of the sequence that is accepted, behind no
more names than there are types. -/
theorem find?_candidates (p : Planner) (n : Node) : ∃ k ≤ p.registry.length,
    IsLeast {k | p.accepts n (n.candidate k) = true} k ∧
      (p.candidates n).find? (p.accepts n) = some (n.candidate k) := by
  obtain ⟨free, hfree, hnone⟩ := exists_free_candidate p.registry n
  have haccepts : p.accepts n (n.candidate free) = true := accepts_iff.mpr (Or.inl hnone)
  rw [candidates_eq]
  cases hfind : ((List.range (p.registry.length + 3)).map n.candidate).find? (p.accepts n) with
  | none =>
    rw [List.find?_eq_none] at hfind
    have htried : n.candidate free ∈ (List.range (p.registry.length + 3)).map n.candidate :=
      List.mem_map.mpr ⟨free, List.mem_range.mpr (by omega), rfl⟩
    exact absurd haccepts (hfind _ htried)
  | some chosen =>
    obtain ⟨hchosen, k, hk, hname, hbefore⟩ := List.find?_eq_some_iff_getElem.mp hfind
    obtain rfl : n.candidate k = chosen := by simpa using hname
    have hleast : IsLeast {k | p.accepts n (n.candidate k) = true} k := by
      refine ⟨hchosen, fun j hj => Nat.le_of_not_lt fun hlt => ?_⟩
      have := hbefore j hlt
      simp only [List.getElem_map, List.getElem_range, Bool.not_eq_true'] at this
      exact Bool.false_ne_true (this.symm.trans hj)
    exact ⟨k, Nat.le_trans (hleast.2 haccepts) hfree, hleast, rfl⟩

/-- **The chosen name** is free or fits, and every name before it stands for another shape. -/
theorem choose_spec (p : Planner) (n : Node) : ∃ k, n.candidate k = p.choose n ∧
    (∀ j < k, Taken p.registry n (n.candidate j)) ∧
    (named? p.registry (p.choose n) = none ∨ Shared p.registry n (p.choose n)) := by
  obtain ⟨k, -, hleast, hfind⟩ := find?_candidates p n
  have hchoose : p.choose n = n.candidate k := by simp [choose, hfind]
  rw [hchoose]
  refine ⟨k, rfl, fun j hj => not_accepts_iff.mp ?_, accepts_iff.mp hleast.1⟩
  rw [← Bool.not_eq_true]
  exact fun hj' => absurd (hleast.2 hj') (Nat.not_le.mpr hj)

/-- A name that is the first to fit is chosen. -/
theorem choose_eq_of_firstFit (h : FirstFit p.registry n name) : p.choose n = name := by
  obtain ⟨k, hk, htaken, hfits⟩ := choose_spec p n
  obtain ⟨l, rfl, htaken', hshared⟩ := h
  rcases Nat.lt_trichotomy k l with hlt | rfl | hlt
  · obtain ⟨d, hd, hne⟩ := htaken' k hlt
    rw [hk] at hd
    rcases hfits with hnone | ⟨e, he, hshape⟩
    · rw [hnone] at hd
      exact absurd hd (by simp)
    · rw [hd, Option.some.injEq] at he
      exact absurd (he ▸ hshape) hne
  · exact hk.symm
  · exact absurd hshared (htaken l hlt).not_shared

/-! ## Growth of the planner -/

/-- The planner has grown: the declared types are the same, and there are perhaps more definitions
and renames, each behind those there were. -/
structure Grows (p q : Planner) : Prop where
  /-- The declared types are the same. -/
  declared : q.declared = p.declared
  /-- Definitions are added at the end. -/
  hoisted : p.hoisted <+: q.hoisted
  /-- A new definition has a name that no declared type has. -/
  fresh : ∀ e ∈ q.hoisted, e ∈ p.hoisted ∨ e.node.name ∉ p.declared.map Node.name
  /-- Renames are added at the end. -/
  renames : p.renames <+: q.renames

theorem Grows.refl (p : Planner) : Grows p p :=
  ⟨rfl, List.prefix_refl _, fun _ he => Or.inl he, List.prefix_refl _⟩

theorem Grows.trans {r : Planner} (hpq : Grows p q) (hqr : Grows q r) : Grows p r where
  declared := hqr.declared.trans hpq.declared
  hoisted := hpq.hoisted.trans hqr.hoisted
  fresh e he := (hqr.fresh e he).elim (hpq.fresh e) fun hnew => Or.inr (hpq.declared ▸ hnew)
  renames := hpq.renames.trans hqr.renames

/-- The registry has grown at the end. -/
theorem Grows.registry (h : Grows p q) : ∃ new, q.registry = p.registry ++ new := by
  obtain ⟨hdeclared, ⟨new, hnew⟩, -⟩ := h
  exact ⟨new.map (·.node), by simp [Planner.registry, hdeclared, ← hnew]⟩

theorem Grows.names (h : Grows p q) : p.registry.map Node.name ⊆ q.registry.map Node.name := by
  obtain ⟨new, hnew⟩ := h.registry
  rw [hnew, List.map_append]
  exact List.subset_append_left _ _

theorem Grows.firstFit (h : Grows p q) (hfit : FirstFit p.registry n name) :
    FirstFit q.registry n name := by
  obtain ⟨new, hnew⟩ := h.registry
  rw [hnew]
  exact hfit.append new

theorem Grows.shared (h : Grows p q) (hs : Shared p.registry n name) :
    Shared q.registry n name := by
  obtain ⟨new, hnew⟩ := h.registry
  rw [hnew]
  exact hs.append new

/-! ## Placing a node -/

theorem shape_definition (n : Node) (name : String) : (definition n name).shape = n.shape := rfl

theorem grows_place (p : Planner) (origin : String) (n : Node) : Grows p (p.place origin n).2 := by
  unfold place
  simp only
  split
  · exact Grows.refl p
  · rename_i hnone
    refine ⟨rfl, List.prefix_append _ _, fun e he => ?_, List.prefix_refl _⟩
    rcases List.mem_append.mp he with he | he
    · exact Or.inl he
    · rw [lookup?_eq, Option.not_isSome_iff_eq_none, named?_eq_none_iff, Planner.registry,
        List.map_append, List.mem_append, not_or] at hnone
      rw [List.mem_singleton.mp he]
      exact Or.inr hnone.1

theorem name_place (p : Planner) (origin : String) (n : Node) :
    (p.place origin n).1 = p.choose n := by
  unfold place
  simp only
  split <;> rfl

theorem renames_place (p : Planner) (origin : String) (n : Node) :
    (p.place origin n).2.renames = p.renames := by
  unfold place
  simp only
  split <;> rfl

/-- **Once a node has been placed, its name is the first to fit.** -/
theorem place_spec (p : Planner) (origin : String) (n : Node) :
    FirstFit (p.place origin n).2.registry n (p.place origin n).1 := by
  obtain ⟨k, hk, htaken, hfits⟩ := choose_spec p n
  have hgrows := (grows_place p origin n).registry
  unfold place at hgrows ⊢
  simp only at hgrows ⊢
  split
  · rename_i hsome
    refine ⟨k, hk, htaken, hfits.resolve_left fun hnone => ?_⟩
    rw [lookup?_eq, hnone] at hsome
    exact absurd hsome (by simp)
  · rename_i hnone
    rw [if_neg hnone] at hgrows
    obtain ⟨new, hnew⟩ := hgrows
    refine ⟨k, hk, fun j hj => ?_, definition n (p.choose n), ?_, shape_definition _ _⟩
    · rw [hnew]
      exact (htaken j hj).append new
    · rw [lookup?_eq, Option.not_isSome_iff_eq_none] at hnone
      unfold named? at hnone ⊢
      simp only [Planner.registry, List.map_append, List.map_cons, List.map_nil] at hnone ⊢
      rw [← List.append_assoc, List.find?_append, hnone]
      simp [definition, Node.name]

/-- **A node whose name is the first to fit keeps it**, and nothing is added. -/
theorem place_eq_of_firstFit (origin : String) (h : FirstFit p.registry n name) :
    p.place origin n = (name, p) := by
  unfold place
  simp only [choose_eq_of_firstFit h]
  obtain ⟨d, hd, -⟩ := h.shared
  rw [lookup?_eq, hd]
  rfl

/-- **Every node finds a name.** The names tried for a node go on without end; the planner stops at
the first of them that is free or stands for a type of the node's shape. At most one name is turned
down for each type there is, so the name has a counter `i` only if there are `i + 2` types or more,
and the search does not fall back on the base name. Afterwards the name stands for a type, which has
the shape of the node. -/
theorem place_isLeast (p : Planner) (origin : String) (n : Node) : ∃ k ≤ p.registry.length,
    IsLeast {k | p.accepts n (n.candidate k) = true} k ∧
      (p.candidates n).find? (p.accepts n) = some (n.candidate k) ∧
      (p.place origin n).1 = n.candidate k ∧
      ∃ d, (p.place origin n).2.lookup? (n.candidate k) = some d ∧ n.sameShape d = true := by
  obtain ⟨k, hk, hleast, hfind⟩ := find?_candidates p n
  have hchoose : p.choose n = n.candidate k := by simp [choose, hfind]
  have hname : (p.place origin n).1 = n.candidate k := by rw [name_place, hchoose]
  obtain ⟨d, hd, hshape⟩ := (place_spec p origin n).shared
  rw [hname] at hd
  exact ⟨k, hk, hleast, hfind, hname, d, hd, (sameShape_iff n d).mpr hshape.symm⟩

end Planner

end Schemata
