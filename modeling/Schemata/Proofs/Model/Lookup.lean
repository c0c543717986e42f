import Schemata.Model.Node
import Mathlib.Data.List.Basic

/-!
# Which type a name stands for

A list of types may hold several types of one name. A name is looked up by its first type of all
(`Node.named?`), and in the end it stands for its first type that is no reference (`declaring?`).
-/

namespace Schemata

variable {types : List Node} {name : String} {t : Node}

namespace Node

variable {pre rest : List Node} {d : Node}

/-- The first type of a name in a list of types. -/
def named? (types : List Node) (name : String) : Option Node := types.find? (·.name = name)

theorem name_of_named? (h : named? types name = some t) : t.name = name := by
  simpa using List.find?_some h

theorem mem_of_named? (h : named? types name = some t) : t ∈ types :=
  List.mem_of_find?_eq_some h

theorem named?_eq_none_iff : named? types name = none ↔ name ∉ types.map Node.name := by
  simp [named?, List.find?_eq_none]

theorem exists_named? (h : name ∈ types.map Node.name) : ∃ d, named? types name = some d := by
  cases hd : named? types name with
  | some d => exact ⟨d, rfl⟩
  | none => exact absurd h (named?_eq_none_iff.mp hd)

/-- More types at the end leave what a name stands for as it was. -/
theorem named?_append (h : named? types name = some t) (new : List Node) :
    named? (types ++ new) name = some t := by
  unfold named? at h ⊢
  rw [List.find?_append, h, Option.some_or]

/-- The type of a name stands behind types of other names. -/
theorem named?_split (h : named? types name = some d) : ∃ pre rest, types = pre ++ d :: rest ∧
    name ∉ pre.map Node.name ∧ d.name = name := by
  obtain ⟨hname, pre, rest, hsplit, hnot⟩ := List.find?_eq_some_iff_append.mp h
  refine ⟨pre, rest, hsplit, fun hin => ?_, by simpa using hname⟩
  obtain ⟨u, hu, huname⟩ := List.mem_map.mp hin
  exact absurd huname (by simpa using hnot u hu)

theorem named?_of_split (hpre : name ∉ pre.map Node.name) (hd : d.name = name) :
    named? (pre ++ d :: rest) name = some d := by
  refine List.find?_eq_some_iff_append.mpr ⟨by simpa using hd, pre, rest, rfl, fun u hu => ?_⟩
  have hne : u.name ≠ name := fun hu' => hpre (List.mem_map.mpr ⟨u, hu, hu'⟩)
  simpa using hne

end Node

/-- The first type of a name that is no reference. -/
def declaring? (types : List Node) (name : String) : Option Node :=
  types.find? fun n => n.name = name && !n.isRef

theorem declaring?_eq_some (h : declaring? types name = some t) :
    t ∈ types ∧ t.name = name ∧ t.isRef = false :=
  ⟨List.mem_of_find?_eq_some h, by simpa using List.find?_some h⟩

theorem exists_declaring? (h : ∃ u ∈ types, u.name = name ∧ u.isRef = false) :
    ∃ t, declaring? types name = some t := by
  obtain ⟨u, hu, hname, hr⟩ := h
  exact Option.isSome_iff_exists.mp (List.find?_isSome.mpr ⟨u, hu, by simp [hname, hr]⟩)

/-- Where no type is declared under a name, all types of the name are references. -/
theorem isRef_of_undeclared (h : declaring? types name = none) (ht : t ∈ types)
    (hname : t.name = name) : t.isRef = true := by
  simpa [hname] using List.find?_eq_none.mp h t ht

/-- More types at the end leave the type that is declared under a name as it was. -/
theorem declaring?_append (h : declaring? types name = some t) (new : List Node) :
    declaring? (types ++ new) name = some t := by
  unfold declaring? at h ⊢
  rw [List.find?_append, h, Option.some_or]

/-- The first type of a name is declared under it unless it is a reference. -/
theorem declaring?_of_named? (h : Node.named? types name = some t) (hr : t.isRef = false) :
    declaring? types name = some t := by
  obtain ⟨hname, before, behind, hsplit, hnot⟩ := List.find?_eq_some_iff_append.mp h
  refine List.find?_eq_some_iff_append.mpr ⟨by simpa [hr] using hname, before, behind, hsplit, ?_⟩
  intro u hu
  have hne := hnot u hu
  simp only [Bool.not_eq_true', decide_eq_false_iff_not] at hne
  simp [hne]

end Schemata
