import Schemata.Proofs.Build.Loading
import Schemata.Proofs.Text.Pieces

/-!
# Pointers at sections

A reference is cut at its slashes, and its steps are followed down the document one after the other.
One that begins with `#/`, the key of a section and a slash stays in this section: the document matters
to it only for what stands there, and what it points at refers to nothing that the section does not
refer to.

Results:
* `Json.references_of_at`: what stands at the end of a path refers to nothing else than what is above.
* `Pointer.resolve_section`: what a pointer into a section resolves to.
-/

namespace Schemata

/-! ## References below a value -/

namespace Json

theorem references_of_item {item : Json} {items : List Json} (h : item ∈ items) :
    item.references ⊆ referencesIn items := by
  induction items with
  | nil => exact absurd h List.not_mem_nil
  | cons first rest ih =>
    intro s hs
    rw [referencesIn, List.mem_append]
    rcases List.mem_cons.mp h with rfl | h
    · exact Or.inl hs
    · exact Or.inr (ih h hs)

theorem references_of_step {v next : Json} {key : String} (h : v.step? key = some next) :
    next.references ⊆ v.references := by
  cases v with
  | object members => exact references_of_mem (mem_of_lookup h)
  | array items =>
    obtain ⟨i, -, hi⟩ := Option.bind_eq_some_iff.mp h
    exact references_of_item (List.mem_of_getElem? hi)
  | _ => cases h

/-- **The references at the end of a path** are references of the value above. -/
theorem references_of_at {path : List String} {v target : Json} (h : v.at? path = some target) :
    target.references ⊆ v.references := by
  induction path generalizing v with
  | nil =>
    obtain rfl := Option.some.inj h
    exact List.Subset.refl _
  | cons key rest ih =>
    obtain ⟨next, hstep, hrest⟩ := Option.bind_eq_some_iff.mp h
    exact List.Subset.trans (ih hrest) (references_of_step hstep)

/-- A key that is no index leads down to a member only. -/
theorem step?_eq_get? {key : String} (h : Pointer.index? key = none) (v : Json) :
    v.step? key = v.get? key := by
  cases v with
  | array items => simp [step?, get?, h]
  | _ => rfl

end Json

/-! ## Sections -/

namespace Pointer

/-- The keys that a local pointer is made of. -/
def keys? (reference : String) : Option (List String) :=
  match Text.splitBy (· = '/') reference.toList with
  | ['#'] :: steps => some (steps.map unescape)
  | _ => none

theorem resolve_eq_ok {document target : Json} {reference key : String}
    (h : resolve document reference = .ok (key, target)) :
    ∃ keys, keys? reference = some keys ∧ keys.getLast? = some key ∧
      document.at? keys = some target := by
  unfold resolve at h
  split at h
  · rename_i steps hsplit
    simp only at h
    split at h
    · rename_i last found hlast hfound
      obtain ⟨rfl, rfl⟩ := Prod.mk.inj (Except.ok.inj h)
      exact ⟨_, by rw [keys?, hsplit]; rfl, hlast, hfound⟩
    · cases h
  · cases h

theorem references_of_resolve {document target : Json} {reference key : String}
    (h : resolve document reference = .ok (key, target)) :
    target.references ⊆ document.references := by
  obtain ⟨keys, -, -, hat⟩ := resolve_eq_ok h
  exact Json.references_of_at hat

/-- A key that is written as it is and that is no index. -/
structure SectionKey (key : String) : Prop where
  /-- It is a single step. -/
  no_slash : '/' ∉ key.toList
  /-- Nothing in it stands for something else. -/
  unescape_eq : unescape key.toList = key
  /-- It is no index. -/
  index_eq : index? key = none

/-- The reference `#/`, the key of a section, a slash and further steps. -/
def into (key rest : String) : String := "#/" ++ key ++ "/" ++ rest

/-- The steps that are written in a text. -/
def stepsOf (text : String) : List String := (Text.splitBy (· = '/') text.toList).map unescape

theorem stepsOf_ne_nil (text : String) : stepsOf text ≠ [] := by
  unfold stepsOf
  rw [Ne, List.map_eq_nil_iff]
  exact Text.splitBy_ne_nil _ _

/-- **What a pointer into a section resolves to**: the value at the end of the steps behind the key
of the section. -/
theorem resolve_section {key : String} (hkey : SectionKey key) (rest : String) (document : Json) :
    resolve document (into key rest) =
      match (document.get? key).bind fun value => value.at? (stepsOf rest) with
      | some target => .ok ((stepsOf rest).getLast (stepsOf_ne_nil rest), target)
      | none => .error (.unresolvedReference (into key rest)) := by
  have hsplit : Text.splitBy (· = '/') (into key rest).toList =
      ['#'] :: key.toList :: Text.splitBy (· = '/') rest.toList := by
    have hbehind : Text.splitBy (· = '/') (key.toList ++ '/' :: rest.toList) =
        key.toList :: Text.splitBy (· = '/') rest.toList :=
      Text.splitBy_append_cons hkey.no_slash rest.toList
    simp [into, Text.splitBy, hbehind]
  have hsteps : (Text.splitBy (· = '/') rest.toList).map unescape = stepsOf rest := rfl
  unfold resolve
  rw [hsplit]
  simp only [List.map_cons, hkey.unescape_eq, hsteps, List.getLast?_cons,
    List.getLast?_eq_some_getLast (stepsOf_ne_nil rest), Option.getD_some, Json.at?,
    Json.step?_eq_get? hkey.index_eq]
  cases (document.get? key).bind fun value => value.at? (stepsOf rest) <;> rfl

theorem sectionKey_types : SectionKey "types" := ⟨by decide, rfl, by decide⟩

theorem sectionKey_elements : SectionKey "elements" := ⟨by decide, rfl, by decide⟩

end Pointer

end Schemata
