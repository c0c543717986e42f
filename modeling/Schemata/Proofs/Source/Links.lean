import Schemata.Source.SourceSet
import Schemata.Proofs.Json.Distinct

/-!
# References in a document

Loading rewrites the references in a document while it loads what they refer to. The two can be told
apart: first everything that the document refers to is visited, in the order of the document, and
then each reference is replaced by its local form, which needs no file at all.

Results:
* `Json.localize_eq`: visiting a document and rewriting it can be done one after the other.
* `Reference.localForm`: a reference to a place in a file as one to that place in the document.
-/

namespace Schemata

namespace Json

/-! ## Links -/

/-- A text with a function applied to it; any other value as it is. -/
def mapText (f : String → String) : Json → Json
  | .string text => .string (f text)
  | other => other

mutual
/-- A document with a function applied to each of its links. -/
def mapLinks (f : String → String) : Json → Json
  | .array items => .array (mapItemLinks f items)
  | .object members => .object (mapMemberLinks f members)
  | other => other
/-- Items with a function applied to each of their links. -/
def mapItemLinks (f : String → String) : List Json → List Json
  | [] => []
  | a :: rest => mapLinks f a :: mapItemLinks f rest
/-- Members with a function applied to each of their links. -/
def mapMemberLinks (f : String → String) : List (String × Json) → List (String × Json)
  | [] => []
  | (k, a) :: rest =>
    (k, if k = "$ref" then mapText f a else mapLinks f a) :: mapMemberLinks f rest
end

/-! ## Visiting and rewriting -/

section
variable {replace : String → Load String} {visit : String → Load Unit} {f : String → String}

mutual
/-- **Visiting a document and rewriting it can be done one after the other.** -/
theorem localize_eq (h : ∀ r, replace r = do visit r; return f r) : ∀ a : Json,
    a.localize replace = do a.links.forM visit; return a.mapLinks f
  | .array items => by
    rw [localize, localizeItems_eq h items]
    simp [links, mapLinks]
  | .object members => by
    rw [localize, localizeMembers_eq h members]
    simp [links, mapLinks]
  | .null | .bool _ | .number _ | .string _ => by simp [localize, links, mapLinks]
theorem localizeItems_eq (h : ∀ r, replace r = do visit r; return f r) : ∀ items : List Json,
    localizeItems replace items = do
      (linksOfItems items).forM visit
      return mapItemLinks f items
  | [] => by simp [localizeItems, linksOfItems, mapItemLinks]
  | a :: rest => by
    rw [localizeItems, localize_eq h a, localizeItems_eq h rest]
    simp [linksOfItems, mapItemLinks, List.forM_append]
theorem localizeMembers_eq (h : ∀ r, replace r = do visit r; return f r) :
    ∀ members : List (String × Json),
      localizeMembers replace members = do
        (linksOfMembers members).forM visit
        return mapMemberLinks f members
  | [] => by simp [localizeMembers, linksOfMembers, mapMemberLinks]
  | (k, a) :: rest => by
    have ih := localizeMembers_eq h rest
    have ha := localize_eq h a
    unfold localizeMembers
    by_cases hk : k = "$ref"
    · cases a <;> simp [hk, h, ih, string?, mapText, linksOfMembers, mapMemberLinks]
    · simp [hk, ha, ih, linksOfMembers, mapMemberLinks, List.forM_append]
end

end

/-! ## Keys -/

section
variable {f : String → String}

theorem keys_mapMemberLinks (members : List (String × Json)) :
    (mapMemberLinks f members).map Prod.fst = members.map Prod.fst := by
  induction members with
  | nil => rfl
  | cons m rest ih => rw [mapMemberLinks, List.map_cons, ih, List.map_cons]

theorem distinct_mapText {a : Json} (h : a.distinct = true) : (a.mapText f).distinct = true := by
  cases a with
  | string text => rfl
  | _ => exact h

mutual
/-- Rewriting links leaves keys distinct. -/
theorem distinct_mapLinks : ∀ a : Json, a.distinct = true → (a.mapLinks f).distinct = true
  | .array items, h => by
    rw [mapLinks, distinct]
    exact distinct_mapItemLinks items h
  | .object members, h => by
    obtain ⟨hkeys, hmembers⟩ := distinct_object h
    rw [mapLinks, distinct, keys_mapMemberLinks, decide_eq_true hkeys, Bool.true_and]
    exact distinct_mapMemberLinks members hmembers
  | .null, h | .bool _, h | .number _, h | .string _, h => h
theorem distinct_mapItemLinks : ∀ items : List Json, distinctItems items = true →
    distinctItems (mapItemLinks f items) = true
  | [], _ => rfl
  | a :: rest, h => by
    obtain ⟨ha, hrest⟩ := Bool.and_eq_true_iff.mp h
    rw [mapItemLinks, distinctItems, distinct_mapLinks a ha, distinct_mapItemLinks rest hrest,
      Bool.and_self]
theorem distinct_mapMemberLinks : ∀ members : List (String × Json),
    distinctMembers members = true → distinctMembers (mapMemberLinks f members) = true
  | [], _ => rfl
  | (k, a) :: rest, h => by
    obtain ⟨ha, hrest⟩ := Bool.and_eq_true_iff.mp h
    rw [mapMemberLinks, distinctMembers, distinct_mapMemberLinks rest hrest, Bool.and_true]
    split
    · exact distinct_mapText ha
    · exact distinct_mapLinks a ha
end

end

end Json

namespace Reference

/-- A reference to a place in a file as one to that place in the document; any other text as it
is. -/
def localForm (reference : String) : String :=
  match split reference with
  | .ok (file, place) => if file.isEmpty then reference else "#" ++ place
  | .error _ => reference

end Reference

end Schemata
