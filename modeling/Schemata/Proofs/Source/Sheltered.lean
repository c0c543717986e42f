import Schemata.Proofs.Build.Loading
import Schemata.Proofs.Json.Merge
import Schemata.Proofs.Source.Links

/-!
# Texts below reference keys

Loading does not look below a `$ref` key. A mapping may have one with no text under it, say an object
with a field of that name, and texts under further `$ref` keys below it are references of the document
which loading does not see: they are sheltered. Every reference of a document is either a link or
sheltered.

Results:
* `mem_references_iff`: the references of a document are its links and the sheltered ones.
* `links_mapLinks`, `sheltered_mapLinks`: rewriting changes every link and no sheltered reference.
* `merge_gathers`: a merged document has no links but those of its two sides, and no other sheltered
  references either.
-/

namespace Schemata

namespace Json

/-! ## Links and sheltered references -/

mutual
/-- The texts under `$ref` keys below another `$ref` key, in order. -/
def sheltered : Json → List String
  | .array items => shelteredInItems items
  | .object members => shelteredInMembers members
  | _ => []
/-- The sheltered references in the items of a sequence. -/
def shelteredInItems : List Json → List String
  | [] => []
  | a :: rest => sheltered a ++ shelteredInItems rest
/-- The sheltered references in the members of a mapping. -/
def shelteredInMembers : List (String × Json) → List String
  | [] => []
  | (k, a) :: rest => (if k = "$ref" then references a else sheltered a) ++ shelteredInMembers rest
end

theorem mem_string?_iff {s : String} {v : Json} : s ∈ v.string?.toList ↔ v = .string s := by
  cases v <;> simp [string?, eq_comm]

mutual
/-- **Links and sheltered references** are all references of a document. -/
theorem mem_references_iff {s : String} : ∀ v : Json,
    s ∈ v.references ↔ s ∈ v.links ∨ s ∈ v.sheltered
  | .array items => by
    rw [references, links, sheltered]
    exact mem_referencesIn_iff items
  | .object members => by
    rw [references, links, sheltered]
    exact mem_referencesUnder_iff members
  | .null | .bool _ | .number _ | .string _ => by simp [references, links, sheltered]
theorem mem_referencesIn_iff {s : String} : ∀ items : List Json,
    s ∈ referencesIn items ↔ s ∈ linksOfItems items ∨ s ∈ shelteredInItems items
  | [] => by simp [referencesIn, linksOfItems, shelteredInItems]
  | v :: rest => by
    rw [referencesIn, linksOfItems, shelteredInItems, List.mem_append, List.mem_append,
      List.mem_append, mem_references_iff v, mem_referencesIn_iff rest]
    tauto
theorem mem_referencesUnder_iff {s : String} : ∀ members : List (String × Json),
    s ∈ referencesUnder members ↔ s ∈ linksOfMembers members ∨ s ∈ shelteredInMembers members
  | [] => by simp [referencesUnder, linksOfMembers, shelteredInMembers]
  | (k, v) :: rest => by
    rw [mem_referencesUnder_cons, linksOfMembers, shelteredInMembers, List.mem_append,
      List.mem_append, mem_referencesUnder_iff rest]
    by_cases hk : k = "$ref"
    · rw [if_pos hk, if_pos hk, mem_string?_iff]
      tauto
    · rw [if_neg hk, if_neg hk, mem_references_iff v]
      tauto
end

theorem mem_linksOfMembers {s : String} {members : List (String × Json)} :
    s ∈ linksOfMembers members ↔ ∃ k v, (k, v) ∈ members ∧
      s ∈ if k = "$ref" then v.string?.toList else v.links := by
  induction members with
  | nil => simp [linksOfMembers]
  | cons m rest ih => simp [linksOfMembers, ih, or_and_right, exists_or, Prod.ext_iff]

theorem mem_shelteredInMembers {s : String} {members : List (String × Json)} :
    s ∈ shelteredInMembers members ↔ ∃ k v, (k, v) ∈ members ∧
      s ∈ if k = "$ref" then v.references else v.sheltered := by
  induction members with
  | nil => simp [shelteredInMembers]
  | cons m rest ih => simp [shelteredInMembers, ih, or_and_right, exists_or, Prod.ext_iff]

/-! ## Rewriting -/

section
variable {f : String → String}

theorem string?_mapText (v : Json) : (v.mapText f).string? = v.string?.map f := by
  cases v <;> rfl

theorem references_mapText (v : Json) : (v.mapText f).references = v.references := by
  cases v with
  | string text => simp [mapText, references]
  | _ => rfl

mutual
/-- Rewriting changes every link. -/
theorem links_mapLinks : ∀ v : Json, (v.mapLinks f).links = v.links.map f
  | .array items => by
    rw [mapLinks, links, links]
    exact linksOfItems_mapItemLinks items
  | .object members => by
    rw [mapLinks, links, links]
    exact linksOfMembers_mapMemberLinks members
  | .null | .bool _ | .number _ | .string _ => by simp [mapLinks, links]
theorem linksOfItems_mapItemLinks : ∀ items : List Json,
    linksOfItems (mapItemLinks f items) = (linksOfItems items).map f
  | [] => by simp [mapItemLinks, linksOfItems]
  | v :: rest => by
    rw [mapItemLinks, linksOfItems, linksOfItems, links_mapLinks v,
      linksOfItems_mapItemLinks rest, List.map_append]
theorem linksOfMembers_mapMemberLinks : ∀ members : List (String × Json),
    linksOfMembers (mapMemberLinks f members) = (linksOfMembers members).map f
  | [] => by simp [mapMemberLinks, linksOfMembers]
  | (k, v) :: rest => by
    rw [mapMemberLinks, linksOfMembers, linksOfMembers, linksOfMembers_mapMemberLinks rest,
      List.map_append]
    by_cases hk : k = "$ref"
    · simp only [if_pos hk, string?_mapText, Option.toList_map]
    · simp only [if_neg hk, links_mapLinks v]
end

mutual
/-- Rewriting changes no sheltered reference. -/
theorem sheltered_mapLinks : ∀ v : Json, (v.mapLinks f).sheltered = v.sheltered
  | .array items => by
    rw [mapLinks, sheltered, sheltered]
    exact shelteredInItems_mapItemLinks items
  | .object members => by
    rw [mapLinks, sheltered, sheltered]
    exact shelteredInMembers_mapMemberLinks members
  | .null | .bool _ | .number _ | .string _ => by simp [mapLinks, sheltered]
theorem shelteredInItems_mapItemLinks : ∀ items : List Json,
    shelteredInItems (mapItemLinks f items) = shelteredInItems items
  | [] => by simp [mapItemLinks, shelteredInItems]
  | v :: rest => by
    rw [mapItemLinks, shelteredInItems, shelteredInItems, sheltered_mapLinks v,
      shelteredInItems_mapItemLinks rest]
theorem shelteredInMembers_mapMemberLinks : ∀ members : List (String × Json),
    shelteredInMembers (mapMemberLinks f members) = shelteredInMembers members
  | [] => by simp [mapMemberLinks, shelteredInMembers]
  | (k, v) :: rest => by
    rw [mapMemberLinks, shelteredInMembers, shelteredInMembers,
      shelteredInMembers_mapMemberLinks rest]
    by_cases hk : k = "$ref"
    · simp only [if_pos hk, references_mapText]
    · simp only [if_neg hk, sheltered_mapLinks v]
end

end

/-! ## Merging -/

/-- All links of a document are links of one of two others, and so are its sheltered references. -/
structure Gathers (a b c : Json) : Prop where
  /-- Where its links come from. -/
  links : ∀ s ∈ c.links, s ∈ a.links ∨ s ∈ b.links
  /-- Where its sheltered references come from. -/
  sheltered : ∀ s ∈ c.sheltered, s ∈ a.sheltered ∨ s ∈ b.sheltered

section
variable {a b c v x : Json} {k : String} {below : List (String × Json)}

theorem Gathers.first (a b : Json) : Gathers a b a :=
  ⟨fun _ hs => Or.inl hs, fun _ hs => Or.inl hs⟩

theorem Gathers.second (a b : Json) : Gathers a b b :=
  ⟨fun _ hs => Or.inr hs, fun _ hs => Or.inr hs⟩

theorem Gathers.references (h : Gathers a b c) :
    ∀ s ∈ c.references, s ∈ a.references ∨ s ∈ b.references := by
  intro s hs
  have hlinks := h.links s
  have hsheltered := h.sheltered s
  simp only [mem_references_iff] at hs ⊢
  tauto

theorem string?_merge (a b : Json) : (a.merge b).string? = a.string? := by
  cases a <;> cases b <;> simp [merge, string?]

/-- Putting a member gathers the new member and the old members, if its value gathers the new value
and what stood under the key, and is a text only if the new value is. -/
theorem put_gathers {u : Json} (hstring : x.string? = v.string?)
    (hu : u = .null ∨ (k, u) ∈ below) (hx : Gathers v u x) :
    Gathers (.object [(k, v)]) (.object below) (.object (put k x below)) where
  links s hs := by
    simp only [Json.links, mem_linksOfMembers, List.mem_singleton] at hs ⊢
    obtain ⟨l, w, hput, hs⟩ := hs
    rcases mem_of_mem_put hput with ⟨rfl, rfl⟩ | hbelow
    · by_cases hl : l = "$ref"
      · rw [if_pos hl, hstring] at hs
        exact Or.inl ⟨l, v, rfl, by rwa [if_pos hl]⟩
      · rw [if_neg hl] at hs
        rcases hx.links s hs with hs | hs
        · exact Or.inl ⟨l, v, rfl, by rwa [if_neg hl]⟩
        · rcases hu with rfl | hu
          · simp [Json.links] at hs
          · exact Or.inr ⟨l, u, hu, by rwa [if_neg hl]⟩
    · exact Or.inr ⟨l, w, hbelow, hs⟩
  sheltered s hs := by
    simp only [Json.sheltered, mem_shelteredInMembers, List.mem_singleton] at hs ⊢
    obtain ⟨l, w, hput, hs⟩ := hs
    rcases mem_of_mem_put hput with ⟨rfl, rfl⟩ | hbelow
    · have hfrom : (s ∈ if l = "$ref" then v.references else v.sheltered) ∨
          s ∈ if l = "$ref" then u.references else u.sheltered := by
        by_cases hl : l = "$ref"
        · rw [if_pos hl] at hs ⊢
          rw [if_pos hl]
          exact hx.references s hs
        · rw [if_neg hl] at hs ⊢
          rw [if_neg hl]
          exact hx.sheltered s hs
      rcases hfrom with hs | hs
      · exact Or.inl ⟨l, v, rfl, hs⟩
      · rcases hu with rfl | hu
        · simp [Json.references, Json.sheltered] at hs
        · exact Or.inr ⟨l, u, hu, hs⟩
    · exact Or.inr ⟨l, w, hbelow, hs⟩

/-- What gathers a later part and something that gathers an earlier part gathers all of it. -/
theorem Gathers.cons {rest : List (String × Json)} (hfirst : Gathers (.object [(k, v)]) a b)
    (hrest : Gathers (.object rest) b c) : Gathers (.object ((k, v) :: rest)) a c where
  links s hs := by
    have hsplit : s ∈ linksOfMembers ((k, v) :: rest) ↔
        s ∈ linksOfMembers [(k, v)] ∨ s ∈ linksOfMembers rest := by
      simp [linksOfMembers]
    have hlater := hrest.links s hs
    have hearlier := hfirst.links s
    simp only [Json.links] at hlater hearlier ⊢
    tauto
  sheltered s hs := by
    have hsplit : s ∈ shelteredInMembers ((k, v) :: rest) ↔
        s ∈ shelteredInMembers [(k, v)] ∨ s ∈ shelteredInMembers rest := by
      simp [shelteredInMembers]
    have hlater := hrest.sheltered s hs
    have hearlier := hfirst.sheltered s
    simp only [Json.sheltered] at hlater hearlier ⊢
    tauto

end

mutual
/-- **A merged document gathers its two sides.** -/
theorem merge_gathers : ∀ a b : Json, Gathers a b (a.merge b)
  | .object source, .object below => by
    rw [merge]
    exact mergeMembers_gathers source below
  | .object source, .null | .object source, .bool _ | .object source, .number _
  | .object source, .string _ | .object source, .array _ => by
    simp only [merge]
    exact Gathers.first _ _
  | .null, _ | .bool _, _ | .number _, _ | .string _, _ | .array _, _ => by
    simp only [merge]
    exact Gathers.first _ _
theorem mergeMembers_gathers : ∀ source below : List (String × Json),
    Gathers (.object source) (.object below) (.object (mergeMembers source below))
  | [], below => by
    rw [mergeMembers]
    exact Gathers.second _ _
  | (k, v) :: rest, below => by
    rw [mergeMembers]
    refine Gathers.cons ?_ (mergeMembers_gathers rest _)
    cases hlookup : below.lookup k with
    | none => exact put_gathers rfl (Or.inl rfl) (Gathers.first v .null)
    | some u =>
      exact put_gathers (string?_merge v u) (Or.inr (mem_of_lookup hlookup)) (merge_gathers v u)
end

end Json

end Schemata
