import Schemata.Compile
import Schemata.Proofs.Build.Levels

/-!
# Sections that pass through

A compilation makes types and elements from the sections `types`, `elements` and `constraints`. The
other sections pass through to the renderers or are not looked at, unless a reference leads into them.
If all references of types and elements stay in these two sections, then nothing else in the document
makes a difference to what is compiled.

Results:
* `Compile.stages_eq`: such documents come through all stages alike, with the same notes and errors.
* `compile_passThrough`: their compilations differ in `info` and `options` only.
-/

namespace Schemata

/-- A reference that begins with `#/types/` or with `#/elements/`. -/
def StaysInside (reference : String) : Prop :=
  ∃ rest : String, reference = "#/types/" ++ rest ∨ reference = "#/elements/" ++ rest

/-- The references of the entries of `types` and `elements`, at any depth. -/
def Json.entryReferences (document : Json) : List String :=
  (document.get? "types").elim [] references ++ (document.get? "elements").elim [] references

/-- Two documents with the same `types`, `elements` and `constraints`. -/
def SameEntries (document document' : Json) : Prop :=
  ∀ key ∈ ["types", "elements", "constraints"], document.get? key = document'.get? key

section
variable {document document' : Json}

theorem Json.references_of_entry {key : String} (hkey : key ∈ ["types", "elements"]) {value : Json}
    (h : document.get? key = some value) : value.references ⊆ document.entryReferences := by
  intro s hs
  rw [Json.entryReferences, List.mem_append]
  simp only [List.mem_cons, List.not_mem_nil, or_false] at hkey
  rcases hkey with rfl | rfl
  · exact Or.inl (by simpa [h] using hs)
  · exact Or.inr (by simpa [h] using hs)

theorem Json.entryReferences_subset : document.entryReferences ⊆ document.references := by
  have hpart : ∀ key, (document.get? key).elim [] references ⊆ document.references := by
    intro key
    cases h : document.get? key with
    | none => exact List.nil_subset _
    | some value => exact Json.references_of_get? h
  exact List.append_subset.mpr ⟨hpart "types", hpart "elements"⟩

/-- A reference that stays inside points into one of the two sections. -/
theorem StaysInside.into {reference : String} (h : StaysInside reference) :
    ∃ key ∈ ["types", "elements"], ∃ rest, Pointer.SectionKey key ∧
      reference = Pointer.into key rest := by
  obtain ⟨rest, rfl | rfl⟩ := h
  · exact ⟨"types", by simp, rest, Pointer.sectionKey_types, rfl⟩
  · exact ⟨"elements", by simp, rest, Pointer.sectionKey_elements, rfl⟩

/-- **No pointer escapes.** References that stay inside point at the same values in both documents,
and what they point at refers to nothing else. -/
theorem alike_of_staysInside (hsame : SameEntries document document')
    (hrefs : ∀ r ∈ document.entryReferences, StaysInside r) :
    Entry.Alike document document' document.entryReferences where
  resolve_eq r hr := by
    obtain ⟨key, hkey, rest, hsection, rfl⟩ := (hrefs r hr).into
    rw [Pointer.resolve_section hsection, Pointer.resolve_section hsection,
      hsame key (List.mem_append_left ["constraints"] hkey)]
  closed r hr last target h := by
    obtain ⟨key, hkey, rest, hsection, rfl⟩ := (hrefs r hr).into
    rw [Pointer.resolve_section hsection] at h
    cases hvalue : document.get? key with
    | none => simp [hvalue] at h
    | some value =>
      cases hat : value.at? (Pointer.stepsOf rest) with
      | none => simp [hvalue, hat] at h
      | some found =>
        simp only [hvalue, hat, Option.bind_some] at h
        obtain ⟨-, rfl⟩ := Prod.mk.inj (Except.ok.inj h)
        exact List.Subset.trans (Json.references_of_at hat) (Json.references_of_entry hkey hvalue)

theorem SameEntries.loadForest_eq (hsame : SameEntries document document')
    (hrefs : ∀ r ∈ document.entryReferences, StaysInside r) :
    Compile.loadForest document = Compile.loadForest document' := by
  have halike := alike_of_staysInside hsame hrefs
  have heq : document.entryReferences = document'.entryReferences := by
    rw [Json.entryReferences, Json.entryReferences, hsame "types" (by simp),
      hsame "elements" (by simp)]
  have hload : ∀ key ∈ ["types", "elements"],
      Entry.loadSection document key = Entry.loadSection document' key := by
    intro key hkey
    exact Entry.loadSection_alike halike Json.entryReferences_subset
      (heq ▸ Json.entryReferences_subset) (hsame key (List.mem_append_left ["constraints"] hkey))
      fun value hvalue => Json.references_of_entry hkey hvalue
  rw [Compile.loadForest, Compile.loadForest, hload "types" (by simp), hload "elements" (by simp)]

/-- **Such documents come through all stages alike**, with the same notes and errors. -/
theorem SameEntries.stages_eq (hsame : SameEntries document document')
    (hrefs : ∀ r ∈ document.entryReferences, StaysInside r) :
    Compile.stages document = Compile.stages document' := by
  have hconstraints : Constraint.loadSection document = Constraint.loadSection document' := by
    rw [Constraint.loadSection, Constraint.loadSection, hsame "constraints" (by simp)]
  have hbind : Compile.bind document = Compile.bind document' := by
    funext forest
    rw [Compile.bind, Compile.bind, hconstraints]
  rw [Compile.stages, Compile.stages, hsame.loadForest_eq hrefs, hbind]

/-- **Sections that pass through do not interfere.** Two documents have the same `types`, `elements`
and `constraints`, and every reference in types and elements begins with `#/types/` or `#/elements/`.
Then both fail to compile, with the same error, or their compilations differ in `info` and `options`
only. -/
theorem compile_passThrough (hsame : SameEntries document document')
    (hrefs : ∀ r ∈ document.entryReferences, StaysInside r) (definition : String)
    (digest : Checksum) :
    (∃ e, Compile.document none definition document digest = .error e ∧
        Compile.document none definition document' digest = .error e) ∨
      ∃ c c', Compile.document none definition document digest = .ok c ∧
        Compile.document none definition document' digest = .ok c' ∧
        c'.data = { c.data with info := c'.data.info, options := c'.data.options } ∧
        c'.diagnostics = c.diagnostics ∧ c'.stats = c.stats := by
  have hstages := hsame.stages_eq hrefs
  simp only [Compile.document, ← hstages]
  cases (Compile.stages document).result with
  | error e => exact Or.inl ⟨e, rfl, rfl⟩
  | ok outcome => exact Or.inr ⟨_, _, rfl, rfl, rfl, rfl, rfl⟩

end

namespace Sample

/-- Documents with a type for ships and an element of it, after some other sections. -/
def fleet (others : List (String × Json)) : Json := .object (others ++ [
  ("types", .object [("Ship", .object [("type", .string "object"), ("properties", .object [
    ("name", .object [("type", .string "string")])])])]),
  ("elements", .object [("flagship", .object [("$ref", .string "#/types/Ship")])])])

/-- A fleet with a title, and notes in which a reference leads nowhere. -/
def annotatedFleet : Json := fleet [
  ("info", .object [("title", .string "Fleet")]),
  ("notes", .object [("$ref", .string "elsewhere.yaml#/notes")])]

end Sample

/-- A fleet with and without a title. The reference in the notes is in neither of the two sections. -/
theorem compile_passThrough_fleet :
    SameEntries (Sample.fleet []) Sample.annotatedFleet ∧
      (∀ r ∈ (Sample.fleet []).entryReferences, StaysInside r) ∧
      ∃ c c', Compile.document none "fleet.yaml" (Sample.fleet []) (Checksum.ofBytes []) = .ok c ∧
        Compile.document none "fleet.yaml" Sample.annotatedFleet (Checksum.ofBytes []) = .ok c' ∧
        c'.data = { c.data with info := c'.data.info, options := c'.data.options } ∧
        c'.diagnostics = c.diagnostics ∧ c'.stats = c.stats ∧
        c.data.types.map Node.name = ["name", "Ship"] ∧
        (c.data.info.get? "title").bind Json.string? = none ∧
        (c'.data.info.get? "title").bind Json.string? = some "Fleet" := by
  have hsame : SameEntries (Sample.fleet []) Sample.annotatedFleet :=
    List.forall_mem_cons.mpr ⟨rfl, List.forall_mem_cons.mpr ⟨rfl,
      List.forall_mem_singleton.mpr rfl⟩⟩
  have hrefs : ∀ r ∈ (Sample.fleet []).entryReferences, StaysInside r :=
    List.forall_mem_singleton.mpr ⟨"Ship", Or.inl rfl⟩
  have hplain : (Compile.document none "fleet.yaml" (Sample.fleet [])
      (Checksum.ofBytes [])).toOption.map (fun c =>
        (c.data.types.map Node.name, (c.data.info.get? "title").bind Json.string?)) =
          some (["name", "Ship"], none) := by
    decide +kernel
  have htitled : (Compile.document none "fleet.yaml" Sample.annotatedFleet
      (Checksum.ofBytes [])).toOption.map (fun c => (c.data.info.get? "title").bind Json.string?) =
        some (some "Fleet") := by
    decide +kernel
  refine ⟨hsame, hrefs, ?_⟩
  rcases compile_passThrough hsame hrefs "fleet.yaml" (Checksum.ofBytes []) with
    ⟨e, he, -⟩ | ⟨c, c', hc, hc', hdata, hdiagnostics, hstats⟩
  · rw [he] at hplain
    cases hplain
  · rw [hc] at hplain
    rw [hc'] at htitled
    obtain ⟨htypes, htitle⟩ := Prod.mk.inj (Option.some.inj hplain)
    exact ⟨c, c', hc, hc', hdata, hdiagnostics, hstats, htypes, htitle, Option.some.inj htitled⟩

end Schemata
