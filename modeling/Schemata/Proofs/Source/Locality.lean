import Schemata.Compile
import Schemata.Proofs.Source.Failure
import Schemata.Proofs.Source.Sheltered

/-!
# References made local

A loaded document is to be read without its files: each file is merged with its references in local
form, and a local reference has no file part. Loading gets this right for the links of a file. It
does not look below a `$ref` key, so a reference that is sheltered there is neither followed nor
rewritten, and it reaches the document as it stands in its file.

Results:
* `visit_keeps`: what entering and finishing files keep, a walk keeps.
* `document_gathers`: where the links and the sheltered references of a document come from.
* `load_localizes`: after any load, all references of the document but the sheltered ones are local.
-/

namespace Schemata

namespace Reference

/-- A reference without a file part. -/
def Local (reference : String) : Prop := ∃ place : String, reference = "#" ++ place

/-- The text of a reference, from its two parts. -/
theorem eq_of_split {reference file place : String} (h : split reference = .ok (file, place)) :
    reference = file ++ "#" ++ place ∧ '\n' ∉ place.toList := by
  unfold split at h
  split at h
  · rename_i rest hdrop
    dsimp only at h
    split at h
    · cases h
    · rename_i hplain
      obtain ⟨rfl, rfl⟩ := Prod.mk.inj (Except.ok.inj h)
      have hparts := List.takeWhile_append_dropWhile (p := (· ≠ '#')) (l := reference.toList)
      rw [hdrop] at hparts
      rw [Bool.or_eq_true, not_or] at hplain
      refine ⟨String.toList_inj.mp ?_, by simpa using hplain.1⟩
      simpa using hparts.symm
  · cases h

theorem split_sign {place : String} (h : '\n' ∉ place.toList) :
    split ("#" ++ place) = .ok ("", place) := by
  have hscheme : hasScheme [] = false := rfl
  simp [split, h, hscheme]

/-- The local form of a reference has no file part. -/
theorem split_localForm {reference : String} (h : ∃ parts, split reference = .ok parts) :
    ∃ place, split (localForm reference) = .ok ("", place) := by
  obtain ⟨⟨file, place⟩, hsplit⟩ := h
  obtain ⟨heq, hline⟩ := eq_of_split hsplit
  unfold localForm
  rw [hsplit]
  dsimp only
  split
  · rename_i hempty
    obtain rfl : file = "" := String.isEmpty_iff.mp hempty
    exact ⟨place, hsplit⟩
  · exact ⟨place, split_sign hline⟩

end Reference

namespace SourceWalk

variable {tree : FileTree} {searchPaths : List String} {file : String} {w w' : SourceWalk}
  {s s' : SourceSet} {clean : Bool} {P : SourceWalk → Prop}

/-! ## What a walk keeps -/

/-- Where all steps succeed, each of them does. -/
theorem forM_ok {γ : Type} {f : γ → Walking Unit} {cs : List γ}
    (h : (cs.forM f).run w = (.ok (), w')) : ∀ c ∈ cs, ∃ v v', (f c).run v = (.ok (), v') := by
  induction cs generalizing w with
  | nil => exact fun c hc => absurd hc List.not_mem_nil
  | cons c cs ih =>
    rw [run_forM_cons] at h
    cases hrun : (f c).run w with | mk r next =>
    rw [hrun] at h
    cases r with
    | error e => cases h
    | ok _ => exact List.forall_mem_cons.mpr ⟨⟨w, next, hrun⟩, ih h⟩

theorem follow_ok {visit : String → Walking Unit} {reference : String}
    (h : (Reference.follow visit reference).run w = (.ok (), w')) :
    ∃ parts, Reference.split reference = .ok parts := by
  unfold Reference.follow at h
  cases hsplit : Reference.split reference with
  | error e =>
    rw [hsplit] at h
    cases h
  | ok parts => exact ⟨parts, rfl⟩

/-- **What entering and finishing files keep, a walk keeps.** A file is finished only after its
links have all been read. -/
theorem visit_keeps (hmark : ∀ w key, P w → P (w.mark key))
    (henter : ∀ w key bytes, P w → P (w.enter key bytes))
    (hfinish : ∀ w key root, (∀ l ∈ root.links, ∃ parts, Reference.split l = .ok parts) →
      P w → P (w.finish key root)) (levels : Nat) :
    ∀ file referrer, Keeps P (visit tree searchPaths levels file referrer) := by
  induction levels with
  | zero => exact fun _ _ w hw => hw
  | succ levels ih =>
    intro file referrer w hw
    have hrest : ∀ path root, Keeps P (followAll tree searchPaths levels path root) :=
      fun path root => Keeps.forM (fun r => Keeps.follow (fun f => ih f _) r) _
    generalize hvisit : (visit tree searchPaths (levels + 1) file referrer).run w = out
    cases hvisit ▸ visit_outcome with
    | missing h => exact hw
    | known h hkey => exact hw
    | stuck h hkey hread => exact hmark w _ hw
    | garbled found hkey hroot => exact henter _ _ _ (hmark w _ hw)
    | @broken path key bytes root e next found hkey hroot hrun =>
      have hnext := hrest path root _ (henter _ key bytes (hmark w key hw))
      rwa [hrun] at hnext
    | @finished path key bytes root next found hkey hroot hrun =>
      have hnext := hrest path root _ (henter _ key bytes (hmark w key hw))
      rw [hrun] at hnext
      refine hfinish next key root (fun l hl => ?_) hnext
      obtain ⟨v, v', hfollow⟩ := forM_ok hrun l hl
      exact follow_ok hfollow

/-- All links of the files finished are references. -/
def Readable (w : SourceWalk) : Prop :=
  ∀ f ∈ w.finished, ∀ l ∈ f.2.links, ∃ parts, Reference.split l = .ok parts

theorem History.readable (h : History clean w s) : w.Readable := by
  induction h with
  | start searchPaths => exact fun f hf => absurd hf List.not_mem_nil
  | search h directory ih => exact ih
  | @load clean w s h tree file ih =>
    refine visit_keeps (fun _ _ hw => hw) (fun _ _ _ hw => hw)
      (fun w key root hroot hw f hf => ?_) _ file none w ih
    rcases List.mem_append.mp hf with hf | hf
    · exact hw f hf
    · obtain rfl := List.mem_singleton.mp hf
      exact hroot

/-! ## The document of a walk -/

theorem History.document_eq (h : History clean w s) : s.document = w.document := by
  rw [h.toSet]
  rfl

/-- Files laid over a document: where links and sheltered references come from. -/
theorem foldl_gathers (files : List (PathKey × Json)) (below : Json) :
    let d := files.foldl (fun below f => (f.2.mapLinks Reference.localForm).merge below) below
    (∀ r ∈ d.links, r ∈ below.links ∨
        ∃ f ∈ files, ∃ l ∈ f.2.links, Reference.localForm l = r) ∧
      ∀ r ∈ d.sheltered, r ∈ below.sheltered ∨ ∃ f ∈ files, r ∈ f.2.sheltered := by
  induction files generalizing below with
  | nil => exact ⟨fun r hr => Or.inl hr, fun r hr => Or.inl hr⟩
  | cons first rest ih =>
    have hmerge := Json.merge_gathers (first.2.mapLinks Reference.localForm) below
    obtain ⟨hlinks, hsheltered⟩ := ih ((first.2.mapLinks Reference.localForm).merge below)
    refine ⟨fun r hr => ?_, fun r hr => ?_⟩
    · rcases hlinks r hr with hr | ⟨f, hf, hr⟩
      · rcases hmerge.links r hr with hr | hr
        · rw [Json.links_mapLinks, List.mem_map] at hr
          exact Or.inr ⟨first, List.mem_cons_self, hr⟩
        · exact Or.inl hr
      · exact Or.inr ⟨f, List.mem_cons_of_mem _ hf, hr⟩
    · rcases hsheltered r hr with hr | ⟨f, hf, hr⟩
      · rcases hmerge.sheltered r hr with hr | hr
        · rw [Json.sheltered_mapLinks] at hr
          exact Or.inr ⟨first, List.mem_cons_self, hr⟩
        · exact Or.inl hr
      · exact Or.inr ⟨f, List.mem_cons_of_mem _ hf, hr⟩

/-- **The links of a document** are the local forms of links of the files finished, and its
sheltered references are those of the files, as they stand. -/
theorem document_gathers (w : SourceWalk) :
    (∀ r ∈ w.document.links, ∃ f ∈ w.finished, ∃ l ∈ f.2.links, Reference.localForm l = r) ∧
      ∀ r ∈ w.document.sheltered, ∃ f ∈ w.finished, r ∈ f.2.sheltered := by
  obtain ⟨hlinks, hsheltered⟩ := foldl_gathers w.finished .empty
  refine ⟨fun r hr => (hlinks r hr).resolve_left ?_, fun r hr => (hsheltered r hr).resolve_left ?_⟩
  · simp [Json.empty, Json.links, Json.linksOfMembers]
  · simp [Json.empty, Json.sheltered, Json.shelteredInMembers]

/-- **References made local.** After any load, whatever it comes to and whatever loads came before
it, every link of the document is a reference without a file part, so all references of the document
are local exactly if the sheltered ones are; and each of these stands in a file that was merged. -/
theorem load_localizes (hs : History clean w s) {outcome : Except SchemaError Unit}
    (h : s.load tree file = (outcome, s')) :
    (∀ r ∈ s'.document.links, ∃ place, Reference.split r = .ok ("", place)) ∧
      ((∀ r ∈ s'.document.references, Reference.Local r) ↔
        ∀ r ∈ s'.document.sheltered, Reference.Local r) ∧
      ∃ clean' w', History clean' w' s' ∧
        ∀ r ∈ s'.document.sheltered, ∃ f ∈ w'.finished, r ∈ f.2.sheltered := by
  obtain ⟨clean', w', hafter⟩ : ∃ clean' w', History clean' w' s' :=
    ⟨_, _, congrArg Prod.snd h ▸ hs.load tree file⟩
  obtain ⟨hlinks, hsheltered⟩ := document_gathers w'
  rw [← hafter.document_eq] at hlinks hsheltered
  have hlocal : ∀ r ∈ s'.document.links, ∃ place, Reference.split r = .ok ("", place) := by
    intro r hr
    obtain ⟨f, hf, l, hl, rfl⟩ := hlinks r hr
    exact Reference.split_localForm (hafter.readable f hf l hl)
  refine ⟨hlocal, ⟨fun hall r hr => ?_, fun hall r hr => ?_⟩, clean', w', hafter, hsheltered⟩
  · exact hall r ((Json.mem_references_iff _).mpr (Or.inr hr))
  · rcases (Json.mem_references_iff _).mp hr with hr | hr
    · obtain ⟨place, hplace⟩ := hlocal r hr
      exact ⟨place, by simpa using (Reference.eq_of_split hplace).1⟩
    · exact hall r hr

namespace Sample

/-- A file with an object type that has two fields, one of them called like the reference key, and
the file that both refer to. -/
def keyed : FileTree where
  here := []
  directories := []
  files := [
    (["a"], some ("types:\n Note:\n  type: object\n" ++
      "  properties: {x: {$ref: b#/T}, $ref: {$ref: b#/T}}").toUTF8.toList),
    (["b"], some "T: {type: bool}".toUTF8.toList)]

/-- What the two files spell. -/
def keyedWalk : SourceWalk where
  keys := [⟨true, ["a"]⟩, ⟨true, ["b"]⟩]
  entered := [
    (⟨true, ["a"]⟩, ("types:\n Note:\n  type: object\n" ++
      "  properties: {x: {$ref: b#/T}, $ref: {$ref: b#/T}}").toUTF8.toList),
    (⟨true, ["b"]⟩, "T: {type: bool}".toUTF8.toList)]
  finished := [
    (⟨true, ["b"]⟩, .object [("T", .object [("type", .string "bool")])]),
    (⟨true, ["a"]⟩, .object [("types", .object [("Note", .object [("type", .string "object"),
      ("properties", .object [("x", .object [("$ref", .string "b#/T")]),
        ("$ref", .object [("$ref", .string "b#/T")])])])])])]

end Sample

theorem load_keyed :
    (SourceSet.empty []).load Sample.keyed "a" = (.ok (), Sample.keyedWalk.toSet []) :=
  load_of_visit (w := empty) (by decide +kernel)

/-- The reference of the first field is made local, that of the other one is sheltered. -/
theorem load_localizes_keyed :
    (SourceSet.empty []).load Sample.keyed "a" = (.ok (), Sample.keyedWalk.toSet []) ∧
      Sample.keyedWalk.document.links = ["#/T"] ∧
      Sample.keyedWalk.document.sheltered = ["b#/T"] ∧
      (∀ r ∈ Sample.keyedWalk.document.links, ∃ place, Reference.split r = .ok ("", place)) ∧
      ((∀ r ∈ Sample.keyedWalk.document.references, Reference.Local r) ↔
        ∀ r ∈ Sample.keyedWalk.document.sheltered, Reference.Local r) := by
  obtain ⟨hlinks, hiff, -⟩ := load_localizes (History.start []) load_keyed
  exact ⟨load_keyed, by decide +kernel, by decide +kernel, hlinks, hiff⟩

/-- **A sheltered reference keeps its file part**, and then the types of the document do not load.
-/
theorem load_not_local : ∃ s r, (SourceSet.empty []).load Sample.keyed "a" = (.ok (), s) ∧
    r ∈ s.document.references ∧ ¬ Reference.Local r ∧
    (Compile.loadForest s.document).result = .error (.unsupportedReference r) := by
  have hmem : "b#/T" ∈ Sample.keyedWalk.document.references := by
    decide +kernel
  have hforeign : ¬ Reference.Local "b#/T" := by
    rintro ⟨place, h⟩
    have hhead := congrArg (fun text => text.toList.head?) h
    simp at hhead
  have hfails : (Compile.loadForest Sample.keyedWalk.document).result.map (fun _ => ()) =
      .error (.unsupportedReference "b#/T") := by
    decide +kernel
  refine ⟨_, "b#/T", load_keyed, hmem, hforeign, ?_⟩
  cases hload : (Compile.loadForest Sample.keyedWalk.document).result with
  | error e =>
    rw [hload] at hfails
    obtain rfl := Except.error.inj hfails
    exact hload
  | ok f =>
    rw [hload] at hfails
    cases hfails

end SourceWalk

end Schemata
