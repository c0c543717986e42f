import Mathlib.Data.List.Dedup
import Mathlib.Data.List.Perm.Subperm
import Mathlib.Logic.Function.Iterate
import Schemata.Proofs.Build.Agreement
import Schemata.Proofs.Build.Pointers
import Schemata.Proofs.Unmet

/-!
# What resolving depends on

A resolver stops at a reference that is being resolved already, so while it goes down the references
that it has not met get fewer, and it never runs out of levels if it starts with more than there
are. Apart from that it sees of a document only what the references point at. Two documents in which
they point at the same values resolve them alike.

A level of a resolver is one turn of `ask`, whatever stands below. So what is said of the levels is
said of any number of turns above anything.

Results:
* `iterate_alike`: resolvers of two documents do the same at references that point at the same
  values.
* `iterate_levels`: the levels that a load starts with are never used up.
* `loadSection_alike`: a section depends on nothing but itself and what its references lead to.
-/

namespace Schemata

namespace Entry

/-- References that point at the same values in two documents and lead to no other references. -/
structure Alike (document document' : Json) (refs : List String) : Prop where
  /-- They point at the same values. -/
  resolve_eq : ∀ r ∈ refs, Pointer.resolve document r = Pointer.resolve document' r
  /-- The references of a value that they point at are among them. -/
  closed : ∀ r ∈ refs, ∀ key target, Pointer.resolve document r = .ok (key, target) →
    target.references ⊆ refs

/-- A document and itself. -/
theorem Alike.refl (document : Json) : Alike document document document.references where
  resolve_eq _ _ := rfl
  closed _ _ _ _ h := Pointer.references_of_resolve h

section
variable {document document' : Json} {refs : List String}

/-- What a resolver does at a site when `below` loads the target of its reference. -/
def ask (document : Json) (below : List String → Resolver) (resolving : List String) : Resolver :=
  fun name site => do
    let some (.string reference) := site.lookup "$ref"
      | .fail (.malformedType name .referenceNotText)
    let (key, target) ← Loaded.lift (Pointer.resolve document reference)
    if resolving.contains reference then
      .fail (.cyclicReference (resolving ++ [reference]))
    else
      match ← load (below (resolving ++ [reference])) key target with
      | none => return none
      | some node => Loaded.lift ((node.atSite name site).map some)

/-- A resolver asks as often as it has levels, and then refuses. -/
theorem resolver_eq_iterate (document : Json) (levels : Nat) :
    resolver document levels =
      (ask document)^[levels] fun resolving _ _ => .fail (.cyclicReference resolving) := by
  induction levels with
  | zero => rfl
  | succ levels ih =>
    rw [Function.iterate_succ_apply', ← ih]
    rfl

variable {below below' : List String → Resolver}

/-- Two resolvers do the same at a site if the reference points at the same value there and the
value is loaded alike below them. -/
theorem ask_congr {resolving : List String} {name : String} {site : Props}
    (h : ∀ reference, List.lookup "$ref" site = some (.string reference) →
      Pointer.resolve document reference = Pointer.resolve document' reference ∧
        ∀ key target, Pointer.resolve document reference = .ok (key, target) →
          reference ∉ resolving →
            load (below (resolving ++ [reference])) key target =
              load (below' (resolving ++ [reference])) key target) :
    ask document below resolving name site = ask document' below' resolving name site := by
  simp only [ask]
  cases hl : List.lookup "$ref" site with
  | none => rfl
  | some v =>
    cases v with
    | string reference =>
      obtain ⟨hresolve, hload⟩ := h reference hl
      simp only [← hresolve]
      cases hfound : Pointer.resolve document reference with
      | error e => rfl
      | ok found =>
        rw [Loaded.lift_ok_bind, Loaded.lift_ok_bind]
        by_cases hin : reference ∈ resolving
        · simp only [List.contains_eq_mem, decide_eq_true hin, if_true]
        · simp only [List.contains_eq_mem, decide_eq_false hin]
          rw [hload found.1 found.2 hfound hin]
    | _ => rfl

/-- **Two documents resolve references alike** that point at the same values, with more levels than
there are references to be met. The levels need not be as many, and what stands below them is never
asked. -/
theorem iterate_alike (h : Alike document document' refs) : ∀ (levels levels' : Nat)
    (resolving : List String), (unmet refs resolving).length < levels →
      (unmet refs resolving).length < levels' →
        Resolver.Related (fun _ x y => x = y) (· ∈ refs) ((ask document)^[levels] below resolving)
          ((ask document')^[levels'] below' resolving)
  | 0, _, _, hlevels, _ => absurd hlevels (Nat.not_lt_zero _)
  | _ + 1, 0, _, _, hlevels' => absurd hlevels' (Nat.not_lt_zero _)
  | levels + 1, levels' + 1, resolving, hlevels, hlevels' => by
    intro name site hsite
    rw [Function.iterate_succ_apply', Function.iterate_succ_apply']
    refine ask_congr fun reference hl => ?_
    have hmem : reference ∈ refs := hsite reference hl
    refine ⟨h.resolve_eq reference hmem, fun key target hfound hnot => ?_⟩
    have hfewer := length_unmet_append_lt hmem hnot
    have hbelow := iterate_alike h levels levels' (resolving ++ [reference])
      (by omega) (by omega)
    have htarget : target.references ⊆ refs := h.closed reference hmem key target hfound
    exact load_related Loaded.congruent_eq hbelow key target htarget

theorem resolver_alike (h : Alike document document' refs) {levels levels' : Nat}
    {resolving : List String} (hlevels : (unmet refs resolving).length < levels)
    (hlevels' : (unmet refs resolving).length < levels') :
    (resolver document levels resolving).Related (fun _ x y => x = y) (· ∈ refs)
      (resolver document' levels' resolving) := by
  rw [resolver_eq_iterate, resolver_eq_iterate]
  exact iterate_alike h levels levels' resolving hlevels hlevels'

/-- **The levels that a load starts with are never used up**: whatever is put below as many or more
of them, it is not asked, also at a site that is not of the document. -/
theorem iterate_levels {more : Nat} (hmore : levels document ≤ more) (name : String)
    (site : Props) : (ask document)^[more] below [] name site = resolveIn document name site := by
  have hmet : ∀ seen, (unmet document.references seen).length ≤ document.references.length :=
    fun _ => List.length_filter_le _ _
  obtain ⟨fewer, rfl⟩ : ∃ fewer, more = fewer + 1 :=
    ⟨more - 1, by unfold levels at hmore; omega⟩
  unfold levels at hmore
  unfold resolveIn levels
  rw [resolver_eq_iterate, Function.iterate_succ_apply', Function.iterate_succ_apply']
  refine ask_congr fun reference _ => ⟨rfl, fun key target hfound _ => ?_⟩
  have hseen := hmet ([] ++ [reference])
  refine load_related Loaded.congruent_eq ?_ key target (Pointer.references_of_resolve hfound)
  exact iterate_alike (Alike.refl document) fewer (document.references.length + 1)
    ([] ++ [reference]) (by omega) (by omega)

/-- More levels than a load starts with make no difference. -/
theorem resolveIn_levels {more : Nat} (hmore : levels document ≤ more) (name : String)
    (site : Props) : resolver document more [] name site = resolveIn document name site := by
  rw [resolver_eq_iterate]
  exact iterate_levels hmore name site

/-! ## Sections -/

/-- An entry that refers only to what two documents have in common is loaded alike. -/
theorem loadIn_alike (h : Alike document document' refs) (hrefs : refs ⊆ document.references)
    (hrefs' : refs ⊆ document'.references) (name : String) {v : Json} (hv : v.references ⊆ refs) :
    loadIn document name v = loadIn document' name v := by
  have henough : ∀ {d : Json}, refs ⊆ d.references → (unmet refs.dedup []).length < levels d := by
    intro d hsub
    have hdedup : refs.dedup ⊆ d.references := fun r hr => hsub (List.mem_dedup.mp hr)
    have hlength := (List.subperm_of_subset (List.nodup_dedup refs) hdedup).length_le
    have hmet : (unmet refs.dedup []).length ≤ refs.dedup.length := List.length_filter_le _ _
    unfold levels
    omega
  have hdedup : Alike document document' refs.dedup :=
    ⟨fun r hr => h.resolve_eq r (List.mem_dedup.mp hr), fun r hr key target hfound s hs =>
      List.mem_dedup.mpr (h.closed r (List.mem_dedup.mp hr) key target hfound hs)⟩
  have hresolve := resolver_alike hdedup (henough hrefs) (henough hrefs')
  exact load_related Loaded.congruent_eq hresolve name v fun s hs => List.mem_dedup.mpr (hv hs)

theorem loadEntries_alike (h : Alike document document' refs) (hrefs : refs ⊆ document.references)
    (hrefs' : refs ⊆ document'.references) (name : String) :
    ∀ entries : List (String × Json), Json.referencesUnder entries ⊆ refs →
      loadEntries document name entries = loadEntries document' name entries
  | [], _ => rfl
  | (k, v) :: rest, hentries => by
    have hfirst : v.references ⊆ refs :=
      fun s hs => hentries (Json.references_of_mem List.mem_cons_self hs)
    have hrest := loadEntries_alike h hrefs hrefs' name rest
      fun s hs => hentries (Json.mem_referencesUnder_cons.mpr (Or.inr (Or.inr hs)))
    rw [loadEntries, loadEntries, loadIn_alike h hrefs hrefs' k hfirst, hrest]

/-- **A section depends on nothing but itself and what its references lead to.** -/
theorem loadSection_alike (h : Alike document document' refs) (hrefs : refs ⊆ document.references)
    (hrefs' : refs ⊆ document'.references) {name : String}
    (hname : document.get? name = document'.get? name)
    (hin : ∀ v, document.get? name = some v → v.references ⊆ refs) :
    loadSection document name = loadSection document' name := by
  unfold loadSection
  rw [← hname]
  cases hsection : document.get? name with
  | none => rfl
  | some v =>
    cases v with
    | object entries =>
      exact loadEntries_alike h hrefs hrefs' name entries (hin _ hsection)
    | _ => rfl

end

end Entry

end Schemata
