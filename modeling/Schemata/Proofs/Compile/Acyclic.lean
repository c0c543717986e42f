import Schemata.Proofs.Build.Failures
import Schemata.Proofs.Compile.Closed
import Schemata.Proofs.Order.Cycles

/-!
# Finished types have no circles

In a closed forest each final type is larger than the type that stands for the name of anything it
depends on: a placed node shares its shape with that type, and a reference has its members. Names may
be invented, shared and given suffixes, but along dependencies the sizes go down, so no name leads back
to itself, and ordering succeeds.

Results:
* `Forest.extract_acyclic`: the final types of a closed forest do not depend on themselves.
* `compile_succeeds_iff`: a document whose references point into `types` compiles exactly when its
  sections load.
-/

namespace Schemata

open Relation

namespace Forest

variable {f : Forest}

/-- A dependency between final types leads to a smaller type. -/
theorem smaller_of_dependsOn (hp : f.Plain) (hf : f.Closed) {a b : String}
    (h : DependsOn (firstOfEach (drain f.extract.types)) a b) :
    ∃ t u, declaring? f.extract.types a = some t ∧ declaring? f.extract.types b = some u ∧
      u.size < t.size := by
  rw [firstOfEach_drain] at h
  obtain ⟨t, ht, rfl, d, hd, rfl, -⟩ := h
  obtain ⟨v, hv, hname⟩ := List.mem_map.mp (mem_drain_names.mp (List.mem_map_of_mem ht))
  have hdeclares : f.extract.Declares t.name := hname ▸ extract_declares hf hv
  obtain ⟨u, hu, hr, huname⟩ := hdeclares
  obtain ⟨w, hw⟩ := exists_declaring? ⟨u, hu, huname, hr⟩
  -- the drain keeps the type that stands for the name
  obtain rfl := drain_first ht w hw
  obtain ⟨hin, -, hnot⟩ := declaring?_eq_some hw
  obtain ⟨u, hu, hlt⟩ := extract_smaller hp hf hin hnot d hd
  exact ⟨t, u, hw, hu, hlt⟩

/-- **The final types of a closed forest do not depend on themselves.** -/
theorem extract_acyclic (hp : f.Plain) (hf : f.Closed) (n : String) :
    ¬ TransGen (DependsOn (firstOfEach (drain f.extract.types))) n n := by
  refine Reorder.acyclic_of_measure
    (fun name => (declaring? f.extract.types name).map Node.size) (fun a b hstep => ?_) n
  obtain ⟨t, u, ht, hu, hlt⟩ := smaller_of_dependsOn hp hf hstep
  exact ⟨t.size, u.size, by rw [ht]; rfl, by rw [hu]; rfl, hlt⟩

end Forest

variable {document : Json}

/-- Types and elements of a document whose references point into `types` extract to types without
circles. -/
theorem loaded_acyclic (hrefs : ∀ r ∈ document.references, IntoTypes r) {types elements : List Node}
    (htypes : (Entry.loadSection document "types").result = .ok types)
    (helements : (Entry.loadSection document "elements").result = .ok elements) (n : String) :
    ¬ TransGen (DependsOn (firstOfEach (drain (Forest.extract ⟨types, elements⟩).types))) n n := by
  have hplain : Forest.Plain ⟨types, elements⟩ := Entry.loadSection_plain htypes
  have hclosed : Forest.Closed ⟨types, elements⟩ :=
    loadForest_closed_of_intoTypes hrefs htypes helements
  exact Forest.extract_acyclic hplain hclosed n

/-- **A document whose references point into `types` compiles exactly when its sections load.** Neither
new definitions nor new names bring about a circle among the final types, so no circle is ever
reported. -/
theorem compile_succeeds_iff (hrefs : ∀ r ∈ document.references, IntoTypes r) (definition : String)
    (digest : Checksum) :
    ((∃ c, Compile.document none definition document digest = .ok c) ↔
      (∃ types, (Entry.loadSection document "types").result = .ok types) ∧
        ∃ elements, (Entry.loadSection document "elements").result = .ok elements) ∧
    (∀ types elements, (Entry.loadSection document "types").result = .ok types →
      (Entry.loadSection document "elements").result = .ok elements → ∀ n,
        ¬ TransGen (DependsOn (firstOfEach (drain (Forest.extract ⟨types, elements⟩).types))) n n) ∧
    ∀ members,
      Compile.document none definition document digest ≠ .error (.cyclicDependency members) := by
  refine ⟨⟨fun ⟨c, hc⟩ => ?_, fun ⟨⟨types, htypes⟩, elements, helements⟩ => ?_⟩,
    fun types elements htypes helements => loaded_acyclic hrefs htypes helements,
    fun members hcircle => ?_⟩
  · obtain ⟨f, -, -, htypes, helements, -⟩ := Compile.document_inv hc
    exact ⟨⟨f.types, htypes⟩, f.elements, helements⟩
  · have houtcome := Compile.document_outcome definition document digest
    obtain ⟨-, -, out, stats, horder⟩ :=
      orderTypes_of_acyclic (loaded_acyclic hrefs htypes helements)
    simp only [htypes, helements, horder, Except.ok_bind] at houtcome
    obtain ⟨c, hc, -⟩ := Except.map_eq_ok.mp houtcome
    exact ⟨c, hc⟩
  · have houtcome := Compile.document_outcome definition document digest
    rw [hcircle] at houtcome
    cases htypes : (Entry.loadSection document "types").result with
    | error e =>
      rw [htypes] at houtcome
      obtain rfl := Except.error.inj houtcome
      exact Entry.loadSection_fails document "types" _ htypes
    | ok types =>
      cases helements : (Entry.loadSection document "elements").result with
      | error e =>
        rw [htypes, helements] at houtcome
        obtain rfl := Except.error.inj houtcome
        exact Entry.loadSection_fails document "elements" _ helements
      | ok elements =>
        obtain ⟨-, -, out, stats, horder⟩ :=
          orderTypes_of_acyclic (loaded_acyclic hrefs htypes helements)
        simp only [htypes, helements, horder, Except.ok_bind] at houtcome
        cases houtcome

/-- The border compiles, as its sections load. -/
theorem compile_succeeds_iff_border :
    (∀ r ∈ Sample.border.references, IntoTypes r) ∧
      (∃ types, (Entry.loadSection Sample.border "types").result = .ok types) ∧
      (∃ elements, (Entry.loadSection Sample.border "elements").result = .ok elements) ∧
      ∃ c, Compile.document none "border.yaml" Sample.border (Checksum.ofBytes []) = .ok c := by
  have hpoint : IntoTypes "#/types/geo~1Point" := ⟨"geo~1Point".toList, by decide, by decide⟩
  have hline : IntoTypes "#/types/Line" := ⟨"Line".toList, by decide, by decide⟩
  have hrefs : ∀ r ∈ Sample.border.references, IntoTypes r :=
    List.forall_mem_cons.mpr ⟨hpoint, List.forall_mem_cons.mpr ⟨hpoint,
      List.forall_mem_cons.mpr ⟨hline, List.forall_mem_nil _⟩⟩⟩
  have hloads : (Entry.loadSection Sample.border "types").result.toOption.isSome ∧
      (Entry.loadSection Sample.border "elements").result.toOption.isSome := by
    decide +kernel
  have hok : ∀ r : Except SchemaError (List Node), r.toOption.isSome → ∃ nodes, r = .ok nodes := by
    intro r hr
    cases r with
    | error e => cases hr
    | ok nodes => exact ⟨nodes, rfl⟩
  have htypes := hok _ hloads.1
  have helements := hok _ hloads.2
  exact ⟨hrefs, htypes, helements,
    (compile_succeeds_iff hrefs "border.yaml" (Checksum.ofBytes [])).1.mpr ⟨htypes, helements⟩⟩

end Schemata
