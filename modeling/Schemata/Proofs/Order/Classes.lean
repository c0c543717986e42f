import Schemata.Proofs.Order.Cycles

/-!
# The cycles of a graph of names

The graph of a list of types has an edge for each dependency between names of the list, and no edge
twice. Its reported cycles are the classes of names that reach each other, and of single names that
depend on themselves: every name that reaches itself is in exactly one of them.

Results:
* `TypeGraph.nodup_dependencies`, `TypeGraph.nodup_dependents`: neighbours are listed once.
* `TypeGraph.cycles_disjoint`, `TypeGraph.mem_cycle_iff`: reported cycles share no name, and two names
  are in one cycle exactly when each reaches the other.
* `cycles_of_types`: all of it for the graph of a list of types.
-/

namespace Schemata

open Relation

namespace TypeGraph

/-! ## Neighbours -/

section Construction

variable {α : Type} [DecidableEq α]

theorem nodup_insertNew {xs : List α} (h : xs.Nodup) (x : α) : (insertNew xs x).Nodup := by
  unfold insertNew
  split
  · exact h
  · rename_i hx
    exact h.append (List.nodup_singleton x) (List.disjoint_singleton.mpr hx)

theorem nodup_foldl_insertNew : ∀ (ys : List α) {xs : List α}, xs.Nodup →
    (ys.foldl insertNew xs).Nodup
  | [], _, h => h
  | y :: ys, _, h => nodup_foldl_insertNew ys (nodup_insertNew h y)

end Construction

theorem nodup_edges_ofTypes (types : List Node) : (ofTypes types).edges.Nodup :=
  nodup_foldl_insertNew _ List.nodup_nil

variable {g : TypeGraph} {a b : String}

theorem nodup_dependencies (h : g.edges.Nodup) (name : String) : (g.dependencies name).Nodup := by
  refine List.nodup_reverse.mpr ((h.filter _).map_on ?_)
  rintro ⟨a, b⟩ ha ⟨c, d⟩ hc rfl
  obtain rfl : b = name := by simpa using (List.mem_filter.mp ha).2
  obtain rfl : d = b := by simpa using (List.mem_filter.mp hc).2
  rfl

theorem nodup_dependents (h : g.edges.Nodup) (name : String) : (g.dependents name).Nodup := by
  refine List.nodup_reverse.mpr ((h.filter _).map_on ?_)
  rintro ⟨a, b⟩ ha ⟨c, d⟩ hc rfl
  obtain rfl : a = name := by simpa using (List.mem_filter.mp ha).2
  obtain rfl : c = a := by simpa using (List.mem_filter.mp hc).2
  rfl

/-! ## Cycles -/

/-- **Reported cycles share no name.** -/
theorem cycles_disjoint (hg : g.WellFormed) : g.cycles.Pairwise List.Disjoint := by
  refine List.pairwise_map.mpr (((components_classes hg).1.filter _).imp fun hdisjoint => ?_)
  exact fun n ha hb => hdisjoint (mem_sortNames.mp ha) (mem_sortNames.mp hb)

/-- **Two names are in one reported cycle exactly when each reaches the other.** -/
theorem mem_cycle_iff (hg : g.WellFormed) :
    (∃ members ∈ g.cycles, a ∈ members ∧ b ∈ members) ↔
      TransGen g.Depends a b ∧ TransGen g.Depends b a := by
  constructor
  · rintro ⟨members, hmembers, ha, hb⟩
    obtain ⟨-, n, -, hclass⟩ := mem_cycles hg hmembers
    obtain ⟨hna, han⟩ := (hclass a).mp ha
    obtain ⟨hnb, hbn⟩ := (hclass b).mp hb
    exact ⟨han.trans hnb, hbn.trans hna⟩
  · rintro ⟨hab, hba⟩
    obtain ⟨members, hmembers, hclass⟩ := exists_cycle hg (hab.trans hba)
    exact ⟨members, hmembers, (hclass a).mpr ⟨.refl, .refl⟩,
      (hclass b).mpr ⟨hab.to_reflTransGen, hba.to_reflTransGen⟩⟩

theorem exists_cycle_iff (hg : g.WellFormed) :
    (∃ members ∈ g.cycles, a ∈ members) ↔ TransGen g.Depends a a := by
  have h := mem_cycle_iff (a := a) (b := a) hg
  simpa only [and_self] using h

theorem ne_nil_of_mem_cycles (hg : g.WellFormed) {members : List String} (h : members ∈ g.cycles) :
    members ≠ [] := by
  obtain ⟨-, n, hn, hclass⟩ := mem_cycles hg h
  exact List.ne_nil_of_mem ((hclass n).mpr ⟨hn, hn⟩)

end TypeGraph

/-- **The graph of a list of types and its cycles.** A name is listed among the dependencies of another
one, once, exactly when that one depends on it, and the other one among its dependents. The reported
cycles share no name; each of them is strictly sorted and holds some name; two different names are in
one of them exactly when each reaches the other, and a name is in one exactly when it reaches itself. -/
theorem cycles_of_types (types : List Node) :
    let g := TypeGraph.ofTypes types
    g.cycles.Pairwise List.Disjoint ∧
    (∀ members ∈ g.cycles, members ≠ [] ∧ members.Pairwise (· < ·)) ∧
    (∀ a b, a ≠ b → ((∃ members ∈ g.cycles, a ∈ members ∧ b ∈ members) ↔
      TransGen (DependsOn types) a b ∧ TransGen (DependsOn types) b a)) ∧
    (∀ a, (∃ members ∈ g.cycles, a ∈ members) ↔ TransGen (DependsOn types) a a) ∧
    (∀ a b, (a ∈ g.dependencies b ↔ DependsOn types b a) ∧
      (b ∈ g.dependents a ↔ DependsOn types b a)) ∧
    ∀ a, (g.dependencies a).Nodup ∧ (g.dependents a).Nodup := by
  intro g
  have hg : g.WellFormed := TypeGraph.wellFormed_ofTypes types
  have hrel : g.Depends = DependsOn types := TypeGraph.depends_ofTypes types
  rw [← hrel]
  refine ⟨TypeGraph.cycles_disjoint hg, fun members h =>
    ⟨TypeGraph.ne_nil_of_mem_cycles hg h, (TypeGraph.mem_cycles hg h).1⟩,
    fun _ _ _ => TypeGraph.mem_cycle_iff hg, fun _ => TypeGraph.exists_cycle_iff hg,
    fun _ _ => ⟨TypeGraph.mem_dependencies, TypeGraph.mem_dependents⟩, fun a => ?_⟩
  have hedges : g.edges.Nodup := TypeGraph.nodup_edges_ofTypes types
  exact ⟨TypeGraph.nodup_dependencies hedges a, TypeGraph.nodup_dependents hedges a⟩

namespace Sample

/-- `Ring` is listed twice, and only its second entry depends on `Hub`, which depends on `Ring` in two
fields; `Self` depends on itself, `Rim` on `Ring`, and `Hub` on a name that is not listed. -/
def wheel : List Node :=
  let ring := object "Ring" []
  [object "Rim" [reference "ring" ring], ring, object "Self" [reference "self" (object "Self" [])],
    object "Hub" [reference "left" ring, reference "right" ring, text "axle"],
    object "Ring" [reference "hub" (object "Hub" [])]]

end Sample

/-- The cycles and neighbours of the wheel. -/
theorem cycles_of_types_wheel :
    (TypeGraph.ofTypes Sample.wheel).cycles = [["Self"], ["Hub", "Ring"]] ∧
    (TypeGraph.ofTypes Sample.wheel).dependencies "Hub" = ["Ring"] ∧
    TransGen (DependsOn Sample.wheel) "Hub" "Ring" ∧ TransGen (DependsOn Sample.wheel) "Ring" "Hub" ∧
    TransGen (DependsOn Sample.wheel) "Self" "Self" ∧
    ¬ TransGen (DependsOn Sample.wheel) "Rim" "Rim" := by
  have hcycles : (TypeGraph.ofTypes Sample.wheel).cycles = [["Self"], ["Hub", "Ring"]] := by cbv
  obtain ⟨-, -, htwo, hone, -, -⟩ := cycles_of_types Sample.wheel
  simp only [hcycles] at htwo hone
  obtain ⟨hthere, hback⟩ := (htwo "Hub" "Ring" (by decide)).mp (by simp)
  exact ⟨hcycles, by cbv, hthere, hback, (hone "Self").mp (by simp),
    fun h => absurd ((hone "Rim").mpr h) (by simp)⟩

end Schemata
