import Schemata.Proofs.Order.Connected
import Schemata.Proofs.Order.Settling
import Mathlib.Data.List.Permutation
import Mathlib.Data.String.Basic
import Mathlib.Order.Defs.LinearOrder

/-!
# Ordering fails exactly on cycles

A component is a cycle exactly when its names reach themselves, so the check before the moves reports
a cycle exactly when there is one. Without one the moves come to rest, so the failure behind them is
never seen.

Results:
* `TypeGraph.mem_cycles`, `TypeGraph.cycles_eq_nil_iff`: what the cycle check reports, and when it
  reports nothing.
* `orderTypes_cyclic_iff`: when ordering fails, what it reports then, and that it succeeds otherwise.
-/

namespace Schemata

namespace TypeGraph

open Relation

variable {g : TypeGraph} {n m : String}

/-! ## Components that are cycles -/

/-- What a cyclic name depends on, and what depends on the cyclic name, form its class. -/
theorem mutual_iff_of_cyclic (h : TransGen g.Depends n n) :
    g.Mutual n m ↔ TransGen g.Depends n m ∧ TransGen g.Depends m n :=
  ⟨fun ⟨hnm, hmn⟩ => ⟨.trans_left h hnm, .trans_right hmn h⟩,
    fun ⟨hnm, hmn⟩ => ⟨hnm.to_reflTransGen, hmn.to_reflTransGen⟩⟩

/-- Two different names that depend on each other are on a cycle. -/
theorem Mutual.cyclic (h : g.Mutual n m) (hne : m ≠ n) : TransGen g.Depends n n := by
  rcases reflTransGen_iff_eq_or_transGen.mp h.1 with heq | hpath
  · exact absurd heq hne
  · exact .trans_left hpath h.2

/-- A class of one name is a cycle only if the name depends on itself. -/
theorem depends_self (h : TransGen g.Depends n n) (hclass : ∀ m, g.Mutual n m → m = n) :
    g.Depends n n := by
  obtain ⟨m, hstep, hpath⟩ := TransGen.head'_iff.mp h
  obtain rfl := hclass m ⟨.single hstep, hpath⟩
  exact hstep

/-- A component is a cycle exactly when its names depend on themselves, directly or not. -/
theorem isCycle_iff {c : List String} (hc : c.Nodup) (hclass : ∀ m, m ∈ c ↔ g.Mutual n m) :
    g.isCycle c = true ↔ TransGen g.Depends n n := by
  have hn : n ∈ c := (hclass n).mpr ⟨.refl, .refl⟩
  match c, hn with
  | [x], hn =>
    obtain rfl := List.mem_singleton.mp hn
    rw [isCycle, List.contains_iff_mem]
    exact ⟨fun he => .single he, fun h => depends_self h fun m hm =>
      List.mem_singleton.mp ((hclass m).mpr hm)⟩
  | x :: y :: rest, _ =>
    have hne : x ≠ y := fun h => (List.nodup_cons.mp hc).1 (h ▸ List.mem_cons_self)
    obtain ⟨m, hm, hmn⟩ : ∃ m ∈ x :: y :: rest, m ≠ n := by
      by_cases hx : x = n
      · exact ⟨y, by simp, fun hy => hne (hx.trans hy.symm)⟩
      · exact ⟨x, by simp, hx⟩
    exact iff_of_true (by simp [isCycle]) (((hclass m).mp hm).cyclic hmn)

/-! ## Reported cycles -/

/-- Different names in increasing order. -/
theorem sortNames_pairwise {names : List String} (hd : names.Nodup) :
    (sortNames names).Pairwise (· < ·) := by
  have hsorted : (sortNames names).Pairwise fun a b => !decide (b < a) :=
    List.pairwise_mergeSort
      (fun a b c hab hbc => by
        simp only [Bool.not_eq_true', decide_eq_false_iff_not, not_lt] at hab hbc ⊢
        exact hab.trans hbc)
      (fun a b => by
        simp only [Bool.or_eq_true, Bool.not_eq_true', decide_eq_false_iff_not, not_lt]
        exact le_total a b)
      names
  have hnodup : (sortNames names).Nodup := (List.mergeSort_perm _ _).nodup_iff.mpr hd
  refine (hsorted.and hnodup).imp fun hle => ?_
  obtain ⟨hle, hne⟩ := hle
  simp only [Bool.not_eq_true', decide_eq_false_iff_not, not_lt] at hle
  exact lt_of_le_of_ne hle hne

theorem mem_sortNames {names : List String} : m ∈ sortNames names ↔ m ∈ names :=
  (List.mergeSort_perm _ _).mem_iff

/-- **A reported cycle** is strictly sorted and holds the names that reach, and are reached from, a
name that reaches itself. -/
theorem mem_cycles (hg : g.WellFormed) {members : List String} (h : members ∈ g.cycles) :
    members.Pairwise (· < ·) ∧ ∃ n, TransGen g.Depends n n ∧
      ∀ m, m ∈ members ↔ TransGen g.Depends n m ∧ TransGen g.Depends m n := by
  obtain ⟨c, hc, rfl⟩ := List.mem_map.mp h
  obtain ⟨hc, hcycle⟩ := List.mem_filter.mp hc
  obtain ⟨hnodup, n, -, hclass⟩ := (components_classes hg).2 c hc
  have hn : TransGen g.Depends n n := (isCycle_iff hnodup hclass).mp hcycle
  exact ⟨sortNames_pairwise hnodup, n, hn, fun m => by
    rw [mem_sortNames, hclass, mutual_iff_of_cyclic hn]⟩

/-- **A name that reaches itself is in a reported cycle**, with every name that it depends on and that
depends on it. -/
theorem exists_cycle (hg : g.WellFormed) (h : TransGen g.Depends n n) :
    ∃ members ∈ g.cycles, ∀ m, m ∈ members ↔ g.Mutual n m := by
  have hname : n ∈ g.names := by
    obtain ⟨m, hstep, -⟩ := TransGen.head'_iff.mp h
    exact (hg _ hstep).2
  obtain ⟨c, hc, hin⟩ := exists_component hname
  obtain ⟨hnodup, root, -, hclass⟩ := (components_classes hg).2 c hc
  obtain ⟨hto, hfrom⟩ := (hclass n).mp hin
  have hcycle := (isCycle_iff hnodup hclass).mpr (.trans_left (.trans_right hto h) hfrom)
  refine ⟨sortNames c, List.mem_map_of_mem (List.mem_filter.mpr ⟨hc, hcycle⟩), fun m => ?_⟩
  rw [mem_sortNames, hclass]
  exact ⟨fun ⟨hrm, hmr⟩ => ⟨hfrom.trans hrm, hmr.trans hto⟩,
    fun ⟨hnm, hmn⟩ => ⟨hto.trans hnm, hmn.trans hfrom⟩⟩

/-- **No cycle is reported exactly when no name reaches itself.** -/
theorem cycles_eq_nil_iff (hg : g.WellFormed) :
    g.cycles = [] ↔ ∀ n, ¬ TransGen g.Depends n n := by
  constructor
  · intro hnone n hn
    obtain ⟨members, hmembers, -⟩ := exists_cycle hg hn
    rw [hnone] at hmembers
    exact List.not_mem_nil hmembers
  · intro hacyclic
    refine List.eq_nil_iff_forall_not_mem.mpr fun members hmembers => ?_
    obtain ⟨-, n, hn, -⟩ := mem_cycles hg hmembers
    exact hacyclic n hn

/-- The relation of the graph of a list of types. -/
theorem depends_ofTypes (types : List Node) : (ofTypes types).Depends = DependsOn types := by
  funext a b
  exact propext mem_edges_ofTypes

end TypeGraph

/-! ## Ordering -/

section
open Relation

variable {types : List Node} {members : List String}

/-- Without a cycle ordering succeeds. -/
theorem orderTypes_of_acyclic (h : ∀ n, ¬ TransGen (DependsOn (firstOfEach (drain types))) n n) :
    (Reorder.run (firstOfEach (drain types))).settled = true ∧
      (Reorder.run (firstOfEach (drain types))).scans ≤ max 1 (firstOfEach (drain types)).length ∧
      ∃ out stats, (orderTypes types).result = .ok (out, stats) := by
  have hd : ((firstOfEach (drain types)).map Node.name).Nodup := by
    rw [firstOfEach_drain]
    exact drain_nodup types
  obtain ⟨hsettled, hscans⟩ := Reorder.run_settles hd fun n hn =>
    h n (TransGen.mono (fun _ _ hstep => hstep.1) n n hn)
  have hcycles : (TypeGraph.ofTypes (firstOfEach (drain types))).cycles = [] := by
    rw [TypeGraph.cycles_eq_nil_iff (TypeGraph.wellFormed_ofTypes _), TypeGraph.depends_ofTypes]
    exact h
  refine ⟨hsettled, hscans, (Reorder.run (firstOfEach (drain types))).types, ?_⟩
  simp only [orderTypes, hcycles, reorder, hsettled, if_true]
  exact ⟨_, rfl⟩

/-- A failure reports one of the cycles that the check finds. -/
theorem mem_cycles_of_orderTypes
    (h : (orderTypes types).result = .error (.cyclicDependency members)) :
    members ∈ (TypeGraph.ofTypes (firstOfEach (drain types))).cycles := by
  cases hcycles : (TypeGraph.ofTypes (firstOfEach (drain types))).cycles with
  | nil =>
    rw [TypeGraph.cycles_eq_nil_iff (TypeGraph.wellFormed_ofTypes _),
      TypeGraph.depends_ofTypes] at hcycles
    obtain ⟨-, -, out, stats, hok⟩ := orderTypes_of_acyclic hcycles
    exact absurd (h.symm.trans hok) (by simp)
  | cons first rest =>
    simp only [orderTypes, hcycles, Loaded.fail, Except.error.injEq,
      SchemaError.cyclicDependency.injEq] at h
    exact h ▸ List.mem_cons_self

/-- **Ordering fails exactly on cycles.** It fails when some name of the drained types reaches itself,
and reports then, in increasing order, the names that such a name reaches and that reach it; a name
alone only if it depends on itself. Otherwise it succeeds, and its scans come to rest long before their
limit. -/
theorem orderTypes_cyclic_iff (types : List Node) :
    let sorted := firstOfEach (drain types)
    ((∃ members, (orderTypes types).result = .error (.cyclicDependency members)) ↔
      ∃ n, TransGen (DependsOn sorted) n n) ∧
    (∀ members, (orderTypes types).result = .error (.cyclicDependency members) →
      members.Pairwise (· < ·) ∧
      (∃ n, TransGen (DependsOn sorted) n n ∧
        ∀ m, m ∈ members ↔ TransGen (DependsOn sorted) n m ∧ TransGen (DependsOn sorted) m n) ∧
      ∀ n, members = [n] → DependsOn sorted n n) ∧
    ((¬ ∃ n, TransGen (DependsOn sorted) n n) →
      (∃ out stats, (orderTypes types).result = .ok (out, stats)) ∧
      (Reorder.run sorted).settled = true ∧
      (Reorder.run sorted).scans ≤ max 1 sorted.length) := by
  intro sorted
  have hsorted : sorted = firstOfEach (drain types) := rfl
  have hgraph := TypeGraph.wellFormed_ofTypes sorted
  have hrel := TypeGraph.depends_ofTypes sorted
  have hreport : ∀ members, (orderTypes types).result = .error (.cyclicDependency members) →
      members.Pairwise (· < ·) ∧ ∃ n, TransGen (DependsOn sorted) n n ∧
        ∀ m, m ∈ members ↔ TransGen (DependsOn sorted) n m ∧ TransGen (DependsOn sorted) m n :=
    fun members h => hrel ▸ TypeGraph.mem_cycles hgraph (mem_cycles_of_orderTypes h)
  refine ⟨⟨fun ⟨members, h⟩ => ?_, fun ⟨n, hn⟩ => ?_⟩, fun members h => ?_, fun hacyclic => ?_⟩
  · obtain ⟨-, n, hn, -⟩ := hreport members h
    exact ⟨n, hn⟩
  · cases hcycles : (TypeGraph.ofTypes sorted).cycles with
    | nil => exact absurd (hrel ▸ hn) ((TypeGraph.cycles_eq_nil_iff hgraph).mp hcycles n)
    | cons members rest => exact ⟨members, by simp only [orderTypes, ← hsorted, hcycles, Loaded.fail]⟩
  · obtain ⟨hincreasing, n, hn, hmem⟩ := hreport members h
    refine ⟨hincreasing, ⟨n, hn, hmem⟩, ?_⟩
    rintro name rfl
    have heq : ∀ m, TransGen (DependsOn sorted) n m → TransGen (DependsOn sorted) m n → m = name :=
      fun m hnm hmn => List.mem_singleton.mp ((hmem m).mpr ⟨hnm, hmn⟩)
    obtain rfl := heq n hn hn
    rw [← hrel] at hn heq ⊢
    exact TypeGraph.depends_self hn fun m hm =>
      have hmutual := (TypeGraph.mutual_iff_of_cyclic hn).mp hm
      heq m hmutual.1 hmutual.2
  · obtain ⟨hsettled, hscans, hok⟩ := orderTypes_of_acyclic fun n hn => hacyclic ⟨n, hn⟩
    exact ⟨hok, hsettled, hscans⟩

/-- Two types that refer to each other. -/
def Sample.circle : List Node :=
  [Sample.object "B" [Sample.reference "a" (Sample.object "A" [])],
    Sample.object "A" [Sample.reference "b" (Sample.object "B" [])]]

/-- The circle is reported, and the stale copy's types have none. -/
theorem orderTypes_cyclic_iff_circle :
    (orderTypes Sample.circle).result = .error (.cyclicDependency ["A", "B"]) ∧
    (["A", "B"].Pairwise (· < ·) ∧
      ∃ n, TransGen (DependsOn (firstOfEach (drain Sample.circle))) n n ∧
        ∀ m, m ∈ ["A", "B"] ↔ TransGen (DependsOn (firstOfEach (drain Sample.circle))) n m ∧
          TransGen (DependsOn (firstOfEach (drain Sample.circle))) m n) ∧
    (¬ ∃ n, TransGen (DependsOn (firstOfEach (drain Sample.staleCopy))) n n) ∧
    (∃ out stats, (orderTypes Sample.staleCopy).result = .ok (out, stats)) ∧
      (Reorder.run (firstOfEach (drain Sample.staleCopy))).settled = true := by
  have hcircle : (orderTypes Sample.circle).result = .error (.cyclicDependency ["A", "B"]) := by
    cbv
  have hacyclic : ¬ ∃ n, TransGen (DependsOn (firstOfEach (drain Sample.staleCopy))) n n := by
    intro h
    obtain ⟨members, hm⟩ := (orderTypes_cyclic_iff Sample.staleCopy).1.mpr h
    have hok : (orderTypes Sample.staleCopy).result = .ok (Sample.staleCopyOrdered, ⟨2, 1⟩) := by rfl
    exact absurd (hm.symm.trans hok) (by simp)
  obtain ⟨hincreasing, hclass, -⟩ := (orderTypes_cyclic_iff Sample.circle).2.1 _ hcircle
  obtain ⟨hok, hsettled, -⟩ := (orderTypes_cyclic_iff Sample.staleCopy).2.2 hacyclic
  exact ⟨hcircle, ⟨hincreasing, hclass⟩, hacyclic, hok, hsettled⟩

end

end Schemata
