import Schemata.Proofs.Order.Emptying
import Schemata.Proofs.Order.Relocation

/-!
# When the drain alone puts types in order

A node leaves the pool behind everything that it depends on, but the entry that comes to stand for its
name may be another one. Where nodes of one name always depend on the same names this makes no
difference: what the entry depends on has been moved, too. The drained types then have no cycle, and
the pass behind the drain finds nothing to move.

Results:
* `drain_dependenciesFirst`: a drain of such types puts every dependency in front of its dependent.
* `acyclic_of_dependenciesFirst`, `reorder_of_dependenciesFirst`: types in this order have no cycle, and
  moving dependencies in front leaves them as they are.
* `orderTypes_of_consistent`: ordering such types is draining them.
-/

namespace Schemata

open Relation

variable {types out : List Node} {names : List String} {n m t : Node}

/-! ## Consistent types -/

/-- Nodes of one name depend on the same names, in the same order, wherever they occur. -/
def Consistent (types : List Node) : Prop :=
  ∀ a b : Node, a.OccursIn types → b.OccursIn types → a.name = b.name →
    a.dependencies.map Node.name = b.dependencies.map Node.name

namespace Node

theorem postorder_of_needs {d : Node} (hd : d ∈ n.dependencies) (hm : m ∈ d.postorder) :
    m ∈ n.postorder := by
  rw [postorder_eq]
  exact List.mem_append_left _ (List.mem_flatMap.mpr ⟨d, hd, hm⟩)

/-- The nodes that leave the pool with a node are those that it depends on, and itself. -/
theorem mem_postorder (n : Node) : m ∈ n.postorder ↔ ReflTransGen Needs n m := by
  constructor
  · intro hm
    rw [postorder_eq] at hm
    rcases List.mem_append.mp hm with hm | hm
    · obtain ⟨d, hd, hm⟩ := List.mem_flatMap.mp hm
      exact .head hd ((mem_postorder d).mp hm)
    · rw [List.mem_singleton.mp hm]
  · intro hpath
    induction hpath using ReflTransGen.head_induction_on with
    | refl =>
      rw [postorder_eq]
      exact List.mem_append_right _ List.mem_cons_self
    | head hd _ ih => exact postorder_of_needs hd ih
termination_by n.size
decreasing_by exact size_lt_of_dependency hd

theorem occursIn_iff : n.OccursIn types ↔ n ∈ types.flatMap postorder := by
  simp only [OccursIn, List.mem_flatMap, mem_postorder]

end Node

instance (types : List Node) : Decidable (Consistent types) :=
  decidable_of_iff (∀ a ∈ types.flatMap Node.postorder, ∀ b ∈ types.flatMap Node.postorder,
      a.name = b.name → a.dependencies.map Node.name = b.dependencies.map Node.name) <| by
    simp only [Consistent, Node.occursIn_iff]
    exact forall_congr' fun a => ⟨fun h b ha => h ha b, fun h ha b => h b ha⟩

/-! ## Types in order -/

/-- Every dependency that has one of the names stands strictly before its dependent. -/
def DependenciesFirst (names : List String) (out : List Node) : Prop :=
  ∀ (i : Nat) (t : Node), out[i]? = some t → ∀ d ∈ t.dependencies, d.name ∈ names →
    ∃ j, j < i ∧ (out[j]?).map Node.name = some d.name

theorem DependenciesFirst.snoc (h : DependenciesFirst names out)
    (ht : ∀ d ∈ t.dependencies, d.name ∈ names → d.name ∈ out.map Node.name) :
    DependenciesFirst names (out ++ [t]) := by
  intro i u hu d hd hin
  obtain ⟨j, hj, hlt, hname⟩ : ∃ j, j < i ∧ j < out.length ∧
      (out[j]?).map Node.name = some d.name := by
    rcases Nat.lt_or_ge i out.length with hi | hi
    · rw [List.getElem?_append_left hi] at hu
      obtain ⟨j, hj, hname⟩ := h i u hu d hd hin
      exact ⟨j, hj, Nat.lt_trans hj hi, hname⟩
    · rw [List.getElem?_append_right hi] at hu
      obtain rfl := List.mem_singleton.mp (List.mem_of_getElem? hu)
      obtain ⟨j, hj, hname⟩ := Reorder.exists_position (ht d hd hin)
      have hlt := Reorder.position_lt hj
      exact ⟨j, Nat.lt_of_lt_of_le hlt hi, hlt, hname⟩
  exact ⟨j, hj, by rw [List.getElem?_append_left hlt, hname]⟩

/-- **A drain of consistent types** puts every dependency in front of its dependent. -/
theorem drain_dependenciesFirst (h : Consistent types) :
    DependenciesFirst (types.map Node.name) (drain types) := by
  refine drain_induction (P := fun s => DependenciesFirst (types.map Node.name) s.sorted)
    (fun s n hs hn hready hP => ?_) (by simp [DependenciesFirst])
  rcases Drain.take_cases hs hn with hsame | ⟨t, hname, horigin, hsorted⟩
  · rwa [hsame]
  · rw [hsorted]
    refine hP.snoc fun d hd hin => ?_
    -- the entry depends on the names that the node depends on
    have hd' : d.name ∈ n.dependencies.map Node.name :=
      h t n horigin.occursIn hn hname ▸ List.mem_map_of_mem hd
    obtain ⟨e, he, heq⟩ := List.mem_map.mp hd'
    exact heq ▸ hready e he (heq ▸ hin)

/-! ## What there is left to do -/

section
variable (hd : (out.map Node.name).Nodup) (h : DependenciesFirst (out.map Node.name) out)
include hd h

/-- A dependency stands strictly before its dependent. -/
theorem positions_of_dependsOn {a b : String} (hdep : DependsOn out a b) :
    ∃ i j, Reorder.position out a = some i ∧ Reorder.position out b = some j ∧ j < i := by
  obtain ⟨t, ht, rfl, d, hdt, rfl, hin⟩ := hdep
  obtain ⟨i, hi⟩ := List.getElem?_of_mem ht
  obtain ⟨j, hj, hname⟩ := h i t hi d hdt hin
  obtain ⟨u, hu, hud⟩ := Option.map_eq_some_iff.mp hname
  exact ⟨i, j, Reorder.position_of_getElem? hd hi, hud ▸ Reorder.position_of_getElem? hd hu, hj⟩

/-- **Types in order have no cycle.** -/
theorem acyclic_of_dependenciesFirst : (TypeGraph.ofTypes out).cycles = [] := by
  rw [TypeGraph.cycles_eq_nil_iff (TypeGraph.wellFormed_ofTypes _), TypeGraph.depends_ofTypes]
  exact Reorder.acyclic_of_measure (Reorder.position out) fun _ _ => positions_of_dependsOn hd h

/-- No dependency of types in order asks for a move. -/
theorem moveFor?_of_dependenciesFirst : ∀ e ∈ Reorder.edges out, Reorder.moveFor? out e = none := by
  intro e he
  obtain ⟨t, ht, he⟩ := List.mem_flatMap.mp he
  obtain ⟨d, hdt, rfl⟩ := List.mem_map.mp he
  refine Reorder.moveFor?_eq_none_iff.mpr fun a b ha hb => ?_
  have hin : d.name ∈ out.map Node.name := by
    obtain ⟨hlt, hname, -⟩ := List.findIdx?_eq_some_iff_getElem.mp hb
    exact List.mem_map.mpr ⟨_, List.getElem_mem hlt, by simpa using hname⟩
  obtain ⟨i, j, hi, hj, hlt⟩ := positions_of_dependsOn hd h ⟨t, ht, rfl, d, hdt, rfl, hin⟩
  obtain rfl := Option.some.inj (ha.symm.trans hi)
  obtain rfl := Option.some.inj (hb.symm.trans hj)
  exact Nat.le_of_lt hlt

/-- **Moving dependencies in front leaves types in order as they are**, after a single scan. -/
theorem reorder_of_dependenciesFirst : reorder out = ⟨.ok (out, ⟨1, 0⟩), []⟩ := by
  have hscan : Reorder.scan (Reorder.edges out) out = (out, []) := by
    simp only [Reorder.scan, List.reverse_nil, Reorder.foldl_step_of_forall _ out
      (moveFor?_of_dependenciesFirst hd h)]
  have hrun : Reorder.run out = ⟨out, 1, [], true⟩ := by
    simp only [Reorder.run, Reorder.limit, Reorder.settle, hscan, List.isEmpty_nil, if_true]
  simp [reorder, hrun]

end

/-- **Ordering consistent types is draining them.** Where nodes of one name depend on the same names
wherever they occur, the drained types have every dependency strictly before its dependent and no
cycle, and ordering answers them after one scan that moves, and notes, nothing. -/
theorem orderTypes_of_consistent (h : Consistent types) :
    DependenciesFirst ((drain types).map Node.name) (drain types) ∧
      (TypeGraph.ofTypes (drain types)).cycles = [] ∧
      orderTypes types = ⟨.ok (drain types, ⟨1, 0⟩), []⟩ := by
  have hfirst : DependenciesFirst ((drain types).map Node.name) (drain types) :=
    fun i t ht d hd hin => drain_dependenciesFirst h i t ht d hd (mem_drain_names.mp hin)
  have hcycles := acyclic_of_dependenciesFirst (drain_nodup types) hfirst
  refine ⟨hfirst, hcycles, ?_⟩
  unfold orderTypes
  simp only [firstOfEach_drain, hcycles, reorder_of_dependenciesFirst (drain_nodup types) hfirst]

namespace Sample

/-- A road between two towns that lie in one county, listed before all of them; the county is listed
twice. -/
def roads : List Node :=
  let county := object "County" [text "code"]
  let left := object "Left" [reference "county" county]
  let right := object "Right" [reference "county" county, text "name"]
  [object "Road" [reference "from" left, reference "to" right], right, reference "home" county, left,
    county]

end Sample

/-- The roads are consistent, so draining them puts them in order. -/
theorem orderTypes_of_consistent_roads : Consistent Sample.roads ∧
    (drain Sample.roads).map Node.name = ["County", "Left", "Right", "Road"] ∧
    DependenciesFirst ((drain Sample.roads).map Node.name) (drain Sample.roads) ∧
    (TypeGraph.ofTypes (drain Sample.roads)).cycles = [] ∧
    orderTypes Sample.roads = ⟨.ok (drain Sample.roads, ⟨1, 0⟩), []⟩ := by
  have h : Consistent Sample.roads := by decide
  exact ⟨h, by rfl, orderTypes_of_consistent h⟩

end Schemata
