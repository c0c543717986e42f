import Schemata.Order.Graph
import Mathlib.Data.List.Basic

/-!
# Every name is in a component

A walk marks a name when it meets it and lists it as finished when it leaves it, so everything that
a walk has met for the first time is in its finish list. The first pass starts from every name, the
second from every name of the finish list; hence every name of the graph is in some component.

Results:
* `mem_insertNew_foldl`, `mem_edges_ofTypes`: what the graph of a list of types holds.
* `mem_finishOrder`, `exists_component`: both passes reach every name.
* `no_self_dependency`: without cycles no type depends on its own name.
-/

namespace Schemata

namespace TypeGraph

/-! ## Construction -/

section Construction

variable {α : Type} [DecidableEq α]

theorem mem_insertNew {xs : List α} {x y : α} : y ∈ insertNew xs x ↔ y ∈ xs ∨ y = x := by
  unfold insertNew
  split
  · rename_i hx
    constructor
    · exact Or.inl
    · rintro (h | rfl)
      · exact h
      · exact hx
  · rw [List.mem_append, List.mem_singleton]

theorem mem_insertNew_foldl : ∀ (ys xs : List α) {y : α},
    y ∈ ys.foldl insertNew xs ↔ y ∈ xs ∨ y ∈ ys
  | [], xs, y => by simp
  | z :: ys, xs, y => by
    rw [List.foldl_cons, mem_insertNew_foldl ys, mem_insertNew, List.mem_cons, or_assoc]

end Construction

theorem mem_names_ofTypes {types : List Node} {name : String} :
    name ∈ (ofTypes types).names ↔ name ∈ types.map Node.name := by
  simp [ofTypes, mem_insertNew_foldl]

/-- The edges are the dependencies between names of the list. -/
theorem mem_edges_ofTypes {types : List Node} {a b : String} :
    (a, b) ∈ (ofTypes types).edges ↔
      ∃ t ∈ types, t.name = b ∧ ∃ d ∈ t.dependencies, d.name = a ∧ a ∈ types.map Node.name := by
  simp only [ofTypes, mem_insertNew_foldl, List.not_mem_nil, false_or, List.mem_flatMap, edgesOf,
    List.mem_map, List.mem_filter, List.contains_eq_mem, decide_eq_true_eq, Prod.mk.injEq]
  constructor
  · rintro ⟨t, ht, d, ⟨hd, hin⟩, rfl, rfl⟩
    exact ⟨t, ht, rfl, d, hd, rfl, hin⟩
  · rintro ⟨t, ht, rfl, d, hd, rfl, hin⟩
    exact ⟨t, ht, d, ⟨hd, hin⟩, rfl, rfl⟩

/-! ## What a walk meets -/

/-- Whatever has been met since `w` has been finished since. -/
def Completes (w v : Walk) : Prop :=
  (∀ n ∈ w.seen, n ∈ v.seen) ∧ (∀ n ∈ w.finished, n ∈ v.finished) ∧
    ∀ n ∈ v.seen, n ∈ w.seen ∨ n ∈ v.finished

theorem Completes.refl (w : Walk) : Completes w w :=
  ⟨fun _ h => h, fun _ h => h, fun _ h => Or.inl h⟩

theorem Completes.trans {u v w : Walk} (huv : Completes u v) (hvw : Completes v w) :
    Completes u w := by
  refine ⟨fun n h => hvw.1 n (huv.1 n h), fun n h => hvw.2.1 n (huv.2.1 n h), fun n h => ?_⟩
  rcases hvw.2.2 n h with hv | hw
  · rcases huv.2.2 n hv with hu | hf
    · exact Or.inl hu
    · exact Or.inr (hvw.2.1 n hf)
  · exact Or.inr hw

theorem Completes.foldl {f : Walk → String → Walk} (hf : ∀ w name, Completes w (f w name)) :
    ∀ (names : List String) (w : Walk), Completes w (names.foldl f w)
  | [], w => Completes.refl w
  | name :: rest, w => (hf w name).trans (Completes.foldl hf rest (f w name))

theorem walk_completes (next : String → List String) : ∀ (fuel : Nat) (w : Walk) (name : String),
    Completes w (walk next fuel w name)
  | 0, w, _ => Completes.refl w
  | fuel + 1, w, name => by
    simp only [walk]
    split
    · exact Completes.refl w
    · obtain ⟨hseen, hfin, hnew⟩ := Completes.foldl (walk_completes next fuel)
        (next name).reverse ⟨name :: w.seen, w.finished⟩
      refine ⟨fun n h => hseen n (List.mem_cons_of_mem name h),
        fun n h => List.mem_append_left _ (hfin n h), fun n h => ?_⟩
      rcases hnew n h with h | h
      · rcases List.mem_cons.mp h with rfl | h
        · exact Or.inr (List.mem_append_right _ (List.mem_singleton.mpr rfl))
        · exact Or.inl h
      · exact Or.inr (List.mem_append_left _ h)

/-- A walk meets the name it starts from. -/
theorem start_mem_walk (next : String → List String) (fuel : Nat) (w : Walk) (name : String) :
    name ∈ (walk next (fuel + 1) w name).seen := by
  simp only [walk]
  split
  · rename_i h
    exact List.contains_iff_mem.mp h
  · exact (Completes.foldl (walk_completes next fuel) (next name).reverse
      ⟨name :: w.seen, w.finished⟩).1 name List.mem_cons_self

theorem mem_foldl_walk (next : String → List String) (fuel : Nat) :
    ∀ (names : List String) (w : Walk), ∀ name ∈ names,
      name ∈ (names.foldl (walk next (fuel + 1)) w).seen
  | n :: rest, w, name, h => by
    rw [List.foldl_cons]
    rcases List.mem_cons.mp h with rfl | h
    · exact (Completes.foldl (walk_completes next (fuel + 1)) rest _).1 name
        (start_mem_walk next fuel w name)
    · exact mem_foldl_walk next fuel rest _ name h

/-! ## Both passes -/

/-- The first pass finishes every name. -/
theorem mem_finishOrder {g : TypeGraph} {name : String} (h : name ∈ g.names) :
    name ∈ g.finishOrder := by
  have hseen := mem_foldl_walk g.dependencies g.names.length g.names ⟨[], []⟩ name h
  have hcomp := Completes.foldl (walk_completes g.dependencies (g.names.length + 1)) g.names
    ⟨[], []⟩
  exact (hcomp.2.2 name hseen).resolve_left (by simp)

/-- The second pass collects every name that it starts from, unless it was met before. -/
theorem mem_collect (g : TypeGraph) : ∀ (order seen : List String), ∀ name ∈ order,
    name ∈ seen ∨ ∃ c ∈ g.collect seen order, name ∈ c
  | n :: rest, seen, name, h => by
    rw [collect]
    split
    · rename_i hn
      rcases List.mem_cons.mp h with rfl | h
      · exact Or.inl (List.contains_iff_mem.mp hn)
      · exact mem_collect g rest seen name h
    · obtain ⟨-, -, hnew⟩ := walk_completes g.dependents (g.names.length + 1) ⟨seen, []⟩ n
      have hmet : name ∈ (walk g.dependents (g.names.length + 1) ⟨seen, []⟩ n).seen →
          name ∈ seen ∨ name ∈ (walk g.dependents (g.names.length + 1) ⟨seen, []⟩ n).finished :=
        hnew name
      rcases List.mem_cons.mp h with rfl | h
      · rcases hmet (start_mem_walk _ _ _ name) with hs | hf
        · exact Or.inl hs
        · exact Or.inr ⟨_, List.mem_cons_self, hf⟩
      · rcases mem_collect g rest _ name h with hs | ⟨c, hc, hnc⟩
        · rcases hmet hs with hs | hf
          · exact Or.inl hs
          · exact Or.inr ⟨_, List.mem_cons_self, hf⟩
        · exact Or.inr ⟨c, List.mem_cons_of_mem _ hc, hnc⟩

/-- **Every name is in a component.** -/
theorem exists_component {g : TypeGraph} {name : String} (h : name ∈ g.names) :
    ∃ c ∈ g.components, name ∈ c :=
  (mem_collect g g.finishOrder.reverse [] name
    (List.mem_reverse.mpr (mem_finishOrder h))).resolve_left (by simp)

/-- A component with a name that has an edge to itself is a cycle. -/
theorem isCycle_of_self_edge {g : TypeGraph} {name : String} {c : List String}
    (he : (name, name) ∈ g.edges) (hc : name ∈ c) : g.isCycle c = true := by
  match c, hc with
  | [n], hc =>
    obtain rfl := List.mem_singleton.mp hc
    exact List.contains_iff_mem.mpr he
  | _ :: _ :: _, _ => simp [isCycle]

/-- **Without cycles no type depends on its own name.** -/
theorem no_self_dependency {types : List Node} (h : (ofTypes types).cycles = []) {t d : Node}
    (ht : t ∈ types) (hd : d ∈ t.dependencies) : d.name ≠ t.name := by
  intro heq
  have hname : t.name ∈ types.map Node.name := List.mem_map_of_mem ht
  have hedge : (t.name, t.name) ∈ (ofTypes types).edges :=
    mem_edges_ofTypes.mpr ⟨t, ht, rfl, d, hd, heq, hname⟩
  obtain ⟨c, hc, hmem⟩ := exists_component (mem_names_ofTypes.mpr hname)
  have hfilter := List.map_eq_nil_iff.mp h
  rw [List.filter_eq_nil_iff] at hfilter
  exact hfilter c hc (isCycle_of_self_edge hedge hmem)

end TypeGraph

end Schemata
