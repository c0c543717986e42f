import Schemata.Order.Reorder
import Mathlib.Data.List.Perm.Basic

/-!
# What the scans of the reordering come to

A scan walks through a fixed list of dependencies and moves types about; it never adds or drops
one. The pass ends with a scan that moves nothing, and such a scan has looked at every dependency
on one and the same list.

Results:
* `settle_perm`: however many scans there are, the types are those given, in some order.
* `settle_still`: once the scans have come to rest, no dependency asks for a move any more.
* `moveFor?_eq_none_iff`: no move is asked for when the dependency stands at or before its dependent.
-/

namespace Schemata

namespace Reorder

/-! ## One move -/

theorem position_lt {types : List Node} {name : String} {i : Nat}
    (h : position types name = some i) : i < types.length :=
  (List.findIdx?_eq_some_iff_getElem.mp h).1

theorem moveFor?_eq_some {types : List Node} {edge : String × String} {m : Move}
    (h : moveFor? types edge = some m) : m.target < m.source ∧ m.source < types.length := by
  unfold moveFor? at h
  split at h
  · rename_i a b _ hb
    split at h
    · exact absurd h (by simp)
    · rename_i hlt
      obtain rfl := Option.some.inj h
      exact ⟨Nat.lt_of_not_le hlt, position_lt hb⟩
  · exact absurd h (by simp)

/-- No move is asked for exactly when the dependency, if both are there, is not behind. -/
theorem moveFor?_eq_none_iff {types : List Node} {edge : String × String} :
    moveFor? types edge = none ↔
      ∀ a b, position types edge.1 = some a → position types edge.2 = some b → b ≤ a := by
  unfold moveFor?
  constructor
  · intro h a b ha hb
    rw [ha, hb] at h
    simp only at h
    split at h
    · assumption
    · exact absurd h (by simp)
  · intro h
    split
    · rename_i a b ha hb
      rw [if_pos (h a b ha hb)]
    · rfl

theorem moveTo_perm {types : List Node} {source target : Nat} (hs : source < types.length)
    (ht : target < types.length) : (moveTo types source target).Perm types := by
  unfold moveTo
  rw [List.getElem?_eq_getElem hs]
  have hle : target ≤ (types.eraseIdx source).length := by
    rw [List.length_eraseIdx_of_lt hs]
    omega
  exact (List.perm_insertIdx _ _ hle).trans (List.getElem_cons_eraseIdx_perm hs)

/-! ## One scan -/

theorem step_perm (s : List Node × List Move) (edge : String × String) :
    (step s edge).1.Perm s.1 := by
  unfold step
  split
  · rename_i m hm
    obtain ⟨hlt, hsource⟩ := moveFor?_eq_some hm
    exact moveTo_perm hsource (Nat.lt_trans hlt hsource)
  · exact List.Perm.refl _

theorem foldl_step_perm : ∀ (edges : List (String × String)) (s : List Node × List Move),
    (edges.foldl step s).1.Perm s.1
  | [], _ => List.Perm.refl _
  | edge :: rest, s => (foldl_step_perm rest (step s edge)).trans (step_perm s edge)

theorem scan_perm (edges : List (String × String)) (types : List Node) :
    (scan edges types).1.Perm types :=
  foldl_step_perm edges (types, [])

/-- Moves are only ever added. -/
theorem foldl_step_moves_ne_nil : ∀ (edges : List (String × String)) (s : List Node × List Move),
    s.2 ≠ [] → (edges.foldl step s).2 ≠ []
  | [], _, h => h
  | edge :: rest, s, h => by
    refine foldl_step_moves_ne_nil rest (step s edge) ?_
    unfold step
    split
    · exact List.cons_ne_nil _ _
    · exact h

/-- Without a move the types stay, and every dependency has been found in order. -/
theorem foldl_step_still : ∀ (edges : List (String × String)) (types : List Node),
    (edges.foldl step (types, [])).2 = [] →
    (edges.foldl step (types, [])).1 = types ∧ ∀ edge ∈ edges, moveFor? types edge = none
  | [], _, _ => ⟨rfl, by simp⟩
  | edge :: rest, types, h => by
    rw [List.foldl_cons] at h ⊢
    cases hm : moveFor? types edge with
    | some m =>
      have hstep : (step (types, []) edge).2 ≠ [] := by simp [step, hm]
      exact absurd h (foldl_step_moves_ne_nil rest _ hstep)
    | none =>
      have hstep : step (types, []) edge = (types, []) := by simp [step, hm]
      rw [hstep] at h ⊢
      obtain ⟨htypes, hrest⟩ := foldl_step_still rest types h
      refine ⟨htypes, fun e he => ?_⟩
      rcases List.mem_cons.mp he with rfl | he
      · exact hm
      · exact hrest e he

theorem scan_still {edges : List (String × String)} {types : List Node}
    (h : (scan edges types).2 = []) :
    (scan edges types).1 = types ∧ ∀ edge ∈ edges, moveFor? types edge = none :=
  foldl_step_still edges types (List.reverse_eq_nil_iff.mp h)

/-! ## Repeated scans -/

theorem settle_perm (edges : List (String × String)) : ∀ (fuel : Nat) (types : List Node),
    (settle edges fuel types).types.Perm types
  | 0, _ => List.Perm.refl _
  | fuel + 1, types => by
    simp only [settle]
    split
    · exact scan_perm edges types
    · exact (settle_perm edges fuel _).trans (scan_perm edges types)

/-- **At rest, every dependency is in order.** -/
theorem settle_still (edges : List (String × String)) : ∀ (fuel : Nat) (types : List Node),
    (settle edges fuel types).settled = true →
    ∀ edge ∈ edges, moveFor? (settle edges fuel types).types edge = none
  | 0, _, h => absurd h Bool.false_ne_true
  | fuel + 1, types, h => by
    simp only [settle] at h ⊢
    split
    · rename_i hempty
      obtain ⟨htypes, hnone⟩ := scan_still (List.isEmpty_iff.mp hempty)
      rw [htypes]
      exact hnone
    · rename_i hempty
      rw [if_neg hempty] at h
      exact settle_still edges fuel _ h

end Reorder

/-- What a successful pass returns: the scans came to rest on these types. -/
theorem reorder_eq_ok {types out : List Node} {stats : ReorderStats}
    (h : (reorder types).result = .ok (out, stats)) :
    (Reorder.run types).settled = true ∧ (Reorder.run types).types = out := by
  unfold reorder at h
  simp only at h
  split at h
  · rename_i hs
    exact ⟨hs, congrArg Prod.fst (Except.ok.inj h)⟩
  · exact absurd h (by simp)

/-- **The pass returns the given types with no dependency behind its dependent.** -/
theorem reorder_spec {types out : List Node} {stats : ReorderStats}
    (h : (reorder types).result = .ok (out, stats)) :
    out.Perm types ∧ ∀ t ∈ types, ∀ d ∈ t.dependencies, ∀ a b,
      Reorder.position out t.name = some a → Reorder.position out d.name = some b → b ≤ a := by
  obtain ⟨hsettled, rfl⟩ := reorder_eq_ok h
  refine ⟨Reorder.settle_perm _ _ _, fun t ht d hd => ?_⟩
  have hedge : (t.name, d.name) ∈ Reorder.edges types :=
    List.mem_flatMap.mpr ⟨t, ht, List.mem_map.mpr ⟨d, hd, rfl⟩⟩
  exact Reorder.moveFor?_eq_none_iff.mp (Reorder.settle_still _ _ _ hsettled _ hedge)

end Schemata
