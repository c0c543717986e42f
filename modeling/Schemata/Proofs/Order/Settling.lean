import Schemata.Proofs.Order.Topological
import Mathlib.Data.Finset.Card
import Mathlib.Data.Finset.Filter
import Mathlib.Data.List.Nodup
import Mathlib.Logic.Relation

/-!
# When the scans come to rest

A move takes a dependency to just before its dependent, so it changes the order of no other pair of
types than those it is part of, and comes to stand in front of all that it passes. A dependency that
is in front of its dependent thus stays there until the dependent itself is moved
(`late_of_late_step`). Types that nothing depends on are never moved. Those on which only such types
depend are not moved any more after the first scan; and so on, scan by scan, up the ranks of the types
(`scan_rested`).

Results:
* `exists_rank`: a relation without cycles gives ranks below the number of names.
* `run_settles`: where no cycle leads through different names, the scans come to rest, and there are
  no more of them than types.
-/

namespace Schemata

namespace Reorder

open Relation

/-! ## Dependencies behind their dependents -/

/-- The dependency of an edge stands behind its dependent. -/
def Late (types : List Node) (edge : String × String) : Prop :=
  [edge.1, edge.2].Sublist (types.map Node.name)

section
variable {types : List Node} {edges : List (String × String)} {edge e : String × String}

/-- What stands before a name is in front of its only place. -/
theorem mem_front {front back : List String} {x y : String} (hd : (front ++ y :: back).Nodup)
    (h : [x, y].Sublist (front ++ y :: back)) : x ∈ front := by
  obtain ⟨l, r, heq, hx, hy⟩ := List.cons_sublist_iff.mp h
  have hy : y ∈ r := List.singleton_sublist.mp hy
  rcases List.append_eq_append_iff.mp heq with ⟨mid, rfl, hmid⟩ | ⟨mid, rfl, -⟩
  · cases mid with
    | nil => simpa using hx
    | cons z mid =>
      rw [List.cons_append, List.cons.injEq] at hmid
      obtain ⟨rfl, rfl⟩ := hmid
      simp [List.nodup_append, hy] at hd
  · exact List.mem_append_left _ hx

/-- The list around the position of a name. -/
theorem position_split {name : String} {i : Nat} (h : position types name = some i) :
    ∃ front t back, types = front ++ t :: back ∧ t.name = name ∧ front.length = i := by
  obtain ⟨hi, hname, -⟩ := List.findIdx?_eq_some_iff_getElem.mp h
  refine ⟨types.take i, types[i], types.drop (i + 1), ?_, by simpa using hname,
    List.length_take_of_le (Nat.le_of_lt hi)⟩
  rw [List.getElem_cons_drop, List.take_append_drop]

theorem insertIdx_length {α : Type} (x : α) : ∀ front back : List α,
    (front ++ back).insertIdx front.length x = front ++ x :: back
  | [], back => by simp
  | y :: front, back => by simp [insertIdx_length x front back]

theorem moveTo_append (front middle back : List Node) (t u : Node) :
    moveTo (front ++ t :: (middle ++ u :: back)) (front.length + (middle.length + 1)) front.length =
      front ++ u :: t :: (middle ++ back) := by
  have hget : (front ++ t :: (middle ++ u :: back))[front.length + (middle.length + 1)]? = some u := by
    simp
  have herase : (front ++ t :: (middle ++ u :: back)).eraseIdx (front.length + (middle.length + 1)) =
      front ++ t :: (middle ++ back) := by
    rw [List.eraseIdx_append_of_length_le (Nat.le_add_right _ _), Nat.add_sub_cancel_left,
      List.eraseIdx_cons_succ, List.eraseIdx_append_of_length_le (Nat.le_refl _), Nat.sub_self,
      List.eraseIdx_cons_zero]
  simp only [moveTo, hget, herase, insertIdx_length]

/-- **What a move does**: it takes the dependency to just before its dependent. -/
theorem exists_split {m : Move} (h : moveFor? types edge = some m) :
    ∃ front t middle u back, types = front ++ t :: (middle ++ u :: back) ∧ t.name = edge.1 ∧
      u.name = edge.2 ∧ moveTo types m.source m.target = front ++ u :: t :: (middle ++ back) := by
  unfold moveFor? at h
  split at h
  · rename_i i j hi hj
    split at h
    · exact absurd h (by simp)
    · rename_i hlt
      obtain rfl := Option.some.inj h
      obtain ⟨front, t, rest, htypes, ht, rfl⟩ := position_split hi
      obtain ⟨before, u, back, hsplit, hu, rfl⟩ := position_split hj
      rcases List.append_eq_append_iff.mp (htypes.symm.trans hsplit) with
        ⟨mid, rfl, hmid⟩ | ⟨mid, rfl, -⟩
      · cases mid with
        | nil => simp at hlt
        | cons z middle =>
          rw [List.cons_append, List.cons.injEq] at hmid
          obtain ⟨rfl, rfl⟩ := hmid
          refine ⟨front, t, middle, u, back, htypes, ht, hu, ?_⟩
          simp only [htypes, List.length_append, List.length_cons, moveTo_append]
      · simp at hlt
  · exact absurd h (by simp)

/-- No move is asked for exactly when the dependency is not behind its dependent. -/
theorem moveFor?_eq_none_iff_not_late (hd : (types.map Node.name).Nodup) :
    moveFor? types edge = none ↔ ¬ Late types edge := by
  constructor
  · intro hnone hlate
    obtain ⟨l, r, hnames, hx, hy⟩ := List.cons_sublist_iff.mp hlate
    have hy : edge.2 ∈ r := List.singleton_sublist.mp hy
    obtain ⟨front, back, rfl, rfl, rfl⟩ := List.map_eq_append_iff.mp hnames
    obtain ⟨t, ht, htname⟩ := List.mem_map.mp hx
    obtain ⟨u, hu, huname⟩ := List.mem_map.mp hy
    obtain ⟨i, hi, rfl⟩ := List.mem_iff_getElem.mp ht
    obtain ⟨j, hj, rfl⟩ := List.mem_iff_getElem.mp hu
    have hfirst : position (front ++ back) edge.1 = some i := by
      rw [← htname]
      exact position_of_getElem? hd (by simp [List.getElem?_append, hi])
    have hsecond : position (front ++ back) edge.2 = some (front.length + j) := by
      rw [← huname]
      exact position_of_getElem? hd (by simp [hj])
    have hle := moveFor?_eq_none_iff.mp hnone i (front.length + j) hfirst hsecond
    omega
  · intro hnot
    cases hm : moveFor? types edge with
    | none => rfl
    | some m =>
      obtain ⟨front, t, middle, u, back, rfl, ht, hu, -⟩ := exists_split hm
      refine absurd (show Late _ edge from ?_) hnot
      have hsub : [t, u].Sublist (front ++ t :: (middle ++ u :: back)) :=
        List.Sublist.trans (List.Sublist.cons_cons t (List.singleton_sublist.mpr (by simp)))
          (List.sublist_append_right _ _)
      have hnames := hsub.map Node.name
      rwa [List.map_cons, List.map_singleton, ht, hu] at hnames

/-! ## One step of a scan -/

theorem nodup_step (edge : String × String) {s : List Node × List Move} (hd : (s.1.map Node.name).Nodup) :
    ((step s edge).1.map Node.name).Nodup :=
  ((step_perm s edge).map Node.name).nodup_iff.mpr hd

/-- After its own step a dependency is not behind. -/
theorem not_late_step {s : List Node × List Move} (hd : (s.1.map Node.name).Nodup) :
    ¬ Late (step s edge).1 edge := by
  cases hm : moveFor? s.1 edge with
  | none =>
    have hstep : step s edge = s := by simp [step, hm]
    rw [hstep]
    exact (moveFor?_eq_none_iff_not_late hd).mp hm
  | some m =>
    have hd' := nodup_step edge hd
    obtain ⟨front, t, middle, u, back, -, ht, hu, hmove⟩ := exists_split hm
    have hstep : (step s edge).1 = front ++ u :: t :: (middle ++ back) := by simp [step, hm, hmove]
    rw [hstep] at hd' ⊢
    intro hlate
    simp only [List.map_append, List.map_cons] at hd'
    have hin : t.name ∈ front.map Node.name :=
      mem_front hd' (by simpa [Late, ht, hu] using hlate)
    exact (List.disjoint_of_nodup_append hd') hin (by simp)

/-- **What a step leaves in order**: a dependency comes to stand behind its dependent only if the step
moves the dependent. -/
theorem late_of_late_step {s : List Node × List Move} (hd : (s.1.map Node.name).Nodup)
    (h : Late (step s edge).1 e) : Late s.1 e ∨ Late s.1 edge ∧ e.1 = edge.2 := by
  cases hm : moveFor? s.1 edge with
  | none =>
    have hstep : step s edge = s := by simp [step, hm]
    exact Or.inl (hstep ▸ h)
  | some m =>
    have hlate : Late s.1 edge := by
      by_contra hnot
      rw [(moveFor?_eq_none_iff_not_late hd).mpr hnot] at hm
      exact absurd hm (by simp)
    by_cases hmoved : e.1 = edge.2
    · exact Or.inr ⟨hlate, hmoved⟩
    · refine Or.inl ?_
      have hd' := nodup_step edge hd
      obtain ⟨front, t, middle, u, back, hs, -, hu, hmove⟩ := exists_split hm
      have hstep : (step s edge).1 = front ++ u :: t :: (middle ++ back) := by
        simp [step, hm, hmove]
      rw [hstep] at hd' h
      rw [← hu] at hmoved
      rw [hs]
      simp only [Late, List.map_append, List.map_cons] at h hd' ⊢
      by_cases hdep : e.2 = u.name
      · -- the dependent was in front of both
        rw [hdep] at h ⊢
        have hin := mem_front hd' h
        exact (List.singleton_sublist.mpr hin).append (List.singleton_sublist.mpr (by simp))
      · have hkeep : [e.1, e.2].filter (· ≠ u.name) = [e.1, e.2] := by
          simp [hdep, hmoved]
        have hsub := h.filter (· ≠ u.name)
        rw [hkeep, List.filter_append, List.filter_cons_of_neg (by simp), ← List.filter_append] at hsub
        exact (hsub.trans List.filter_sublist).trans (by simp)

/-! ## Scan by scan -/

/-- Dependencies rank above their dependents, where both are names of the list and different. -/
def Ranks (rank : String → Nat) (edges : List (String × String)) (names : List String) : Prop :=
  ∀ edge ∈ edges, edge.1 ∈ names → edge.2 ∈ names → edge.1 ≠ edge.2 → rank edge.1 < rank edge.2

/-- Every dependency of rank at most `k` is in order. -/
def Rested (rank : String → Nat) (edges : List (String × String)) (k : Nat)
    (types : List Node) : Prop :=
  ∀ edge ∈ edges, rank edge.2 ≤ k → ¬ Late types edge

variable {rank : String → Nat} {k : Nat}

/-- A dependency behind its dependent has two different names of the list. -/
theorem Late.mem_names (hd : (types.map Node.name).Nodup) (h : Late types edge) :
    edge.1 ∈ types.map Node.name ∧ edge.2 ∈ types.map Node.name ∧ edge.1 ≠ edge.2 := by
  have hne : edge.1 ≠ edge.2 := by simpa using hd.sublist h
  exact ⟨h.subset (by simp), h.subset (by simp), hne⟩

theorem Late.rank_lt (hranks : Ranks rank edges (types.map Node.name))
    (hd : (types.map Node.name).Nodup) (hin : edge ∈ edges) (h : Late types edge) :
    rank edge.1 < rank edge.2 :=
  have ⟨hfirst, hsecond, hne⟩ := h.mem_names hd
  hranks edge hin hfirst hsecond hne

/-- The ranks of a list are those of every list of the same names. -/
theorem Ranks.perm {more : List Node} (hranks : Ranks rank edges (types.map Node.name))
    (hperm : more.Perm types) : Ranks rank edges (more.map Node.name) :=
  have hnames := hperm.map Node.name
  fun edge hin hfirst hsecond =>
    hranks edge hin (hnames.mem_iff.mp hfirst) (hnames.mem_iff.mp hsecond)

/-- While everything of rank at most `k` is in order, a step brings nothing of the next rank out of
order. -/
theorem Rested.step_next {s : List Node × List Move} (h : Rested rank edges k s.1)
    (hranks : Ranks rank edges (s.1.map Node.name)) (hd : (s.1.map Node.name).Nodup)
    (hedge : edge ∈ edges) (he : e ∈ edges) (hrank : rank e.2 ≤ k + 1) (hnot : ¬ Late s.1 e) :
    ¬ Late (step s edge).1 e := by
  intro hlate
  rcases late_of_late_step hd hlate with hbefore | ⟨hbehind, hmoved⟩
  · exact hnot hbefore
  · -- the moved dependent ranks below `e.2`, so its own step had nothing to do
    have hlt := hlate.rank_lt (hranks.perm (step_perm s edge)) (nodup_step edge hd) he
    refine h edge hedge ?_ hbehind
    rw [← hmoved]
    omega

/-- The rest of a scan: what has had its step, or is in order already, is in order at the end. -/
theorem Rested.foldl : ∀ (rest : List (String × String)) (s : List Node × List Move),
    Rested rank edges k s.1 → Ranks rank edges (s.1.map Node.name) → (s.1.map Node.name).Nodup →
      (∀ e ∈ rest, e ∈ edges) → (∀ e ∈ edges, rank e.2 ≤ k + 1 → e ∈ rest ∨ ¬ Late s.1 e) →
        Rested rank edges (k + 1) (rest.foldl step s).1
  | [], _, _, _, _, _, hopen => fun e he hrank => (hopen e he hrank).resolve_left List.not_mem_nil
  | edge :: rest, s, h, hranks, hd, hsub, hopen => by
    have hedge : edge ∈ edges := hsub edge List.mem_cons_self
    refine Rested.foldl rest (step s edge) (fun e he hrank => ?_) (hranks.perm (step_perm s edge))
      (nodup_step edge hd) (fun e he => hsub e (List.mem_cons_of_mem _ he)) (fun e he hrank => ?_)
    · exact h.step_next hranks hd hedge he (Nat.le_succ_of_le hrank) (h e he hrank)
    · rcases hopen e he hrank with hin | hnot
      · rcases List.mem_cons.mp hin with rfl | hin
        · exact Or.inr (not_late_step hd)
        · exact Or.inl hin
      · exact Or.inr (h.step_next hranks hd hedge he hrank hnot)

/-- **A scan brings the next rank in order.** -/
theorem scan_rested (h : Rested rank edges k types)
    (hranks : Ranks rank edges (types.map Node.name)) (hd : (types.map Node.name).Nodup) :
    Rested rank edges (k + 1) (scan edges types).1 :=
  Rested.foldl edges (types, []) h hranks hd (fun _ h => h) fun _ he _ => Or.inl he

theorem foldl_step_of_forall : ∀ (rest : List (String × String)) (types : List Node),
    (∀ e ∈ rest, moveFor? types e = none) → rest.foldl step (types, []) = (types, [])
  | [], _, _ => rfl
  | edge :: rest, types, h => by
    have hstep : step (types, []) edge = (types, []) := by simp [step, h edge List.mem_cons_self]
    rw [List.foldl_cons, hstep]
    exact foldl_step_of_forall rest types fun e he => h e (List.mem_cons_of_mem _ he)

/-- A scan over dependencies that are all in order moves nothing. -/
theorem scan_of_not_late (hd : (types.map Node.name).Nodup) (h : ∀ e ∈ edges, ¬ Late types e) :
    (scan edges types).2 = [] := by
  simp only [scan, foldl_step_of_forall edges types fun e he =>
    (moveFor?_eq_none_iff_not_late hd).mpr (h e he), List.reverse_nil]

/-- **The scans come to rest** once they have gone through all ranks. -/
theorem settle_settles (bound : Nat) : ∀ (fuel k : Nat) (types : List Node),
    Rested rank edges k types → Ranks rank edges (types.map Node.name) →
      (types.map Node.name).Nodup → (∀ n ∈ types.map Node.name, rank n ≤ bound) → k ≤ bound →
        bound < k + fuel → (settle edges fuel types).settled = true ∧
          (settle edges fuel types).scans + k ≤ bound + 1
  | 0, _, _, _, _, _, _, hk, hfuel => absurd hfuel (Nat.not_lt.mpr hk)
  | fuel + 1, k, types, h, hranks, hd, hbound, hk, hfuel => by
    simp only [settle]
    split
    · exact ⟨rfl, by simpa [Nat.add_comm] using hk⟩
    · rename_i hmoves
      have hless : k < bound := by
        by_contra hge
        have hall : ∀ e ∈ edges, ¬ Late types e := fun e he hlate =>
          h e he (Nat.le_trans (hbound e.2 (hlate.mem_names hd).2.1) (Nat.le_of_not_lt hge)) hlate
        exact hmoves (by rw [scan_of_not_late hd hall, List.isEmpty_nil])
      have hperm := scan_perm edges types
      have hnames := hperm.map Node.name
      obtain ⟨hsettled, hscans⟩ := settle_settles bound fuel (k + 1) (scan edges types).1
        (scan_rested h hranks hd) (hranks.perm hperm) (hnames.nodup_iff.mpr hd)
        (fun n hn => hbound n (hnames.mem_iff.mp hn)) hless (by omega)
      exact ⟨hsettled, by simp only; omega⟩

end

/-! ## Ranks -/

/-- **A relation without cycles has ranks**: the number of names that lead to a name. -/
theorem exists_rank {R : String → String → Prop} (names : List String)
    (hacyclic : ∀ n, ¬ TransGen R n n) : ∃ rank : String → Nat,
      (∀ a ∈ names, ∀ b, R a b → rank a < rank b) ∧ ∀ n ∈ names, rank n < names.length := by
  classical
  refine ⟨fun b => (names.toFinset.filter fun a => TransGen R a b).card, fun a ha b hstep => ?_,
    fun n hn => ?_⟩
  · refine Finset.card_lt_card (Finset.ssubset_iff_of_subset ?_ |>.mpr ⟨a, ?_, ?_⟩)
    · exact Finset.monotone_filter_right _ fun c _ hc => hc.tail hstep
    · exact Finset.mem_filter.mpr ⟨List.mem_toFinset.mpr ha, .single hstep⟩
    · exact fun hin => hacyclic a (Finset.mem_filter.mp hin).2
  · refine Nat.lt_of_lt_of_le (Finset.card_lt_card ?_) (List.toFinset_card_le names)
    exact Finset.filter_ssubset.mpr ⟨n, List.mem_toFinset.mpr hn, hacyclic n⟩

/-- A relation that only leads to smaller measures has no cycles. -/
theorem acyclic_of_measure {R : String → String → Prop} (measure : String → Option Nat)
    (h : ∀ a b, R a b → ∃ m k, measure a = some m ∧ measure b = some k ∧ k < m) (n : String) :
    ¬ TransGen R n n := by
  intro hcycle
  have hdown : ∀ a b, R a b → (measure b).getD 0 < (measure a).getD 0 := by
    intro a b hstep
    obtain ⟨m, k, ha, hb, hlt⟩ := h a b hstep
    rwa [ha, hb]
  have hpath : TransGen (fun m k => k < m) ((measure n).getD 0) ((measure n).getD 0) :=
    hcycle.lift (fun a => (measure a).getD 0) hdown
  rw [transGen_eq_self] at hpath
  exact Nat.lt_irrefl _ hpath

end Reorder

/-- One type of a list depends on another of it by name. -/
def DependsOn (types : List Node) (a b : String) : Prop :=
  ∃ t ∈ types, t.name = a ∧ ∃ d ∈ t.dependencies, d.name = b ∧ b ∈ types.map Node.name

/-- **Without cycles among different names the scans come to rest**, after at most one scan for each
type. -/
theorem Reorder.run_settles {types : List Node} (hd : (types.map Node.name).Nodup)
    (hacyclic : ∀ n, ¬ Relation.TransGen (fun a b => DependsOn types a b ∧ a ≠ b) n n) :
    (Reorder.run types).settled = true ∧ (Reorder.run types).scans ≤ max 1 types.length := by
  obtain ⟨rank, hstep, hbound⟩ := exists_rank (types.map Node.name) hacyclic
  rw [List.length_map] at hbound
  have hranks : Ranks rank (edges types) (types.map Node.name) := by
    rintro ⟨a, b⟩ hin ha hb hne
    obtain ⟨t, ht, hin⟩ := List.mem_flatMap.mp hin
    obtain ⟨d, hdep, heq⟩ := List.mem_map.mp hin
    obtain ⟨rfl, rfl⟩ := Prod.mk.inj heq
    exact hstep _ ha _ ⟨⟨t, ht, rfl, d, hdep, rfl, hb⟩, hne⟩
  have hrested : Rested rank (edges types) 0 types := fun e he hzero hlate =>
    absurd (hlate.rank_lt hranks hd he) (by omega)
  obtain ⟨hsettled, hscans⟩ := settle_settles (types.length - 1) (limit types) 0 types
    hrested hranks hd (fun n hn => by have := hbound n hn; omega) (Nat.zero_le _)
    (by have := Nat.le_mul_self types.length; unfold limit; omega)
  exact ⟨hsettled, by unfold run; omega⟩

end Schemata
