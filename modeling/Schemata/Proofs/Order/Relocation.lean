import Schemata.Proofs.Order.Cycles
import Schemata.Proofs.Text.Digits
import Mathlib.Data.List.Basic

/-!
# What the moves of the reordering add up to

The moves of a pass are noted one by one, each with the positions that it leads from and to. The
notes tell the whole pass: whoever makes the moves that they tell of, in order and on the types
given, ends with the types that the pass returns. The pass comes to rest exactly when no cycle leads
through different names. With such a cycle some dependency is behind its dependent in every order of
the types, so each scan moves something and the pass goes on to its limit.

Results:
* `Move.note_inj`: a note tells its move.
* `Reorder.settle_replay`: the moves lead from the types at the start to those at the end.
* `Reorder.settle_scans`: without rest every scan that is allowed is made.
* `Reorder.settled_iff`: rest means that no two different names depend on each other.
* `reorder_succeeds_iff`: when the pass succeeds, what it returns then, and how it ends otherwise.
-/

namespace Schemata

open Relation

/-! ## Notes of moves -/

namespace Move

/-- The diagnostic that tells of a move. -/
def note (m : Move) : Diagnostic := .relocated m.name m.source m.target

/-- A list of types after some moves, one after the other. -/
def replay (moves : List Move) (types : List Node) : List Node :=
  moves.foldl (fun types m => Reorder.moveTo types m.source m.target) types

theorem replay_append (first second : List Move) (types : List Node) :
    replay (first ++ second) types = replay second (replay first types) := by
  unfold replay
  exact List.foldl_append

/-- **A note tells its move**: the name is its subject, and both positions stand in its message, the
first one up to a blank and the second one at the end. -/
theorem note_inj {m m' : Move} (h : m.note = m'.note) : m = m' := by
  obtain ⟨name, source, target⟩ := m
  obtain ⟨name', source', target'⟩ := m'
  unfold note Diagnostic.relocated at h
  simp only [Diagnostic.mk.injEq, and_true, true_and] at h
  obtain ⟨rfl, hmessage⟩ := h
  simp only [toString] at hmessage
  have htext := congrArg String.toList hmessage
  simp only [String.toList_append, Nat.toList_repr, List.append_assoc, List.append_cancel_left_eq]
    at htext
  obtain ⟨rfl, hrest⟩ := Text.toDigits_append_inj htext
  have htarget : ['t', 'o', ' '] ++ Nat.toDigits 10 target =
      ['t', 'o', ' '] ++ Nat.toDigits 10 target' := hrest
  rw [Text.toDigits_inj (List.append_cancel_left htarget)]

end Move

namespace Reorder

variable {types : List Node} {edges : List (String × String)} {fuel : Nat}

/-! ## What the moves lead to -/

/-- A step makes the move that it adds. -/
theorem step_replay (s : List Node × List Move) (edge : String × String) :
    ∃ new, (step s edge).2 = new.reverse ++ s.2 ∧ (step s edge).1 = Move.replay new s.1 := by
  unfold step
  split
  · rename_i m hm
    exact ⟨[m], rfl, rfl⟩
  · exact ⟨[], rfl, rfl⟩

theorem foldl_step_replay (edges : List (String × String)) (s : List Node × List Move) :
    ∃ new, (edges.foldl step s).2 = new.reverse ++ s.2 ∧
      (edges.foldl step s).1 = Move.replay new s.1 := by
  induction edges generalizing s with
  | nil => exact ⟨[], rfl, rfl⟩
  | cons edge rest ih =>
    obtain ⟨first, hfirst, hstep⟩ := step_replay s edge
    obtain ⟨second, hsecond, hrest⟩ := ih (step s edge)
    refine ⟨first ++ second, ?_, ?_⟩
    · rw [List.foldl_cons, hsecond, hfirst, List.reverse_append, List.append_assoc]
    · rw [List.foldl_cons, hrest, hstep, Move.replay_append]

/-- A scan makes the moves that it notes. -/
theorem scan_replay (edges : List (String × String)) (types : List Node) :
    (scan edges types).1 = Move.replay (scan edges types).2 types := by
  obtain ⟨new, hmoves, htypes⟩ := foldl_step_replay edges (types, [])
  unfold scan
  simp only
  rw [htypes, hmoves, List.append_nil, List.reverse_reverse]

/-- **The moves lead from the types at the start to those at the end.** -/
theorem settle_replay (edges : List (String × String)) (fuel : Nat) (types : List Node) :
    (settle edges fuel types).types = Move.replay (settle edges fuel types).moves types := by
  induction fuel generalizing types with
  | zero => rfl
  | succ fuel ih =>
    have hscan := scan_replay edges types
    simp only [settle]
    split
    · rename_i hempty
      rw [hscan, List.isEmpty_iff.mp hempty]
    · rw [Move.replay_append, ← hscan]
      exact ih _

/-! ## Rest -/

/-- **Without rest every scan that is allowed is made.** -/
theorem settle_scans (h : (settle edges fuel types).settled = false) :
    (settle edges fuel types).scans = fuel := by
  induction fuel generalizing types with
  | zero => rfl
  | succ fuel ih =>
    simp only [settle] at h ⊢
    split
    · rename_i hempty
      rw [if_pos hempty] at h
      exact absurd h (by simp)
    · rename_i hmoves
      rw [if_neg hmoves] at h
      simp only
      rw [ih h]

/-- At rest a dependency stands at or before its dependent. -/
theorem position_le_of_settled (h : (run types).settled = true) {a b : String} {i j : Nat}
    (hdep : DependsOn types a b) (ha : position (run types).types a = some i)
    (hb : position (run types).types b = some j) : j ≤ i := by
  obtain ⟨t, ht, rfl, d, hd, rfl, -⟩ := hdep
  have hedge : (t.name, d.name) ∈ Reorder.edges types :=
    List.mem_flatMap.mpr ⟨t, ht, List.mem_map.mpr ⟨d, hd, rfl⟩⟩
  exact moveFor?_eq_none_iff.mp (settle_still _ _ _ h _ hedge) i j ha hb

/-- So does everything that it depends on indirectly. -/
theorem position_le_of_path (h : (run types).settled = true) {a b : String} {i j : Nat}
    (hpath : TransGen (DependsOn types) a b) (ha : position (run types).types a = some i)
    (hb : position (run types).types b = some j) : j ≤ i := by
  induction hpath generalizing j with
  | single hdep => exact position_le_of_settled h hdep ha hb
  | @tail b c hpath hdep ih =>
    have hin : b ∈ (run types).types.map Node.name := by
      obtain ⟨t, ht, hname, -⟩ := hdep
      exact ((settle_perm _ _ _).map Node.name).mem_iff.mpr (List.mem_map.mpr ⟨t, ht, hname⟩)
    obtain ⟨k, hk, -⟩ := exists_position hin
    have hki : k ≤ i := ih hk
    have hjk : j ≤ k := position_le_of_settled h hdep hk hb
    omega

/-- The name of a dependent is a name of the list. -/
theorem mem_names_of_path {a b : String} (h : TransGen (DependsOn types) a b) :
    a ∈ types.map Node.name := by
  obtain ⟨c, ⟨t, ht, hname, -⟩, -⟩ := TransGen.head'_iff.mp h
  exact List.mem_map.mpr ⟨t, ht, hname⟩

/-- Two different names that depend on each other are all that a cycle through different names
amounts to. -/
theorem acyclic_of_not_mutual
    (h : ¬ ∃ a b, a ≠ b ∧ TransGen (DependsOn types) a b ∧ TransGen (DependsOn types) b a)
    (n : String) : ¬ TransGen (fun a b => DependsOn types a b ∧ a ≠ b) n n := by
  intro hn
  -- the first step of the cycle leads to another name, and the rest of it back
  obtain ⟨m, ⟨hstep, hne⟩, hback⟩ := TransGen.head'_iff.mp hn
  refine h ⟨n, m, hne, .single hstep, ?_⟩
  rcases reflTransGen_iff_eq_or_transGen.mp hback with heq | hpath
  · exact absurd heq hne
  · exact TransGen.mono (fun _ _ hstep => hstep.1) _ _ hpath

theorem not_mutual_of_settled (h : (run types).settled = true) :
    ¬ ∃ a b, a ≠ b ∧ TransGen (DependsOn types) a b ∧ TransGen (DependsOn types) b a := by
  rintro ⟨a, b, hne, hab, hba⟩
  have hnames := (settle_perm (Reorder.edges types) (limit types) types).map Node.name
  obtain ⟨i, hi, hati⟩ := exists_position (hnames.mem_iff.mpr (mem_names_of_path hab))
  obtain ⟨j, hj, hatj⟩ := exists_position (hnames.mem_iff.mpr (mem_names_of_path hba))
  have hji : j ≤ i := position_le_of_path h hab hi hj
  have hij : i ≤ j := position_le_of_path h hba hj hi
  obtain rfl : i = j := by omega
  exact hne (Option.some.inj (hati.symm.trans hatj))

/-- **Rest means that no two different names depend on each other**, directly or not. -/
theorem settled_iff (hd : (types.map Node.name).Nodup) : (run types).settled = true ↔
    ¬ ∃ a b, a ≠ b ∧ TransGen (DependsOn types) a b ∧ TransGen (DependsOn types) b a :=
  ⟨not_mutual_of_settled, fun h => (run_settles hd (acyclic_of_not_mutual h)).1⟩

end Reorder

/-! ## The pass -/

/-- What a pass that succeeds returns and notes. -/
structure Relocated (types out : List Node) (stats : ReorderStats) (notes : Diagnostics) :
    Prop where
  /-- There are no more scans than types, or the one that finds nothing to move. -/
  scans_le : stats.scans ≤ max 1 types.length
  /-- The types are those given. -/
  perm : out.Perm types
  /-- A dependency that is there, and not the type itself, stands strictly before its dependent. -/
  before : ∀ (i : Nat) (t : Node), out[i]? = some t → ∀ d ∈ t.dependencies, d.name ≠ t.name →
    d.name ∈ out.map Node.name → ∃ j, j < i ∧ (out[j]?).map Node.name = some d.name
  /-- Each move is counted and noted once. -/
  moves_eq : stats.moves = (notes.withCode .typeRelocated).length
  /-- Nothing but moves is noted. -/
  noted : ∃ moves : List Move, notes = moves.map Move.note
  /-- Making the moves that the notes tell of comes to the types returned. -/
  replayed : ∀ moves : List Move, notes = moves.map Move.note → Move.replay moves types = out

section
variable {types out : List Node} {stats : ReorderStats}

theorem reorder_diagnostics (types : List Node) :
    (reorder types).diagnostics = (Reorder.run types).moves.map Move.note := rfl

theorem reorder_of_settled (h : (Reorder.run types).settled = true) : (reorder types).result =
    .ok ((Reorder.run types).types, ⟨(Reorder.run types).scans, (Reorder.run types).moves.length⟩) := by
  unfold reorder
  simp only
  rw [if_pos h]

theorem reorder_of_not_settled (h : (Reorder.run types).settled = false) : (reorder types).result =
    .error (.cyclicDependency (Reorder.namesOf (Reorder.edges types))) := by
  unfold reorder
  simp only
  rw [if_neg (by simp [h])]

theorem reorder_ok_iff : (∃ out stats, (reorder types).result = .ok (out, stats)) ↔
    (Reorder.run types).settled = true := by
  constructor
  · rintro ⟨out, stats, h⟩
    exact (reorder_eq_ok h).1
  · exact fun h => ⟨_, _, reorder_of_settled h⟩

/-- Different dependencies that are there stand strictly before their dependents. -/
theorem before_of_reorder (hd : (types.map Node.name).Nodup)
    (h : (reorder types).result = .ok (out, stats)) {i : Nat} {t d : Node} (ht : out[i]? = some t)
    (hdep : d ∈ t.dependencies) (hne : d.name ≠ t.name) (hin : d.name ∈ out.map Node.name) :
    ∃ j, j < i ∧ (out[j]?).map Node.name = some d.name := by
  obtain ⟨hperm, hsettled⟩ := reorder_spec h
  have hnodup : (out.map Node.name).Nodup := (hperm.map Node.name).nodup_iff.mpr hd
  have hpos : Reorder.position out t.name = some i := Reorder.position_of_getElem? hnodup ht
  obtain ⟨j, hj, hname⟩ := Reorder.exists_position hin
  have hle : j ≤ i :=
    hsettled t (hperm.mem_iff.mp (List.mem_of_getElem? ht)) d hdep i j hpos hj
  have hji : j ≠ i := by
    rintro rfl
    rw [ht, Option.map_some, Option.some.injEq] at hname
    exact hne hname.symm
  exact ⟨j, by omega, hname⟩

theorem relocated_of_reorder (hd : (types.map Node.name).Nodup)
    (h : (reorder types).result = .ok (out, stats)) :
    Relocated types out stats (reorder types).diagnostics := by
  have hsettled := (reorder_eq_ok h).1
  rw [reorder_of_settled hsettled] at h
  obtain ⟨rfl, rfl⟩ := Prod.mk.inj (Except.ok.inj h)
  have hnotes := reorder_diagnostics types
  have hcode : (reorder types).diagnostics.withCode .typeRelocated = (reorder types).diagnostics := by
    unfold Diagnostics.withCode
    refine List.filter_eq_self.mpr fun d hdiag => ?_
    rw [hnotes] at hdiag
    obtain ⟨m, -, rfl⟩ := List.mem_map.mp hdiag
    exact decide_eq_true rfl
  refine ⟨?_, Reorder.settle_perm _ _ _, ?_, ?_, ⟨_, hnotes⟩, ?_⟩
  · exact (Reorder.run_settles hd
      (Reorder.acyclic_of_not_mutual (Reorder.not_mutual_of_settled hsettled))).2
  · intro i t ht d hdep hne hin
    exact before_of_reorder hd (reorder_of_settled hsettled) ht hdep hne hin
  · rw [hcode, hnotes, List.length_map]
  · intro moves hmoves
    have hsame : moves = (Reorder.run types).moves :=
      List.map_injective_iff.mpr (fun _ _ => Move.note_inj) (hmoves.symm.trans hnotes)
    rw [hsame]
    exact (Reorder.settle_replay _ _ _).symm

/-- **When the pass succeeds.** Given types with different names it does so exactly when no two different
names depend on each other. Then it is done after no more scans than there are types, or the one of an
empty list, returns the types with every dependency in front, and notes exactly the moves that lead
there. Otherwise it fails after as many scans as the square of the number of types, and two more. -/
theorem reorder_succeeds_iff (hd : (types.map Node.name).Nodup) :
    ((∃ out stats, (reorder types).result = .ok (out, stats)) ↔
      ¬ ∃ a b, a ≠ b ∧ TransGen (DependsOn types) a b ∧ TransGen (DependsOn types) b a) ∧
    (∀ out stats, (reorder types).result = .ok (out, stats) →
      stats.scans = (Reorder.run types).scans ∧
        Relocated types out stats (reorder types).diagnostics) ∧
    ∀ e, (reorder types).result = .error e →
      (∃ members, e = .cyclicDependency members) ∧ (Reorder.run types).settled = false ∧
        (Reorder.run types).scans = types.length * types.length + 2 := by
  refine ⟨reorder_ok_iff.trans (Reorder.settled_iff hd), fun out stats h => ?_, fun e h => ?_⟩
  · refine ⟨?_, relocated_of_reorder hd h⟩
    rw [reorder_of_settled (reorder_eq_ok h).1] at h
    obtain ⟨-, rfl⟩ := Prod.mk.inj (Except.ok.inj h)
    rfl
  · cases hsettled : (Reorder.run types).settled with
    | true =>
      rw [reorder_of_settled hsettled] at h
      exact absurd h (by simp)
    | false =>
      rw [reorder_of_not_settled hsettled] at h
      exact ⟨⟨_, (Except.error.inj h).symm⟩, rfl, Reorder.settle_scans hsettled⟩

end

namespace Sample

/-- Four types that depend on each other in a row, listed so that every scan but the last one moves a
type. `Ground` also depends on itself. -/
def tower : List Node :=
  [object "Roof" [reference "upper" (object "Upper" [])],
    object "Ground" [reference "deeper" (object "Ground" [])],
    object "Lower" [reference "ground" (object "Ground" [])],
    object "Upper" [reference "lower" (object "Lower" [])]]

/-- The same types from the ground up. -/
def towerOrdered : List Node :=
  [object "Ground" [reference "deeper" (object "Ground" [])],
    object "Lower" [reference "ground" (object "Ground" [])],
    object "Upper" [reference "lower" (object "Lower" [])],
    object "Roof" [reference "upper" (object "Upper" [])]]

end Sample

/-- The tower takes three scans, and the circle as many as its two types allow. -/
theorem reorder_succeeds_iff_tower :
    (Sample.tower.map Node.name).Nodup ∧
    (reorder Sample.tower).result = .ok (Sample.towerOrdered, ⟨3, 3⟩) ∧
    Relocated Sample.tower Sample.towerOrdered ⟨3, 3⟩ (reorder Sample.tower).diagnostics ∧
    (Sample.circle.map Node.name).Nodup ∧
    (∃ a b, a ≠ b ∧ TransGen (DependsOn Sample.circle) a b ∧
      TransGen (DependsOn Sample.circle) b a) ∧
    (∃ members, (reorder Sample.circle).result = .error (.cyclicDependency members)) ∧
    (Reorder.run Sample.circle).scans = 6 := by
  have htower : (Sample.tower.map Node.name).Nodup := by decide
  have hcircle : (Sample.circle.map Node.name).Nodup := by decide
  have hdone : (reorder Sample.tower).result = .ok (Sample.towerOrdered, ⟨3, 3⟩) := by rfl
  have hfail := reorder_of_not_settled (show (Reorder.run Sample.circle).settled = false by rfl)
  obtain ⟨-, hreturned, -⟩ := reorder_succeeds_iff htower
  obtain ⟨hsucceeds, -, hfailed⟩ := reorder_succeeds_iff hcircle
  have hmutual : ∃ a b, a ≠ b ∧ TransGen (DependsOn Sample.circle) a b ∧
      TransGen (DependsOn Sample.circle) b a := by
    by_contra hnone
    obtain ⟨out, stats, hok⟩ := hsucceeds.mpr hnone
    exact absurd (hfail.symm.trans hok) (by simp)
  have hlimit : Sample.circle.length * Sample.circle.length + 2 = 6 := rfl
  have hscans := (hfailed _ hfail).2.2
  rw [hlimit] at hscans
  exact ⟨htower, hdone, (hreturned _ _ hdone).2, hcircle, hmutual, ⟨_, hfail⟩, hscans⟩

end Schemata
