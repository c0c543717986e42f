import Schemata.Proofs.Model.Size
import Schemata.Proofs.Order.Topological
import Mathlib.Logic.Relation

/-!
# How the pool runs empty

The drain is a loop: as long as the pool holds a type, its first one is emitted, and with it every
type of its name leaves the pool. A node is taken from the pool when everything that it depends on has
been taken, and it always stands in the tree of a given type. What each such step keeps up, the whole
drain keeps up (`drain_induction`).

Results:
* `Drain.empties_drain`: the loop ends, after at most one turn for each type, with the drained types.
* `drain_origin`: where an entry of the output comes from.
* `drain_once`: the drain ends with each name once; the first type of the name that is no reference
  stands for it, or else the first reference or a node inside a type.
-/

namespace Schemata

open Relation

/-- A node depends on another one, in its own tree. -/
def Node.Needs (n d : Node) : Prop := d ∈ n.dependencies

/-- A node is one of the types or something that one of them depends on, directly or not. -/
def Node.OccursIn (types : List Node) (n : Node) : Prop := ∃ t ∈ types, ReflTransGen Needs t n

variable {types : List Node} {n d t : Node}

theorem Node.OccursIn.self (h : n ∈ types) : n.OccursIn types := ⟨n, h, .refl⟩

theorem Node.OccursIn.needs (h : n.OccursIn types) (hd : d ∈ n.dependencies) : d.OccursIn types := by
  obtain ⟨t, ht, hpath⟩ := h
  exact ⟨t, ht, hpath.tail hd⟩

namespace Drain

variable {s : Drain}

/-! ## One node after what it depends on -/

/-- What a node depends on has been moved, as far as it is there. -/
def Ready (types : List Node) (s : Drain) (n : Node) : Prop :=
  ∀ d ∈ n.dependencies, d.name ∈ types.map Node.name → d.name ∈ s.moved

/-- Emitting nodes one after the other moves their names. -/
theorem foldl_emit_spec {P : Drain → Prop} (hemit : ∀ d ∈ n.dependencies, ∀ s : Drain,
      Balanced types s → P s → P (s.emit d)) :
    ∀ (nodes : List Node) (s : Drain), (∀ d ∈ nodes, d ∈ n.dependencies) → Balanced types s → P s →
      Balanced types (nodes.foldl emit s) ∧ P (nodes.foldl emit s) ∧
        (∀ name ∈ s.moved, name ∈ (nodes.foldl emit s).moved) ∧
        ∀ d ∈ nodes, d.name ∈ types.map Node.name → d.name ∈ (nodes.foldl emit s).moved
  | [], _, _, hs, hP => ⟨hs, hP, fun _ h => h, by simp⟩
  | d :: rest, s, hsub, hs, hP => by
    obtain ⟨hbalanced, hkept, hmono, hmoved⟩ := foldl_emit_spec hemit rest (s.emit d)
      (fun e he => hsub e (List.mem_cons_of_mem _ he)) (hs.emit d)
      (hemit d (hsub d List.mem_cons_self) s hs hP)
    refine ⟨hbalanced, hkept, fun name h => hmono name (moved_emit s d h), fun e he hin => ?_⟩
    rcases List.mem_cons.mp he with rfl | he
    · exact hmono _ (name_moved_emit hs hin)
    · exact hmoved e he hin

/-- **What each step keeps up, emitting a node keeps up.** A step takes a node from the trees of the
types, once all that the node depends on has been moved. -/
theorem emit_induction {P : Drain → Prop}
    (hstep : ∀ (s : Drain) (n : Node), Balanced types s → n.OccursIn types → Ready types s n → P s →
      P (s.take n)) (n : Node) (hn : n.OccursIn types) (s : Drain) (hs : Balanced types s)
    (hP : P s) : P (s.emit n) := by
  obtain ⟨hbalanced, hkept, -, hmoved⟩ := foldl_emit_spec
    (fun d hd s hs hP => emit_induction hstep d (hn.needs hd) s hs hP) n.dependencies s
    (fun _ h => h) hs hP
  rw [emit_eq]
  exact hstep _ n hbalanced hn hmoved hkept
termination_by n.size
decreasing_by exact Node.size_lt_of_dependency hd

theorem foldl_next_induction {P : Drain → Prop}
    (hstep : ∀ (s : Drain) (n : Node), Balanced types s → n.OccursIn types → Ready types s n → P s →
      P (s.take n)) :
    ∀ (turns : List Node) (s : Drain), (∀ t ∈ turns, t ∈ types) → Balanced types s → P s →
      P (turns.foldl next s)
  | [], _, _, _, hP => hP
  | t :: rest, s, hsub, hs, hP => by
    refine foldl_next_induction hstep rest (s.next t)
      (fun u hu => hsub u (List.mem_cons_of_mem _ hu)) (hs.next t) ?_
    unfold next
    split
    · exact emit_induction hstep t (.self (hsub t List.mem_cons_self)) s hs hP
    · exact hP

/-! ## The loop -/

/-- As long as the pool of `s` holds a type, its first one is emitted: after so many turns it holds
none, and the types moved are `out`. -/
inductive Empties : Drain → Nat → List Node → Prop where
  /-- The pool holds no type. -/
  | done (sorted : List Node) : Empties ⟨[], sorted⟩ 0 sorted
  /-- One more turn. -/
  | turn {s : Drain} {first : Node} {rest : List Node} {turns : Nat} {out : List Node}
      (hpool : s.pool = first :: rest) (h : Empties (s.emit first) turns out) :
      Empties s (turns + 1) out

/-- Once the names of all types have been moved the pool is empty. -/
theorem Balanced.pool_eq_nil (hs : Balanced types s) (h : ∀ t ∈ types, t.name ∈ s.moved) :
    s.pool = [] := by
  rw [hs.pool, List.filter_eq_nil_iff]
  exact fun t ht => by simpa using h t ht

/-- A type whose name has not been moved heads the pool when those in front of it have been. -/
theorem Balanced.pool_eq_cons {pre rest : List Node} (hs : Balanced types s)
    (htypes : types = pre ++ t :: rest) (hpre : ∀ u ∈ pre, u.name ∈ s.moved)
    (ht : t.name ∉ s.moved) : s.pool = t :: rest.filter fun u => u.name ∉ s.moved := by
  have hnil : (pre.filter fun u => u.name ∉ s.moved) = [] :=
    List.filter_eq_nil_iff.mpr fun u hu => by simpa using hpre u hu
  rw [hs.pool, htypes, List.filter_append, hnil, List.nil_append, List.filter_cons_of_pos (by simpa)]

/-- **The loop ends**: giving each type its turn is what the loop does. -/
theorem empties_foldl_next : ∀ (rest pre : List Node) (s : Drain), types = pre ++ rest →
    Balanced types s → (∀ u ∈ pre, u.name ∈ s.moved) →
      ∃ turns ≤ rest.length, Empties s turns (rest.foldl next s).sorted
  | [], pre, s, htypes, hs, hpre => by
    obtain ⟨pool, sorted⟩ := s
    obtain rfl := hs.pool_eq_nil fun t ht => hpre t (by simpa [htypes] using ht)
    exact ⟨0, Nat.le_refl _, .done sorted⟩
  | t :: rest, pre, s, htypes, hs, hpre => by
    have hin : t ∈ types := by simp [htypes]
    have hnext := name_moved_next hs hin
    obtain ⟨turns, hle, hempties⟩ := empties_foldl_next rest (pre ++ [t]) (s.next t)
      (by rw [htypes, List.append_assoc]; rfl) (hs.next t) (List.forall_mem_append.mpr
        ⟨fun u hu => moved_next s t (hpre u hu), List.forall_mem_singleton.mpr hnext⟩)
    rw [List.foldl_cons]
    by_cases ht : t.name ∈ s.moved
    · -- the turn of a type whose name has left the pool is passed over
      have hsame : s.next t = s := by
        have hnone := List.filter_eq_nil_iff.mp (hs.pool_filter_moved ht)
        exact if_neg (by simpa using hnone)
      rw [hsame] at hempties ⊢
      exact ⟨turns, Nat.le_succ_of_le hle, hempties⟩
    · have hpool := hs.pool_eq_cons htypes hpre ht
      have hemit : s.next t = s.emit t := if_pos (by simp [hpool])
      rw [hemit] at hempties ⊢
      exact ⟨turns + 1, Nat.succ_le_succ hle, .turn hpool hempties⟩

theorem empties_drain (types : List Node) :
    ∃ turns ≤ types.length, Empties ⟨types, []⟩ turns (drain types) :=
  empties_foldl_next types [] ⟨types, []⟩ rfl (balanced_start types) (by simp)

/-! ## Where the output comes from -/

/-- What a type is that comes to stand for its name: the first type of the name that is no reference;
without one, the first type of the name or a node inside one of the types that is no reference. -/
def Origin (types : List Node) (t : Node) : Prop :=
  declaring? types t.name = some t ∨
    declaring? types t.name = none ∧ (Node.named? types t.name = some t ∨
      t.isRef = false ∧ ∃ u ∈ types, TransGen Node.Needs u t)

/-- A chosen entry is a preferred type, a first one, or the node itself from inside a type. -/
theorem origin_chosen {node first : Node} {rest : List Node} (hnode : node.OccursIn types)
    (hfound : types.filter (·.name = node.name) = first :: rest) :
    Origin types (chosen node first (first :: rest)) := by
  have hpreferred := first_chosen hfound.symm List.mem_cons_self
  have hname := chosen_name hfound.symm List.mem_cons_self
  unfold Origin
  cases hdeclaring : declaring? types (chosen node first (first :: rest)).name with
  | some u => exact Or.inl (congrArg some (hpreferred u hdeclaring).symm)
  | none =>
    refine Or.inr ⟨rfl, ?_⟩
    rw [hname] at hdeclaring ⊢
    have hnone : (first :: rest).find? (fun n => !n.isRef) = none := by
      rw [← hfound, List.find?_filter]
      simpa [declaring?] using hdeclaring
    simp only [chosen, hnone]
    cases hr : node.isRef with
    | true =>
      refine Or.inl ?_
      rw [Node.named?, ← List.head?_filter, hfound]
      rfl
    | false =>
      obtain ⟨u, hu, hpath⟩ := hnode
      refine Or.inr ⟨hr, u, hu, ?_⟩
      rcases reflTransGen_iff_eq_or_transGen.mp hpath with rfl | hpath
      · exact absurd (hr.symm.trans (isRef_of_undeclared hdeclaring hu rfl)) (by simp)
      · exact hpath

theorem Origin.occursIn (h : Origin types t) : t.OccursIn types := by
  rcases h with h | ⟨-, h | ⟨-, u, hu, hpath⟩⟩
  · exact .self (declaring?_eq_some h).1
  · exact .self (Node.mem_of_named? h)
  · exact ⟨u, hu, hpath.to_reflTransGen⟩

/-- **What a step does**: it changes nothing, or moves one entry of known origin that has the name. -/
theorem take_cases (hs : Balanced types s) (hn : n.OccursIn types) :
    s.take n = s ∨ ∃ t, t.name = n.name ∧ Origin types t ∧ (s.take n).sorted = s.sorted ++ [t] := by
  by_cases hm : n.name ∈ s.moved
  · exact Or.inl (take_of_moved hs hm)
  · unfold take
    split
    · exact Or.inl rfl
    · rename_i first rest hfound
      rw [hs.pool_filter hm] at hfound
      exact Or.inr ⟨_, chosen_name hfound.symm List.mem_cons_self, origin_chosen hn hfound, rfl⟩

end Drain

/-- **What each step keeps up, the whole drain keeps up.** -/
theorem drain_induction {P : Drain → Prop}
    (hstep : ∀ (s : Drain) (n : Node), Drain.Balanced types s → n.OccursIn types →
      Drain.Ready types s n → P s → P (s.take n))
    (hstart : P ⟨types, []⟩) : P (types.foldl Drain.next ⟨types, []⟩) :=
  Drain.foldl_next_induction hstep types _ (fun _ h => h) (Drain.balanced_start types) hstart

/-- **Where an entry of the output comes from.** -/
theorem drain_origin (types : List Node) : ∀ t ∈ drain types, Drain.Origin types t :=
  drain_induction (P := fun s => ∀ t ∈ s.sorted, Drain.Origin types t)
    (fun s n hs hn _ hP => by
      rcases Drain.take_cases hs hn with hsame | ⟨t, -, horigin, hsorted⟩
      · rwa [hsame]
      · rw [hsorted]
        exact List.forall_mem_append.mpr ⟨hP, List.forall_mem_singleton.mpr horigin⟩) (by simp)

/-- A name of the types stands for an entry of the output of known origin. -/
theorem exists_drained {name : String} (h : name ∈ types.map Node.name) :
    ∃ t, Node.named? (drain types) name = some t ∧ t.name = name ∧ Drain.Origin types t := by
  obtain ⟨t, ht⟩ := Node.exists_named? (mem_drain_names.mpr h)
  exact ⟨t, ht, Node.name_of_named? ht, drain_origin types t (Node.mem_of_named? ht)⟩

/-- **The drain empties the pool and keeps each name once.** The loop ends, and the output has the names
of the types, none of them twice. The first type of a name that is no reference stands for the name
unchanged; where all types of a name are references, the first of them does, or a node of that name
inside one of the types that is no reference. -/
theorem drain_once (types : List Node) :
    (∃ turns ≤ types.length, Drain.Empties ⟨types, []⟩ turns (drain types)) ∧
    ((drain types).map Node.name).Nodup ∧
    (∀ name, name ∈ (drain types).map Node.name ↔ name ∈ types.map Node.name) ∧
    (∀ name t, declaring? types name = some t → Node.named? (drain types) name = some t) ∧
    ∀ name first, Node.named? types name = some first → declaring? types name = none →
      ∃ t, Node.named? (drain types) name = some t ∧
        (t = first ∨ t.isRef = false ∧ ∃ u ∈ types, TransGen Node.Needs u t) := by
  refine ⟨Drain.empties_drain types, drain_nodup types, fun _ => mem_drain_names,
    fun name t ht => ?_, fun name first hfirst hnone => ?_⟩
  · obtain ⟨hin, rfl, -⟩ := declaring?_eq_some ht
    obtain ⟨u, hu, hname, -⟩ := exists_drained (List.mem_map_of_mem hin)
    rw [hu, drain_first (Node.mem_of_named? hu) t (hname ▸ ht)]
  · obtain rfl := Node.name_of_named? hfirst
    obtain ⟨t, ht, hname, horigin⟩ :=
      exists_drained (List.mem_map_of_mem (Node.mem_of_named? hfirst))
    refine ⟨t, ht, ?_⟩
    rw [Drain.Origin, hname, hnone, hfirst] at horigin
    rcases horigin with hsome | ⟨-, heq | hinside⟩
    · exact absurd hsome (by simp)
    · exact Or.inl (Option.some.inj heq).symm
    · exact Or.inr hinside

namespace Sample

/-- `Inner` stands inside `Ferry` and is listed as a reference only, `Port` is listed as a reference and
as a type, and `Lone` only as two references. -/
def ferry : List Node :=
  [object "Ferry" [object "Inner" [text "seats"]], reference "deck" (object "Inner" []),
    reference "home" (object "Port" []), object "Port" [text "pier"],
    reference "first" (object "Lone" []), reference "second" (object "Lone" [])]

end Sample

/-- The nodes that stand for the names of the ferry: a node inside, a type, and a first reference. -/
theorem drain_once_ferry :
    drain Sample.ferry = [Sample.object "Inner" [Sample.text "seats"],
      Sample.object "Ferry" [Sample.object "Inner" [Sample.text "seats"]],
      Sample.object "Port" [Sample.text "pier"],
      Sample.reference "first" (Sample.object "Lone" [])] ∧
    (∃ turns ≤ 6, Drain.Empties ⟨Sample.ferry, []⟩ turns (drain Sample.ferry)) ∧
    declaring? Sample.ferry "Port" = some (Sample.object "Port" [Sample.text "pier"]) ∧
    Node.named? (drain Sample.ferry) "Port" = some (Sample.object "Port" [Sample.text "pier"]) ∧
    Node.named? Sample.ferry "Inner" = some (Sample.reference "deck" (Sample.object "Inner" [])) ∧
    declaring? Sample.ferry "Inner" = none ∧
    ∃ t, Node.named? (drain Sample.ferry) "Inner" = some t ∧
      (t = Sample.reference "deck" (Sample.object "Inner" []) ∨
        t.isRef = false ∧ ∃ u ∈ Sample.ferry, TransGen Node.Needs u t) := by
  obtain ⟨hloop, -, -, hdeclared, hreferences⟩ := drain_once Sample.ferry
  exact ⟨by rfl, hloop, by rfl, hdeclared "Port" _ (by rfl), by rfl, by rfl,
    hreferences "Inner" _ (by rfl) (by rfl)⟩

end Schemata
