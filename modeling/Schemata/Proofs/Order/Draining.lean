import Schemata.Order.Drain
import Schemata.Proofs.Model.Lookup
import Mathlib.Data.List.Nodup

/-!
# What draining the pool comes to

A node is emitted by taking every node of its `postorder` from the pool: what it depends on first,
the node itself last (`emit_eq_foldl`). Whatever holds of one `take` therefore holds of the whole
drain. The invariant is `Balanced`: the pool holds the given types whose name has not been moved,
and every name that has been moved was moved once.

Results:
* `drain_nodup`: the output has no name twice.
* `mem_drain_names`: its names are the names of the given types.
* `drain_first`: where some type of a name is no reference, what stands in the output under that
  name is the first such type.
* `firstOfEach_drain`: keeping the first type of each name drops nothing.
-/

namespace Schemata

namespace Node

mutual
/-- Everything a node depends on, at any depth and in the order in which it leaves the pool, and
then the node. -/
def postorder : Node → List Node
  | ⟨h, .leaf spec⟩ => [⟨h, .leaf spec⟩]
  | ⟨h, .array item spec⟩ =>
    (if item.isNamed then postorder item else []) ++ [⟨h, .array item spec⟩]
  | ⟨h, .dictionary key value d⟩ =>
    (if key.isNamed then postorder key else []) ++
      (if value.isNamed then postorder value else []) ++ [⟨h, .dictionary key value d⟩]
  | ⟨h, .object fields d⟩ => postorderFields fields ++ [⟨h, .object fields d⟩]
/-- The same for the types of fields, one after the other. -/
def postorderFields : List Field → List Node
  | [] => []
  | ⟨_, type⟩ :: rest => postorder type ++ postorderFields rest
end

theorem postorderFields_eq (fields : List Field) :
    postorderFields fields = (fields.map (·.type)).flatMap postorder := by
  induction fields with
  | nil => rfl
  | cons f rest ih =>
    obtain ⟨_, _⟩ := f
    rw [postorderFields, ih, List.map_cons, List.flatMap_cons]

/-- What a node depends on leaves before it, the node itself last. -/
theorem postorder_eq (n : Node) : n.postorder = n.dependencies.flatMap postorder ++ [n] := by
  obtain ⟨h, kind⟩ := n
  cases kind with
  | leaf spec => rfl
  | array item spec =>
    rw [postorder]
    cases hi : item.isNamed <;> simp [dependencies, Kind.children, hi]
  | dictionary key value d =>
    rw [postorder]
    cases hk : key.isNamed <;> cases hv : value.isNamed <;>
      simp [dependencies, Kind.children, hk, hv]
  | object fields d =>
    rw [postorder, postorderFields_eq]
    rfl

end Node

namespace Drain

mutual
/-- **Emitting a node takes its `postorder` from the pool.** -/
theorem emit_eq_foldl : ∀ (s : Drain) (n : Node), s.emit n = n.postorder.foldl take s
  | s, ⟨h, .leaf spec⟩ => rfl
  | s, ⟨h, .array item spec⟩ => by
    simp only [emit, Node.postorder, List.foldl_append, List.foldl_cons, List.foldl_nil]
    split
    · rw [emit_eq_foldl s item]
    · rfl
  | s, ⟨h, .dictionary key value d⟩ => by
    have hkey : (if key.isNamed then s.emit key else s) =
        (if key.isNamed then key.postorder else []).foldl take s := by
      split
      · exact emit_eq_foldl s key
      · rfl
    simp only [emit, Node.postorder, List.foldl_append, List.foldl_cons, List.foldl_nil]
    rw [← hkey]
    split
    · rw [emit_eq_foldl _ value]
    · rfl
  | s, ⟨h, .object fields d⟩ => by
    simp only [emit, Node.postorder, List.foldl_append, List.foldl_cons, List.foldl_nil]
    rw [emitFields_eq_foldl s fields]
theorem emitFields_eq_foldl : ∀ (s : Drain) (fields : List Field),
    s.emitFields fields = (Node.postorderFields fields).foldl take s
  | s, [] => rfl
  | s, ⟨_, type⟩ :: rest => by
    simp only [emitFields, Node.postorderFields, List.foldl_append]
    rw [emit_eq_foldl s type, emitFields_eq_foldl _ rest]
end

/-- **Emitting a node** emits what it depends on and takes the node. -/
theorem emit_eq (s : Drain) (n : Node) : s.emit n = (n.dependencies.foldl emit s).take n := by
  have hemit : emit = fun s (d : Node) => d.postorder.foldl take s :=
    funext fun s => funext fun d => emit_eq_foldl s d
  rw [emit_eq_foldl, Node.postorder_eq, List.foldl_append, List.foldl_flatMap, ← hemit]
  rfl

/-! ## One name leaves the pool -/

/-- The names moved so far. -/
def moved (s : Drain) : List String := s.sorted.map Node.name

/-- Where some type of its name is no reference, the node is one of the types and no reference. -/
def Kept (types : List Node) (t : Node) : Prop :=
  (∃ u ∈ types, u.name = t.name ∧ u.isRef = false) → t ∈ types ∧ t.isRef = false

/-- Where some type of its name is no reference, the node is the first such type. -/
def First (types : List Node) (t : Node) : Prop :=
  ∀ u, declaring? types t.name = some u → t = u

theorem First.kept {types : List Node} {t : Node} (h : First types t) : Kept types t := by
  intro hsome
  obtain ⟨u, hu⟩ := exists_declaring? hsome
  obtain rfl := h u hu
  obtain ⟨hin, -, hr⟩ := declaring?_eq_some hu
  exact ⟨hin, hr⟩

/-- What is left in the pool and what has been moved make up the types, name by name. -/
structure Balanced (types : List Node) (s : Drain) : Prop where
  /-- The pool holds the types whose name has not been moved. -/
  pool : s.pool = types.filter fun t => t.name ∉ s.moved
  /-- No name has been moved twice. -/
  nodup : s.moved.Nodup
  /-- Only names of types have been moved. -/
  names : ∀ name ∈ s.moved, name ∈ types.map Node.name
  /-- The first types that are no references have been preferred. -/
  first : ∀ t ∈ s.sorted, First types t

theorem balanced_start (types : List Node) : Balanced types ⟨types, []⟩ where
  pool := by simp [moved]
  nodup := List.nodup_nil
  names := by simp [moved]
  first := by simp

variable {types : List Node} {s : Drain}

/-- The pool entries of a name that has not been moved are all types of that name. -/
theorem Balanced.pool_filter (hs : Balanced types s) {name : String} (hn : name ∉ s.moved) :
    s.pool.filter (·.name = name) = types.filter (·.name = name) := by
  rw [hs.pool, List.filter_filter]
  apply List.filter_congr
  intro t _
  by_cases ht : t.name = name
  · simp [ht, hn]
  · simp [ht]

/-- The pool holds no entry of a name that has been moved. -/
theorem Balanced.pool_filter_moved (hs : Balanced types s) {name : String}
    (hn : name ∈ s.moved) : s.pool.filter (·.name = name) = [] := by
  rw [List.filter_eq_nil_iff]
  intro t ht
  rw [hs.pool] at ht
  have hnot : t.name ∉ s.moved := by simpa using (List.mem_filter.mp ht).2
  intro heq
  rw [decide_eq_true_eq] at heq
  exact hnot (heq ▸ hn)

/-- The entry chosen among types of a name has the name. -/
theorem chosen_name {node first : Node} {found : List Node}
    (hfound : found = types.filter (·.name = node.name)) (hfirst : first ∈ found) :
    (chosen node first found).name = node.name := by
  have hname : ∀ t ∈ found, t.name = node.name := fun t ht => by
    rw [hfound] at ht
    simpa using (List.mem_filter.mp ht).2
  unfold chosen
  split
  · rename_i n hn
    exact hname n (List.mem_of_find?_eq_some hn)
  · split
    · exact hname first hfirst
    · rfl

/-- The entry chosen among all types of a name is the first that is no reference, if there is one. -/
theorem first_chosen {node first : Node} {found : List Node}
    (hfound : found = types.filter (·.name = node.name)) (hfirst : first ∈ found) :
    First types (chosen node first found) := by
  have hname := chosen_name hfound hfirst
  intro u hu
  have hfind : found.find? (fun n => !n.isRef) = some u := by
    rw [hfound, List.find?_filter, ← hname]
    simpa [declaring?] using hu
  simp only [chosen, hfind]

/-- Taking a name that has been moved changes nothing. -/
theorem take_of_moved (hs : Balanced types s) {node : Node} (hn : node.name ∈ s.moved) :
    s.take node = s := by
  unfold take
  rw [hs.pool_filter_moved hn]

/-- Taking a name that no type has changes nothing. -/
theorem take_of_absent (hs : Balanced types s) {node : Node}
    (hn : node.name ∉ types.map Node.name) : s.take node = s := by
  by_cases hm : node.name ∈ s.moved
  · exact take_of_moved hs hm
  · have hnil : s.pool.filter (·.name = node.name) = [] := by
      rw [hs.pool_filter hm, List.filter_eq_nil_iff]
      intro t ht heq
      rw [decide_eq_true_eq] at heq
      exact hn (heq ▸ List.mem_map_of_mem ht)
    unfold take
    rw [hnil]

/-- Taking the name of a type that is still in the pool moves one node of that name. -/
theorem take_of_waiting (hs : Balanced types s) {node : Node} (hm : node.name ∉ s.moved)
    (hn : node.name ∈ types.map Node.name) :
    ∃ t, t.name = node.name ∧ First types t ∧
      s.take node = ⟨s.pool.filter (·.name ≠ node.name), s.sorted ++ [t]⟩ := by
  have hfilter := hs.pool_filter hm
  unfold take
  cases hfound : s.pool.filter (·.name = node.name) with
  | nil =>
    obtain ⟨u, hu, hun⟩ := List.mem_map.mp hn
    rw [hfilter, List.filter_eq_nil_iff] at hfound
    exact absurd (by simpa using hun) (hfound u hu)
  | cons first rest =>
    rw [hfound] at hfilter
    exact ⟨chosen node first (first :: rest), chosen_name hfilter List.mem_cons_self,
      first_chosen hfilter List.mem_cons_self, rfl⟩

/-- **One step keeps the balance.** -/
theorem Balanced.take (hs : Balanced types s) (node : Node) : Balanced types (s.take node) := by
  by_cases hm : node.name ∈ s.moved
  · rwa [take_of_moved hs hm]
  by_cases hn : node.name ∈ types.map Node.name
  · obtain ⟨t, htn, hfirst, htake⟩ := take_of_waiting hs hm hn
    rw [htake]
    have hmoved : moved ⟨s.pool.filter (·.name ≠ node.name), s.sorted ++ [t]⟩ =
        s.moved ++ [node.name] := by simp [moved, htn]
    refine ⟨?_, ?_, ?_, ?_⟩
    · rw [hmoved]
      simp only [hs.pool, List.filter_filter]
      apply List.filter_congr
      intro u _
      by_cases hu : u.name = node.name <;> simp [hu]
    · rw [hmoved]
      exact List.Nodup.append hs.nodup (List.nodup_singleton _) (by simpa using hm)
    · rw [hmoved]
      intro name hname
      rcases List.mem_append.mp hname with h | h
      · exact hs.names name h
      · rw [List.mem_singleton.mp h]
        exact hn
    · intro u hu
      rcases List.mem_append.mp hu with h | h
      · exact hs.first u h
      · rw [List.mem_singleton.mp h]
        exact hfirst
  · rwa [take_of_absent hs hn]

theorem moved_take (s : Drain) (node : Node) {name : String} (h : name ∈ s.moved) :
    name ∈ (s.take node).moved := by
  unfold take
  split
  · exact h
  · simp only [moved, List.map_append, List.mem_append]
    exact Or.inl h

/-- After a node has been taken its name has been moved, if it is the name of a type. -/
theorem name_moved_take (hs : Balanced types s) {node : Node}
    (hn : node.name ∈ types.map Node.name) : node.name ∈ (s.take node).moved := by
  by_cases hm : node.name ∈ s.moved
  · exact moved_take s node hm
  · obtain ⟨t, htn, -, htake⟩ := take_of_waiting hs hm hn
    rw [htake]
    simp [moved, htn]

/-! ## The whole pool -/

theorem Balanced.foldl_take : ∀ (nodes : List Node) {s : Drain}, Balanced types s →
    Balanced types (nodes.foldl Drain.take s)
  | [], _, hs => hs
  | node :: rest, _, hs => foldl_take rest (hs.take node)

theorem moved_foldl_take : ∀ (nodes : List Node) {s : Drain} {name : String}, name ∈ s.moved →
    name ∈ (nodes.foldl Drain.take s).moved
  | [], _, _, h => h
  | node :: rest, s, _, h => moved_foldl_take rest (moved_take s node h)

theorem Balanced.emit (hs : Balanced types s) (n : Node) : Balanced types (s.emit n) := by
  rw [emit_eq_foldl]
  exact hs.foldl_take _

theorem moved_emit (s : Drain) (n : Node) {name : String} (h : name ∈ s.moved) :
    name ∈ (s.emit n).moved := by
  rw [emit_eq_foldl]
  exact moved_foldl_take _ h

theorem name_moved_emit (hs : Balanced types s) {n : Node} (hn : n.name ∈ types.map Node.name) :
    n.name ∈ (s.emit n).moved := by
  rw [emit_eq_foldl, Node.postorder_eq, List.foldl_append]
  exact name_moved_take (hs.foldl_take _) hn

theorem Balanced.next (hs : Balanced types s) (t : Node) : Balanced types (s.next t) := by
  unfold Drain.next
  split
  · exact hs.emit t
  · exact hs

theorem moved_next (s : Drain) (t : Node) {name : String} (h : name ∈ s.moved) :
    name ∈ (s.next t).moved := by
  unfold next
  split
  · exact moved_emit s t h
  · exact h

/-- After a type has had its turn its name has been moved. -/
theorem name_moved_next (hs : Balanced types s) {t : Node} (ht : t ∈ types) :
    t.name ∈ (s.next t).moved := by
  unfold next
  split
  · exact name_moved_emit hs (List.mem_map_of_mem ht)
  · rename_i hany
    by_contra hm
    refine hany (List.any_eq_true.mpr ⟨t, ?_, by simp⟩)
    rw [hs.pool, List.mem_filter]
    exact ⟨ht, by simpa using hm⟩

/-- **A run over some of the types** keeps the balance and moves the name of each of them. -/
theorem foldl_next_spec : ∀ (turns : List Node) {s : Drain}, Balanced types s →
    (∀ t ∈ turns, t ∈ types) → Balanced types (turns.foldl next s) ∧
      (∀ name ∈ s.moved, name ∈ (turns.foldl next s).moved) ∧
      ∀ t ∈ turns, t.name ∈ (turns.foldl next s).moved
  | [], _, hs, _ => ⟨hs, fun _ h => h, by simp⟩
  | t :: rest, s, hs, hsub => by
    obtain ⟨hbal, hmono, hall⟩ := foldl_next_spec rest (hs.next t)
      fun u hu => hsub u (List.mem_cons_of_mem t hu)
    refine ⟨hbal, fun name h => hmono name (moved_next s t h), fun u hu => ?_⟩
    rcases List.mem_cons.mp hu with rfl | hu
    · exact hmono _ (name_moved_next hs (hsub u List.mem_cons_self))
    · exact hall u hu

end Drain

variable {types : List Node}

theorem balanced_drain (types : List Node) :
    Drain.Balanced types (types.foldl Drain.next ⟨types, []⟩) :=
  (Drain.foldl_next_spec types (Drain.balanced_start types) fun _ h => h).1

theorem drain_nodup (types : List Node) : ((drain types).map Node.name).Nodup :=
  (balanced_drain types).nodup

/-- **The drain moves every name.** -/
theorem mem_drain_names {name : String} :
    name ∈ (drain types).map Node.name ↔ name ∈ types.map Node.name := by
  constructor
  · exact (balanced_drain types).names name
  · intro h
    obtain ⟨t, ht, rfl⟩ := List.mem_map.mp h
    exact (Drain.foldl_next_spec types (Drain.balanced_start types) fun _ h => h).2.2 t ht

/-- **Of the types of a name, the drain keeps the first that is no reference.** -/
theorem drain_first {t : Node} (ht : t ∈ drain types) : Drain.First types t :=
  (balanced_drain types).first t ht

theorem drain_kept {t : Node} (ht : t ∈ drain types) : Drain.Kept types t := (drain_first ht).kept

/-! ## The first of each name -/

theorem firstOfEachAux_eq_self : ∀ (types : List Node) (seen : List String),
    (types.map Node.name).Nodup → (∀ t ∈ types, t.name ∉ seen) →
    firstOfEachAux seen types = types
  | [], _, _, _ => rfl
  | t :: rest, seen, hd, hseen => by
    rw [List.map_cons, List.nodup_cons] at hd
    have ht : seen.contains t.name = false := by
      simpa using hseen t List.mem_cons_self
    rw [firstOfEachAux, ht, if_neg Bool.false_ne_true,
      firstOfEachAux_eq_self rest (t.name :: seen) hd.2]
    intro u hu hmem
    rcases List.mem_cons.mp hmem with h | h
    · exact hd.1 (h ▸ List.mem_map_of_mem hu)
    · exact hseen u (List.mem_cons_of_mem t hu) h

/-- Keeping the first type of each name leaves the drained types as they are. -/
theorem firstOfEach_drain (types : List Node) : firstOfEach (drain types) = drain types :=
  firstOfEachAux_eq_self _ [] (drain_nodup types) (by simp)

end Schemata
