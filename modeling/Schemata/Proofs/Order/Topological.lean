import Schemata.Order.Basic
import Schemata.Proofs.Order.Components
import Schemata.Proofs.Order.Draining
import Schemata.Proofs.Order.Moves

/-!
# Ordering is topological

The drain decides which entry stands for a name, the cycle check turns self-dependencies away, and
the moves put every dependency in front of its dependent. `Ordered` gathers what the three passes
leave behind.

Results:
* `orderTypes_ordered`: a successful ordering is `Ordered`.
* `orderTypes_declaring`: a declared type is the type of its name in the output.
* `orderTypes_topological`: its names are those given, each once, and every dependency that is
  there stands strictly before its dependent.
-/

namespace Schemata

/-- What ordering makes of a list of types. -/
structure Ordered (types out : List Node) : Prop where
  /-- No name stands twice. -/
  nodup : (out.map Node.name).Nodup
  /-- The names are those of the given types. -/
  names : ∀ name, name ∈ out.map Node.name ↔ name ∈ types.map Node.name
  /-- Types that are no references are preferred. -/
  kept : ∀ t ∈ out, Drain.Kept types t
  /-- A dependency that is there stands strictly before its dependent. -/
  before : ∀ (i : Nat) (t : Node), out[i]? = some t → ∀ d ∈ t.dependencies,
    d.name ∈ out.map Node.name → ∃ j, j < i ∧ (out[j]?).map Node.name = some d.name

namespace Reorder

/-- Where names are distinct, an entry stands at the position of its name. -/
theorem position_of_getElem? {types : List Node} (hd : (types.map Node.name).Nodup) {i : Nat}
    {t : Node} (h : types[i]? = some t) : position types t.name = some i := by
  obtain ⟨hi, rfl⟩ := List.getElem?_eq_some_iff.mp h
  refine List.findIdx?_eq_some_iff_getElem.mpr ⟨hi, by simp, fun j hj => ?_⟩
  have hj' : j < (types.map Node.name).length := by simpa using Nat.lt_trans hj hi
  have hi' : i < (types.map Node.name).length := by simpa using hi
  have hne : types[j].name ≠ types[i].name := by
    intro heq
    have hij : j = i := (List.Nodup.getElem_inj_iff hd).mp (show
      (types.map Node.name)[j] = (types.map Node.name)[i] by simpa using heq)
    omega
  simpa using hne

theorem exists_position {types : List Node} {name : String} (h : name ∈ types.map Node.name) :
    ∃ j, position types name = some j ∧ (types[j]?).map Node.name = some name := by
  cases hp : position types name with
  | none =>
    obtain ⟨t, ht, hn⟩ := List.mem_map.mp h
    exact absurd hn (by simpa using List.findIdx?_eq_none_iff.mp hp t ht)
  | some j =>
    obtain ⟨hj, hname, -⟩ := List.findIdx?_eq_some_iff_getElem.mp hp
    exact ⟨j, rfl, by simpa [List.getElem?_eq_getElem hj] using hname⟩

end Reorder

/-- A successful ordering found no cycle and reordered the drained types. -/
theorem orderTypes_eq_ok {types out : List Node} {stats : ReorderStats}
    (h : (orderTypes types).result = .ok (out, stats)) :
    (TypeGraph.ofTypes (drain types)).cycles = [] ∧
      (reorder (drain types)).result = .ok (out, stats) := by
  unfold orderTypes at h
  simp only [firstOfEach_drain] at h
  split at h
  · exact absurd h (by simp [Loaded.fail])
  · rename_i hcycles
    exact ⟨hcycles, h⟩

/-- **A successful ordering is `Ordered`.** -/
theorem orderTypes_ordered {types out : List Node} {stats : ReorderStats}
    (h : (orderTypes types).result = .ok (out, stats)) : Ordered types out := by
  obtain ⟨hcycles, hreorder⟩ := orderTypes_eq_ok h
  obtain ⟨hperm, hsettled⟩ := reorder_spec hreorder
  have hnames := hperm.map Node.name
  have hnodup : (out.map Node.name).Nodup := hnames.nodup_iff.mpr (drain_nodup types)
  refine ⟨hnodup, fun name => hnames.mem_iff.trans mem_drain_names,
    fun t ht => drain_kept (hperm.mem_iff.mp ht), fun i t ht d hd hin => ?_⟩
  have hdrained : t ∈ drain types := hperm.mem_iff.mp (List.mem_of_getElem? ht)
  have hpos : Reorder.position out t.name = some i := Reorder.position_of_getElem? hnodup ht
  obtain ⟨j, hj, hname⟩ := Reorder.exists_position hin
  have hle : j ≤ i := hsettled t hdrained d hd i j hpos hj
  have hne : j ≠ i := by
    rintro rfl
    rw [ht, Option.map_some, Option.some.injEq] at hname
    exact TypeGraph.no_self_dependency hcycles hdrained hd hname.symm
  exact ⟨j, Nat.lt_of_le_of_ne hle hne, hname⟩

/-- **A declared type is the type of its name in the output.** -/
theorem orderTypes_declaring {types out : List Node} {stats : ReorderStats} {name : String}
    {d : Node} (h : (orderTypes types).result = .ok (out, stats))
    (hd : declaring? types name = some d) : Node.named? out name = some d := by
  obtain ⟨hin, hname, -⟩ := declaring?_eq_some hd
  obtain ⟨t, ht⟩ := Node.exists_named?
    (((orderTypes_ordered h).names name).mpr (List.mem_map.mpr ⟨d, hin, hname⟩))
  obtain ⟨-, hreorder⟩ := orderTypes_eq_ok h
  have hdrained : t ∈ drain types := (reorder_spec hreorder).1.mem_iff.mp (Node.mem_of_named? ht)
  rw [ht, drain_first hdrained d (Node.name_of_named? ht ▸ hd)]

/-- **Ordering is topological.** The names of the output are those given, each once, and every
dependency that is in the output stands strictly before the type that depends on it. -/
theorem orderTypes_topological {types out : List Node} {stats : ReorderStats}
    (h : (orderTypes types).result = .ok (out, stats)) :
    (out.map Node.name).Nodup ∧
      (∀ name, name ∈ out.map Node.name ↔ name ∈ types.map Node.name) ∧
      ∀ (i : Nat) (t : Node), out[i]? = some t → ∀ d ∈ t.dependencies,
        d.name ∈ out.map Node.name → ∃ j, j < i ∧ (out[j]?).map Node.name = some d.name :=
  have hout := orderTypes_ordered h
  ⟨hout.nodup, hout.names, hout.before⟩

/-! ## A list that the drain alone leaves out of order -/

namespace Sample

/-- A text type. -/
def text (name : String) : Node :=
  ⟨Head.fresh name .string, .leaf (.string ⟨none, none, none, none⟩)⟩

/-- An object type with one field per type, each named after its type. -/
def object (name : String) (types : List Node) : Node :=
  ⟨Head.fresh name .object, .object (types.map fun t => ⟨⟨t.label, "", false, none⟩, t⟩) none⟩

/-- A reference to a type. -/
def reference (label : String) (n : Node) : Node :=
  ⟨{ n.head with label := label, isRef := true }, n.kind⟩

/-- `Outer` refers to a stale copy of `Inner` without its field, so the drain does not see that
`Inner` depends on `Deep` and leaves `Deep` last. `Inner` also stands under a second entry. -/
def staleCopy : List Node :=
  [reference "Other" (object "Inner" []), object "Outer" [reference "in" (object "Inner" [])],
    object "Inner" [reference "deep" (text "Deep")], text "Deep"]

/-- The same types in their final order. -/
def staleCopyOrdered : List Node :=
  [text "Deep", object "Inner" [reference "deep" (text "Deep")],
    object "Outer" [reference "in" (object "Inner" [])]]

end Sample

/-- One move puts the stale copy's dependency in place. -/
theorem orderTypes_topological_staleCopy :
    (orderTypes Sample.staleCopy).result = .ok (Sample.staleCopyOrdered, ⟨2, 1⟩) ∧
      (Sample.staleCopyOrdered.map Node.name).Nodup ∧
      (∀ name, name ∈ Sample.staleCopyOrdered.map Node.name ↔
        name ∈ Sample.staleCopy.map Node.name) ∧
      ∀ (i : Nat) (t : Node), Sample.staleCopyOrdered[i]? = some t → ∀ d ∈ t.dependencies,
        d.name ∈ Sample.staleCopyOrdered.map Node.name →
        ∃ j, j < i ∧ (Sample.staleCopyOrdered[j]?).map Node.name = some d.name :=
  ⟨by rfl, orderTypes_topological (show _ = Except.ok (_, ⟨2, 1⟩) by rfl)⟩

end Schemata
