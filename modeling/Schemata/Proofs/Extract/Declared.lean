import Schemata.Build.Entry
import Schemata.Proofs.Extract.Closed
import Schemata.Proofs.Extract.Reach

/-!
# Sharing with a declared type

A placed node that is not named after its members tries its own name first. When a declared type has
that name and, in the end, the shape of the node, the node should keep the name. It does so unless the
first type of the name is a reference, or the declared type had not been walked when the node was
placed and its walk has changed its shape: then the node was compared with a shape that the type no
longer has.

Results:
* `Forest.named?_typesDuring`: the type that a name stands for while a tree is walked.
* `Forest.hoisted_fresh`: a new definition has a name that no declared type has.
* `shares_declared_iff`: the exact condition for a node to share a declared type of its shape.
* `extract_parts_from_declared`: a document whose nested type does not share the declared type.
-/

namespace Schemata

open Node

variable {types : List Node} {name : String} {n m d : Node}

namespace Forest

variable {f : Forest} {root : Root} {path : List Step} {pre rest : List Node} {i : Nat}

/-! ## The types in front of a root -/

/-- The declared types that are walked before a root. -/
def ahead (f : Forest) : Root → List Node
  | .type j => f.types.take j
  | .element _ => f.types

/-- The first type of a name is among the first `j` types exactly when it stands at one of their
positions. -/
theorem mem_take_split_iff (rest : List Node) (hpre : name ∉ pre.map Node.name)
    (hd : d.name = name) (j : Nat) :
    d ∈ (pre ++ d :: rest).take j ↔ pre.length < j := by
  have hnot : d ∉ pre := fun hin => hpre (List.mem_map.mpr ⟨d, hin, hd⟩)
  constructor
  · intro hin
    by_contra hle
    rw [List.take_append_of_le_length (Nat.not_lt.mp hle)] at hin
    exact hnot (List.mem_of_mem_take hin)
  · intro hlt
    rw [List.take_append, show j - pre.length = (j - pre.length - 1) + 1 by omega,
      List.take_succ_cons]
    exact List.mem_append_right _ List.mem_cons_self

/-- A name stands for the new one of two types at the same position when the position is among those
that have been replaced. -/
theorem named?_take_drop {pre' : List Node} {d' : Node} (rest rest' : List Node)
    (hpre : name ∉ pre.map Node.name) (hd : d.name = name)
    (hnames : pre'.map Node.name = pre.map Node.name) (hd' : d'.name = name) (j : Nat) :
    (pre.length < j →
      named? ((pre' ++ d' :: rest').take j ++ (pre ++ d :: rest).drop j) name = some d') ∧
    (¬ pre.length < j →
      named? ((pre' ++ d' :: rest').take j ++ (pre ++ d :: rest).drop j) name = some d) := by
  have hlen : pre'.length = pre.length := by
    simpa only [List.length_map] using congrArg List.length hnames
  constructor
  · intro hlt
    rw [List.take_append, hlen, show j - pre.length = (j - pre.length - 1) + 1 by omega,
      List.take_succ_cons, List.append_assoc, List.take_of_length_le (by omega)]
    exact named?_of_split (hnames ▸ hpre) hd'
  · intro hle
    rw [List.take_append_of_le_length (by omega), List.drop_append_of_le_length (by omega),
      ← List.append_assoc]
    refine named?_of_split (fun hin => ?_) hd
    rw [List.map_append, List.mem_append] at hin
    rcases hin with hin | hin
    · exact (hnames ▸ hpre) (List.map_subset _ (List.take_subset _ _) hin)
    · exact hpre (List.map_subset _ (List.drop_subset _ _) hin)

/-- The final form of a declared type stands at its position and has its head. -/
theorem planner_split (h : f.types = pre ++ d :: rest) : ∃ pre' d' rest',
    f.planner.declared = pre' ++ d' :: rest' ∧ pre'.map Node.name = pre.map Node.name ∧
      d'.head = d.head := by
  have hout := planner_outline f
  rw [h, List.map_append, List.map_cons] at hout
  obtain ⟨pre', final, hsplit, hpre, hfinal⟩ := List.map_eq_append_iff.mp hout
  obtain ⟨d', rest', rfl, hd, -⟩ := List.map_eq_cons_iff.mp hfinal
  refine ⟨pre', d', rest', hsplit, ?_, congrArg Prod.fst hd⟩
  have hnames := congrArg (List.map fun o => o.1.name) hpre
  rwa [List.map_map, List.map_map] at hnames

/-- **The type that a name stands for while a tree is walked**: in its final form if it has been walked
before, else as it was declared. -/
theorem named?_typesDuring (root : Root) (h : named? f.types name = some d) :
    ∃ d', named? f.planner.declared name = some d' ∧ d'.head = d.head ∧
      (d ∈ f.ahead root → named? (f.typesDuring root) name = some d') ∧
      (d ∉ f.ahead root → named? (f.typesDuring root) name = some d) := by
  obtain ⟨pre, rest, hsplit, hpre, hname⟩ := named?_split h
  obtain ⟨pre', d', rest', hsplit', hnames, hhead⟩ := planner_split hsplit
  have hname' : d'.name = name := (congrArg Head.name hhead).trans hname
  have hfinal : named? f.planner.declared name = some d' := by
    rw [hsplit']
    exact named?_of_split (hnames ▸ hpre) hname'
  cases root with
  | element j => exact ⟨d', hfinal, hhead, fun _ => hfinal, fun hout => absurd (mem_of_named? h) hout⟩
  | type j =>
    have hpos := mem_take_split_iff rest hpre hname j
    obtain ⟨hnew, hold⟩ := named?_take_drop rest rest' hpre hname hnames hname' j
    rw [← hpos, ← hsplit, ← hsplit'] at hnew hold
    exact ⟨d', hfinal, hhead, hnew, hold⟩

/-! ## New definitions -/

theorem names_planner (f : Forest) :
    f.planner.declared.map Node.name = f.types.map Node.name := by
  have hnames := congrArg (List.map fun o => o.1.name) (planner_outline f)
  rwa [List.map_map, List.map_map] at hnames

/-- **A new definition has a name that no declared type has.** -/
theorem hoisted_fresh (f : Forest) :
    ∀ e ∈ f.plan.hoisted, e.node.name ∉ f.types.map Node.name := by
  have htypes : ∀ e ∈ f.typesPlanner.hoisted,
      e.node.name ∉ f.typesPlanner.declared.map Node.name := by
    refine typesPlanner_induction (P := fun _ => True)
      (I := fun p _ => ∀ e ∈ p.hoisted, e.node.name ∉ p.declared.map Node.name)
      (fun p pre rest placed n hp hn _ hfresh e he => ?_) (fun _ _ _ => trivial)
      (fun e he => absurd he List.not_mem_nil)
    rw [Planner.walkType_of_not_ref hn hp] at he ⊢
    have hnew := ((Planner.canonicalKind_places p (Planner.typePlace pre.length n) n.kind).grows.fresh
      e he).elim (hfresh e) id
    rw [hp, List.map_append, List.map_cons] at hnew
    rwa [List.map_append, List.map_cons]
  intro e he
  have hnew := ((planner_places f).grows.fresh e he).elim (htypes e) id
  rwa [← planner_declared, names_planner] at hnew

/-! ## The shared name -/

/-- A declared name is still declared in the final forest. -/
theorem declaring?_extract (h : declaring? f.types name = some d) :
    ∃ d', declaring? f.extract.types name = some d' := by
  have hout := declaring?_outline (planner_outline f) name
  rw [h, Option.map_some] at hout
  obtain ⟨d', hd', -⟩ := Option.map_eq_some_iff.mp hout
  rw [types_extract]
  exact ⟨d', declaring?_append hd' _⟩

/-- A node whose own name is tried first keeps it exactly when, while it is walked, the name stands for
a type of its final shape. -/
theorem extract_keeps_iff (h : f.reach? root path = some n) (hn : PlacedAt root path n)
    (hown : n.kind.ownName = true) (hm : f.extract.reach? root path = some m)
    (hd : named? (f.typesDuring root) n.name = some d) :
    m.name = n.name ↔ d.shape = m.shape := by
  obtain ⟨-, hkind, hfit⟩ := extract_firstFit h hn hm
  have hbase : (m.rename n.name).baseName = n.name :=
    baseName_of_ownName (n := m.rename n.name) (hkind.trans hown)
  have hiff := hfit.eq_baseName_iff
  rw [hbase] at hiff
  exact hiff.trans (shared_iff (named?_append hd _))

/-- A node whose name stands for a reference gets another name: a reference, walked or not, does not
have its shape. -/
theorem extract_renames_of_isRef (h : f.reach? root path = some n) (hn : PlacedAt root path n)
    (hown : n.kind.ownName = true) (hm : f.extract.reach? root path = some m)
    (hd : named? f.types n.name = some d) (hr : d.isRef = true) : m.name ≠ n.name := by
  obtain ⟨d', -, hhead, hahead, hbehind⟩ := named?_typesDuring root hd
  obtain ⟨u, hu, hur⟩ : ∃ u, named? (f.typesDuring root) n.name = some u ∧ u.isRef = true := by
    by_cases hpos : d ∈ f.ahead root
    · exact ⟨d', hahead hpos, (congrArg Head.isRef hhead).trans hr⟩
    · exact ⟨d, hbehind hpos, hr⟩
  intro hname
  have hflag := isRef_eq_of_shape_eq ((extract_keeps_iff h hn hown hm hu).mp hname)
  rw [hur, (extract_firstFit h hn hm).1.not_ref] at hflag
  cases hflag

/-- A node keeps the name of a declared type, of which it has the final shape, exactly when the type
has been walked before or its walk leaves its shape as it was. -/
theorem extract_keeps_declared_iff {d' : Node} (h : f.reach? root path = some n)
    (hn : PlacedAt root path n) (hown : n.kind.ownName = true)
    (hm : f.extract.reach? root path = some m) (hd : named? f.types n.name = some d)
    (hr : d.isRef = false) (hd' : declaring? f.extract.types n.name = some d')
    (hshape : d'.shape = m.shape) :
    m.name = n.name ↔ d ∈ f.ahead root ∨ d.sameShape d' = true := by
  obtain ⟨u, hu, hhead, hahead, hbehind⟩ := named?_typesDuring root hd
  obtain rfl : u = d' := by
    have hdeclaring := declaring?_of_named? hu ((congrArg Head.isRef hhead).trans hr)
    rw [types_extract, declaring?_append hdeclaring] at hd'
    exact Option.some.inj hd'
  by_cases hpos : d ∈ f.ahead root
  · exact iff_of_true ((extract_keeps_iff h hn hown hm (hahead hpos)).mpr hshape) (Or.inl hpos)
  · rw [extract_keeps_iff h hn hown hm (hbehind hpos), ← hshape, sameShape_iff]
    exact ⟨Or.inr, fun hsame => hsame.resolve_left hpos⟩

end Forest

open Forest in
/-- **When a node shares the declared type of its name and shape.** Take a node at a place whose name
is that of a declared type, and its final form and that of the type. If they have the same shape, then
the node keeps the name and no definition is made for it exactly when the declared type is the first
type of the name and, unless it was walked before the node, its walk has left its shape as it was. -/
theorem shares_declared_iff {f : Forest} {root : Root} {path : List Step} {n d : Node}
    (h : f.reach? root path = some n) (hn : PlacedAt root path n) (hown : n.kind.ownName = true)
    (hd : declaring? f.types n.name = some d) :
    ∃ m d', f.extract.reach? root path = some m ∧ declaring? f.extract.types n.name = some d' ∧
      (d'.sameShape m = true →
        ((m.name = n.name ∧ ∀ e ∈ f.plan.hoisted, e.node.name ≠ m.name) ↔
          named? f.types n.name = some d ∧ (d ∈ f.ahead root ∨ d.sameShape d' = true))) := by
  obtain ⟨_, _, -, -, hm⟩ := extract_reach hn.inner h
  obtain ⟨d', hd'⟩ := declaring?_extract hd
  refine ⟨_, d', hm, hd', fun hshape => ?_⟩
  generalize (Planner.canonicalize _ _ _ n).1 = m at hm hshape
  obtain ⟨hin, hname, hr⟩ := declaring?_eq_some hd
  have hmem : n.name ∈ f.types.map Node.name := List.mem_map.mpr ⟨d, hin, hname⟩
  -- a name of a declared type is no name of a new definition
  have hnone : m.name = n.name → ∀ e ∈ f.plan.hoisted, e.node.name ≠ m.name :=
    fun hkeep e he heq => hoisted_fresh f e he (heq ▸ hkeep ▸ hmem)
  rw [and_iff_left_of_imp hnone]
  obtain ⟨t, ht⟩ := exists_named? hmem
  cases htr : t.isRef with
  | true =>
    refine iff_of_false (extract_renames_of_isRef h hn hown hm ht htr) fun ⟨hfirst, _⟩ => ?_
    obtain rfl := Option.some.inj (ht.symm.trans hfirst)
    exact absurd (hr.symm.trans htr) (by simp)
  | false =>
    obtain rfl : t = d := Option.some.inj ((declaring?_of_named? ht htr).symm.trans hd)
    have hiff := extract_keeps_declared_iff h hn hown hm ht htr hd' ((sameShape_iff d' m).mp hshape)
    rw [hiff]
    exact ⟨fun hkeep => ⟨ht, hkeep⟩, fun hkeep => hkeep.2⟩

namespace Sample

/-- A bay has an array of codes. -/
def bayEntry : Json := .object [("type", .string "object"), ("properties", .object [
  ("codes", .object [("type", .string "array"), ("items", .object [("type", .string "string")])])])]

/-- A depot has a bay that is declared in place. -/
def depotEntry : Json :=
  .object [("type", .string "object"), ("properties", .object [("Bay", bayEntry)])]

/-- The node of a bay under a name, with a name for the type of its codes. -/
def bay (name codes : String) : Node :=
  let text : Node := ⟨Head.fresh "items" .string, .leaf (.string ⟨none, none, none, none⟩)⟩
  let array : Node := ⟨Head.fresh "codes" .array, .array text ⟨"entry", none, none, none⟩⟩
  Node.rename ⟨Head.fresh "Bay" .object,
    .object [⟨⟨"codes", "", false, none⟩, array.rename codes⟩] none⟩ name

/-- The node of the depot. -/
def depot : Node :=
  ⟨Head.fresh "Depot" .object, .object [⟨⟨"Bay", "", false, none⟩, bay "Bay" "codes"⟩] none⟩

/-- A document with the bay behind the depot. -/
def depots : Json := .object [("types", .object [("Depot", depotEntry), ("Bay", bayEntry)])]

/-- The forest with the bay in front of the depot. -/
def bayFirst : Forest := ⟨[bay "Bay" "codes", depot], []⟩

/-- The forest with the bay behind the depot. -/
def depotFirst : Forest := ⟨[depot, bay "Bay" "codes"], []⟩

end Sample

open Forest in
/-- The bay of a depot shares the declared bay that stands in front of the depot. -/
theorem shares_declared_iff_bayFirst :
    Sample.bayFirst.reach? (.type 1) [.field 0] = some (Sample.bay "Bay" "codes") ∧
      PlacedAt (.type 1) [.field 0] (Sample.bay "Bay" "codes") ∧
      ∃ m, Sample.bayFirst.extract.reach? (.type 1) [.field 0] = some m ∧ m.name = "Bay" := by
  have hreach : Sample.bayFirst.reach? (.type 1) [.field 0] = some (Sample.bay "Bay" "codes") := by
    decide +kernel
  have hplaced : PlacedAt (.type 1) [.field 0] (Sample.bay "Bay" "codes") :=
    ⟨by decide +kernel, by simp, by decide +kernel⟩
  have hfinal : Sample.bayFirst.extract.reach? (.type 1) [.field 0] =
        some (Sample.bay "Bay" "string_array") ∧
      declaring? Sample.bayFirst.extract.types "Bay" = some (Sample.bay "Bay" "string_array") := by
    decide +kernel
  obtain ⟨m, d', hm, hd', hiff⟩ := shares_declared_iff (d := Sample.bay "Bay" "codes") hreach hplaced
    (by decide +kernel) (by decide +kernel)
  obtain rfl := Option.some.inj (hm.symm.trans hfinal.1)
  obtain rfl := Option.some.inj (hd'.symm.trans hfinal.2)
  have hkeeps := (hiff (sameShape_refl _)).mpr ⟨by decide +kernel, Or.inl (by decide +kernel)⟩
  exact ⟨hreach, hplaced, _, hm, hkeeps.1⟩

open Forest in
/-- **Sharing with a declared type depends on the order of declarations.** The depot is walked while
the codes of the declared bay still have the name of their place; so the bay of the depot is turned
down, and a definition is made for it that in the end has the shape of the declared bay. -/
theorem extract_parts_from_declared :
    (Entry.loadSection Sample.depots "types").result.toOption = some Sample.depotFirst.types ∧
      (Entry.loadSection Sample.depots "elements").result.toOption =
        some Sample.depotFirst.elements ∧
      PlacedAt (.type 0) [.field 0] (Sample.bay "Bay" "codes") ∧
      Sample.depotFirst.reach? (.type 0) [.field 0] = some (Sample.bay "Bay" "codes") ∧
      (Sample.bay "Bay" "codes").kind.ownName = true ∧
      declaring? Sample.depotFirst.types "Bay" = some (Sample.bay "Bay" "codes") ∧
      Sample.depotFirst.extract.reach? (.type 0) [.field 0] =
        some (Sample.bay "Bay-object" "string_array") ∧
      declaring? Sample.depotFirst.extract.types "Bay" = some (Sample.bay "Bay" "string_array") ∧
      (Sample.bay "Bay" "string_array").sameShape (Sample.bay "Bay-object" "string_array") = true ∧
      "Bay-object" ∈ Sample.depotFirst.plan.hoisted.map (·.node.name) := by
  have hplaced : PlacedAt (.type 0) [.field 0] (Sample.bay "Bay" "codes") :=
    ⟨by decide +kernel, by simp, by decide +kernel⟩
  exact ⟨by decide +kernel, by decide +kernel, hplaced, by decide +kernel⟩

end Schemata
