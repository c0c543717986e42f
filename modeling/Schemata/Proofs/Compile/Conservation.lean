import Schemata.Proofs.Bind.Site
import Schemata.Proofs.Build.Notes
import Schemata.Proofs.Compile.Stages
import Schemata.Proofs.Compile.Unconstrained

/-!
# What becomes of constraints

An entry of `constraints` is a constraint or is recorded as malformed, and a constraint is attached
at its site or is recorded as unresolved. Before binding no node has constraints, and no other stage
records with these codes. So every entry of a document that compiles is accounted for, once.

Results:
* `bindConstraints_conserves`: binding neither loses nor repeats a constraint, and changes nothing
  else.
* `compile_conserves_constraints`: where each entry of a compiled document is found again.
-/

namespace Schemata

/-- The constraints at the roots of a forest. -/
def Forest.constraints (f : Forest) : List Constraint :=
  (f.types ++ f.elements).flatMap (·.head.constraints)

theorem Forest.Unconstrained.constraints_eq {f : Forest} (h : f.Unconstrained) :
    f.constraints = [] :=
  List.flatMap_eq_nil_iff.mpr <| List.forall_mem_append.mpr
    ⟨fun t ht => (h.types t ht).own, fun n hn => (h.elements n hn).own⟩

theorem Forest.Unconstrained.root {f : Forest} (h : f.Unconstrained) {root : Root} {n : Node}
    (hn : f.root? root = some n) : n.Unconstrained := by
  cases root with
  | type i => exact h.types n (List.mem_of_getElem? hn)
  | element i => exact h.elements n (List.mem_of_getElem? hn)

/-! ## Binding -/

namespace Bind

variable {f : Forest} {root : Root} {n : Node}

theorem modify_perm (c : Constraint) {nodes : List Node} {i : Nat} (h : nodes[i]? = some n) :
    ((nodes.modify i (·.addConstraint c)).flatMap (·.head.constraints)).Perm
      (c :: nodes.flatMap (·.head.constraints)) := by
  induction nodes generalizing i with
  | nil => cases h
  | cons m rest ih =>
    cases i with
    | zero =>
      change ((m.head.constraints ++ [c]) ++ _).Perm (c :: (m.head.constraints ++ _))
      rw [List.append_assoc]
      exact List.perm_middle
    | succ i =>
      rw [List.modify_succ_cons, List.flatMap_cons, List.flatMap_cons]
      exact ((ih h).append_left _).trans List.perm_middle

/-- Attaching a constraint at a root adds it to those at the roots. -/
theorem attach_perm (c : Constraint) (h : f.root? root = some n) :
    (f.attach c root).constraints.Perm (c :: f.constraints) := by
  unfold Forest.constraints
  rw [List.flatMap_append, List.flatMap_append]
  cases root with
  | type i => exact (modify_perm c h).append_right _
  | element i => exact ((modify_perm c h).append_left _).trans List.perm_middle

/-- **One constraint after the other is attached or has no site.** -/
theorem foldl_bindOne_perm (cs : List Constraint) (b : Bound) :
    ((cs.foldl bindOne b).forest.constraints ++ cs.filter fun c => site b.forest c = none).Perm
      (b.forest.constraints ++ cs) := by
  induction cs generalizing b with
  | nil => exact List.Perm.refl _
  | cons c cs ih =>
    rw [List.foldl_cons, bindOne_eq]
    cases hsite : site b.forest c with
    | some root =>
      obtain ⟨n, hn⟩ := exists_root_of_site hsite
      have hrest := ih ⟨b.forest.attach c root, b.count + 1, b.diagnostics⟩
      simp only [site_attach] at hrest
      rw [List.filter_cons_of_neg (by simp [hsite])]
      exact hrest.trans (((attach_perm c hn).append_right cs).trans List.perm_middle.symm)
    | none =>
      have hrest := ih ⟨b.forest, b.count, b.diagnostics ++ [.unresolvedScope c.id c.scope]⟩
      rw [List.filter_cons_of_pos (by simp [hsite])]
      exact List.perm_middle.trans ((hrest.cons c).trans List.perm_middle.symm)

end Bind

/-- What becomes of constraints when a forest without any is bound. A constraint has at most one
site, so the constraints of a list are those of each root and those without a site, each of them
once. -/
structure Conserves (f bound : Forest) (cs : List Constraint) (reports : Diagnostics) : Prop where
  /-- The site of a constraint is the root of a tree. -/
  root : ∀ c ∈ cs, ∀ root, Bind.site f c = some root → ∃ n, f.root? root = some n
  /-- Every tree stays as it is, but has the constraints whose site it is, in order. -/
  attached : ∀ root, bound.root? root = (f.root? root).map fun n =>
    ⟨{ n.head with constraints := cs.filter fun c => Bind.site f c = some root }, n.kind⟩
  /-- Those without a site are reported, in order and under their ids. -/
  reported : reports =
    (cs.filter fun c => Bind.site f c = none).map fun c => .unresolvedScope c.id c.scope
  /-- No constraint is lost or repeated. -/
  once : (bound.constraints ++ cs.filter fun c => Bind.site f c = none).Perm cs

/-- As many are attached or reported as there are. -/
theorem Conserves.length {f bound : Forest} {cs : List Constraint} {reports : Diagnostics}
    (h : Conserves f bound cs reports) :
    cs.length = bound.constraints.length + reports.length := by
  rw [← h.once.length_eq, List.length_append, h.reported, List.length_map]

theorem Conserves.notes {f bound : Forest} {cs : List Constraint} {reports : Diagnostics}
    (h : Conserves f bound cs reports) : reports.Uniform .unresolvedConstraintScope := by
  rw [h.reported]
  exact List.forall_mem_map.mpr fun _ _ => rfl

/-- **Binding neither loses nor repeats a constraint**, and changes nothing else. -/
theorem bindConstraints_conserves {f : Forest} (h : f.Unconstrained) (cs : List Constraint) :
    Conserves f (bindConstraints f cs).forest cs (bindConstraints f cs).diagnostics where
  root _ _ _ hsite := Bind.exists_root_of_site hsite
  attached root := by
    rw [root?_bindConstraints]
    refine Option.map_congr fun n hn => ?_
    unfold Node.addConstraints
    rw [(h.root hn).own, List.nil_append]
    rfl
  reported := by
    rw [bindConstraints_eq]
    rfl
  once := by
    have hperm := Bind.foldl_bindOne_perm cs ⟨f, 0, []⟩
    rwa [h.constraints_eq, List.nil_append] at hperm

/-! ## Compilations -/

namespace Compile

variable {doc : Json}

/-- The forest before binding has no constraints. -/
theorem unbound_unconstrained {f : Forest} {out : List Node} {stats : ReorderStats}
    (hload : (loadForest doc).result = .ok f)
    (horder : (orderTypes f.extract.types).result = .ok (out, stats)) :
    (⟨out, f.extract.elements⟩ : Forest).Unconstrained := by
  obtain ⟨htypes, helements⟩ := loadForest_sections hload
  have hloaded : f.Unconstrained :=
    ⟨Entry.loadSection_unconstrained htypes, Entry.loadSection_unconstrained helements⟩
  have hextracted := Forest.extract_unconstrained hloaded
  exact ⟨orderTypes_unconstrained horder hextracted.types, hextracted.elements⟩

theorem loadForest_notes {f : Forest} (h : (loadForest doc).result = .ok f) :
    (loadForest doc).diagnostics.Uniform .ignoredEntry := by
  obtain ⟨htypes, helements⟩ := loadForest_sections h
  unfold loadForest
  rw [Loaded.diagnostics_bind htypes, Loaded.diagnostics_bind helements]
  exact (Entry.loadSection_notes doc "types").append
    ((Entry.loadSection_notes doc "elements").append Diagnostics.uniform_nil)

/-- What is recorded about constraints is recorded by the last two stages. -/
theorem withCode_constraints {ignored hoisted relocated malformed unresolved : Diagnostics}
    (hignored : ignored.Uniform .ignoredEntry) (hhoisted : hoisted.Uniform .typeHoisted)
    (hrelocated : relocated.Uniform .typeRelocated)
    (hmalformed : malformed.Uniform .malformedConstraint)
    (hunresolved : unresolved.Uniform .unresolvedConstraintScope) :
    Diagnostics.withCode (ignored ++ (hoisted ++ (relocated ++ (malformed ++ unresolved))))
        .malformedConstraint = malformed ∧
      Diagnostics.withCode (ignored ++ (hoisted ++ (relocated ++ (malformed ++ unresolved))))
        .unresolvedConstraintScope = unresolved := by
  simp only [Diagnostics.withCode_append, hmalformed.withCode, hunresolved.withCode]
  constructor
  · rw [hignored.withCode_of_ne (by decide), hhoisted.withCode_of_ne (by decide),
      hrelocated.withCode_of_ne (by decide), hunresolved.withCode_of_ne (by decide)]
    simp
  · rw [hignored.withCode_of_ne (by decide), hhoisted.withCode_of_ne (by decide),
      hrelocated.withCode_of_ne (by decide), hmalformed.withCode_of_ne (by decide)]
    simp

end Compile

/-- **Constraints are conserved.** The constraints that the entries of `constraints` declare are
bound to the final types and elements: the compiled ones are the same but for their constraints,
which are those whose site they are. Every entry is attached, or recorded as malformed or as
unresolved. -/
theorem compile_conserves_constraints {validator : Option Validator} {definition : String}
    {doc : Json} {digest : Checksum} {c : Compilation} {entries : List Json}
    (h : Compile.document validator definition doc digest = .ok c)
    (hentries : doc.get? "constraints" = some (.array entries)) :
    (∃ (f : Forest) (out : List Node) (stats : ReorderStats),
      (Compile.loadForest doc).result = .ok f ∧
      (orderTypes f.extract.types).result = .ok (out, stats) ∧
      Conserves ⟨out, f.extract.elements⟩ ⟨c.data.types, c.data.elements⟩
        (Constraint.wellFormed entries) (c.diagnostics.withCode .unresolvedConstraintScope)) ∧
    entries.length = (Forest.constraints ⟨c.data.types, c.data.elements⟩).length +
      (c.diagnostics.withCode .malformedConstraint).length +
      (c.diagnostics.withCode .unresolvedConstraintScope).length := by
  obtain ⟨f, out, stats, -, hload, horder, rfl, htypes, helements, hdiagnostics⟩ :=
    Compile.document_stages h
  have hsection : Constraint.loadSection doc = Constraint.ofEntries 0 entries := by
    unfold Constraint.loadSection
    rw [hentries]
  rw [hsection, Constraint.ofEntries_eq_wellFormed] at htypes helements hdiagnostics
  have hconserves := bindConstraints_conserves (Compile.unbound_unconstrained hload horder)
    (Constraint.wellFormed entries)
  obtain ⟨hmalformed, hunresolved⟩ := Compile.withCode_constraints (Compile.loadForest_notes hload)
    f.plan.diagnostics_notes (orderTypes_notes f.extract.types)
    (Constraint.ofEntries_notes entries 0) hconserves.notes
  rw [← hdiagnostics] at hmalformed hunresolved
  rw [hmalformed, hunresolved, htypes, helements]
  refine ⟨⟨f, out, stats, hload, horder, hconserves⟩, ?_⟩
  rw [Constraint.ofEntries_length entries 0, hconserves.length, Nat.add_right_comm]

namespace Sample

/-- A demand that the values of a field are unique. -/
def unique (id scope field : String) : Json := .object [("unique", .bool true),
  ("id", .string id), ("scope", .string scope), ("field", .string field)]

/-- Two demands on the parcels, one on their codes, one that demands nothing, and one out of
place. -/
def demands : List Json := [unique "codes" "/parcels" "code", .object [("id", .string "none")],
  unique "weights" "/parcels" "weight", unique "inner" "/parcels/code" "digit",
  unique "lost" "/letters" "code"]

/-- A list of parcels. -/
def parcels : Json := .object [
  ("types", .object [("Parcel", .object [("type", .string "object"), ("properties", .object [
    ("code", .object [("type", .string "string")]),
    ("weight", .object [("type", .string "int")])])])]),
  ("elements", .object [("parcels", .object [("type", .string "array"),
    ("items", .object [("$ref", .string "#/types/Parcel")])])]),
  ("constraints", .array demands)]

end Sample

/-- Three of the five demands are found again at a type and an element. -/
theorem compile_conserves_constraints_parcels :
    Sample.parcels.get? "constraints" = some (.array Sample.demands) ∧
    ∃ c, Compile.document none "parcels.yaml" Sample.parcels (Checksum.ofBytes []) = .ok c ∧
      (Forest.constraints ⟨c.data.types, c.data.elements⟩).map (·.id) =
        ["inner", "codes", "weights"] ∧
      5 = 3 + (c.diagnostics.withCode .malformedConstraint).length +
        (c.diagnostics.withCode .unresolvedConstraintScope).length := by
  have hids : (Compile.document none "parcels.yaml" Sample.parcels
      (Checksum.ofBytes [])).toOption.map (fun c =>
        (Forest.constraints ⟨c.data.types, c.data.elements⟩).map (·.id)) =
          some ["inner", "codes", "weights"] := by
    decide +kernel
  obtain ⟨c, hc, hids⟩ := Option.map_eq_some_iff.mp hids
  have hcompiles := Except.eq_ok_of_toOption hc
  have hentries : Sample.parcels.get? "constraints" = some (.array Sample.demands) := rfl
  have hattached := congrArg List.length hids
  rw [List.length_map] at hattached
  obtain ⟨-, hcount⟩ := compile_conserves_constraints hcompiles hentries
  rw [hattached] at hcount
  exact ⟨hentries, c, hcompiles, hids, hcount⟩

end Schemata
