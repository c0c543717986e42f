import Schemata.Build.Constraints
import Schemata.Extract.Apply
import Schemata.Order.Basic
import Schemata.Proofs.Build.Failures

/-!
# What each stage records

Every stage has a code of its own for what it records: entries that were left out, definitions that
were made, types that were moved, constraints that could not be read, scopes that name nothing. So
the diagnostics of one code are those of one stage.

Results:
* `Entry.loadSection_notes`, `Plan.diagnostics_notes`, `orderTypes_notes`: the codes of the stages.
* `Constraint.ofEntries_notes`: entries that are no constraints are recorded as malformed.
* `Constraint.ofEntries_length`: every entry is a constraint or is recorded.
-/

namespace Schemata

/-! ## Diagnostics of one code -/

namespace Diagnostics

/-- Diagnostics that all have one code. -/
def Uniform (ds : Diagnostics) (code : DiagnosticCode) : Prop := ∀ d ∈ ds, d.code = code

variable {ds es : Diagnostics} {code other : DiagnosticCode}

theorem uniform_nil : Uniform [] code := fun _ hd => absurd hd List.not_mem_nil

theorem Uniform.append (hds : ds.Uniform code) (hes : Uniform es code) : Uniform (ds ++ es) code :=
  List.forall_mem_append.mpr ⟨hds, hes⟩

theorem withCode_append (ds es : Diagnostics) (code : DiagnosticCode) :
    withCode (ds ++ es) code = ds.withCode code ++ es.withCode code :=
  List.filter_append ..

theorem Uniform.withCode (h : ds.Uniform code) : ds.withCode code = ds :=
  List.filter_eq_self.mpr fun d hd => decide_eq_true (h d hd)

theorem Uniform.withCode_of_ne (h : ds.Uniform code) (hne : code ≠ other) :
    ds.withCode other = [] :=
  List.filter_eq_nil_iff.mpr fun d hd heq => hne ((h d hd).symm.trans (of_decide_eq_true heq))

end Diagnostics

open Diagnostics

/-! ## Types -/

/-- Recording nothing but entries that are left out. -/
theorem ignoring_stepwise : Loaded.Stepwise fun _ x => x.diagnostics.Uniform .ignoredEntry where
  value _ := uniform_nil
  lift _ := uniform_nil
  cyclic _ := uniform_nil
  invalid _ := uniform_nil
  ignored _ _ := List.forall_mem_singleton.mpr rfl
  andThen := fun {_ _ x _} hx hf => by
    obtain ⟨r, d⟩ := x
    cases r with
    | error e => exact hx
    | ok a => exact hx.append (hf a)

/-- **Loading a section records entries that are left out.** -/
theorem Entry.loadSection_notes (document : Json) (name : String) :
    (loadSection document name).diagnostics.Uniform .ignoredEntry :=
  loadSection_stepwise ignoring_stepwise document name

/-- **Extraction records the definitions that it makes.** -/
theorem Plan.diagnostics_notes (p : Plan) : p.diagnostics.Uniform .typeHoisted :=
  List.forall_mem_map.mpr fun _ _ => rfl

/-- **Ordering records the types that it moves.** -/
theorem orderTypes_notes (types : List Node) :
    (orderTypes types).diagnostics.Uniform .typeRelocated := by
  unfold orderTypes
  simp only
  split
  · exact uniform_nil
  · exact List.forall_mem_map.mpr fun _ _ => rfl

/-! ## Constraints -/

namespace Constraint

/-- The constraints that the entries of a section declare, in order. -/
def wellFormed (entries : List Json) : List Constraint :=
  entries.filterMap fun entry => (ofEntry entry).toOption

theorem ofEntries_eq_wellFormed (entries : List Json) (index : Nat) :
    (ofEntries index entries).1 = wellFormed entries := by
  induction entries generalizing index with
  | nil => rfl
  | cons entry rest ih =>
    rw [ofEntries, wellFormed, List.filterMap_cons]
    cases ofEntry entry with
    | error defect => exact ih (index + 1)
    | ok c => exact congrArg (c :: ·) (ih (index + 1))

/-- **Entries that are no constraints are recorded as malformed.** -/
theorem ofEntries_notes (entries : List Json) (index : Nat) :
    (ofEntries index entries).2.Uniform .malformedConstraint := by
  induction entries generalizing index with
  | nil => exact uniform_nil
  | cons entry rest ih =>
    rw [ofEntries]
    cases ofEntry entry with
    | error defect => exact List.forall_mem_cons.mpr ⟨rfl, ih (index + 1)⟩
    | ok c => exact ih (index + 1)

/-- **Every entry is a constraint or is recorded.** -/
theorem ofEntries_length (entries : List Json) (index : Nat) :
    entries.length = (wellFormed entries).length + (ofEntries index entries).2.length := by
  induction entries generalizing index with
  | nil => rfl
  | cons entry rest ih =>
    rw [ofEntries, wellFormed, List.filterMap_cons, List.length_cons, ih (index + 1)]
    cases ofEntry entry with
    | error defect => exact Nat.add_assoc ..
    | ok c => exact Nat.add_right_comm ..

end Constraint

end Schemata
