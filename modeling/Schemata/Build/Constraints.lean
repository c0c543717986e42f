import Schemata.Diagnostic.Basic
import Schemata.Model.Constraint

/-!
# The constraints of a document

The `constraints` section is a sequence (`load_constraints`). Entries that declare no constraint
(`from_entry`) are skipped and recorded under their id, or under their position when they have none.
-/

namespace Schemata

namespace Constraint

/-- The name under which a bad entry is recorded. -/
def entryId (index : Nat) (entry : Json) : String :=
  match (entry.get? "id").bind Json.string? with
  | some id => id
  | none => s!"#{index}"

/-- The constraints of the entries from position `index` on, and what was recorded. -/
def ofEntries (index : Nat) : List Json → List Constraint × Diagnostics
  | [] => ([], [])
  | entry :: rest =>
    let (constraints, diagnostics) := ofEntries (index + 1) rest
    match ofEntry entry with
    | .ok c => (c :: constraints, diagnostics)
    | .error defect =>
      (constraints, .malformed (entryId index entry) defect.message :: diagnostics)

/-- The constraints that a document declares, and what was recorded. -/
def loadSection (document : Json) : List Constraint × Diagnostics :=
  match document.get? "constraints" with
  | none | some .null => ([], [])
  | some (.array entries) => ofEntries 0 entries
  | some _ => ([], [.malformed "constraints" "section must be a sequence"])

end Constraint

end Schemata
