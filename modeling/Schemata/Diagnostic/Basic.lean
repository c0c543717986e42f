/-!
# Diagnostics

Problems and notes that a compilation survives. A diagnostic has a code, the code has a severity,
and a report (`format`) lists the diagnostics from some severity upwards.
-/

namespace Schemata

/-- How much a diagnostic matters. -/
inductive Severity where
  /-- A note. -/
  | info
  /-- A problem. -/
  | warning
deriving DecidableEq, Inhabited

namespace Severity

/-- The word for a severity. -/
def name : Severity → String
  | .info => "info"
  | .warning => "warning"

/-- Whether a severity reaches a threshold. -/
def atLeast (s threshold : Severity) : Bool := s = .warning || threshold = .info

end Severity

/-- What a diagnostic reports. -/
inductive DiagnosticCode where
  /-- A constraint entry lacks keys or has no known rule. -/
  | malformedConstraint
  /-- The scope of a constraint names neither an element nor a field. -/
  | unresolvedConstraintScope
  /-- An entry is no type and was skipped. -/
  | ignoredEntry
  /-- A type was moved in front of a dependent. -/
  | typeRelocated
  /-- A nested type became a top-level one. -/
  | typeHoisted
deriving DecidableEq, Inhabited

namespace DiagnosticCode

/-- Every code. -/
def all : List DiagnosticCode :=
  [.malformedConstraint, .unresolvedConstraintScope, .ignoredEntry, .typeRelocated, .typeHoisted]

/-- The short form in reports. -/
def label : DiagnosticCode → String
  | .malformedConstraint => "W001"
  | .unresolvedConstraintScope => "W002"
  | .ignoredEntry => "I001"
  | .typeRelocated => "I002"
  | .typeHoisted => "I003"

/-- The full name in documents. -/
def name : DiagnosticCode → String
  | .malformedConstraint => "MalformedConstraint"
  | .unresolvedConstraintScope => "UnresolvedConstraintScope"
  | .ignoredEntry => "IgnoredEntry"
  | .typeRelocated => "TypeRelocated"
  | .typeHoisted => "TypeHoisted"

/-- The code of a full name. -/
def ofName? (name : String) : Option DiagnosticCode := all.find? (·.name = name)

/-- The severity of a code. -/
def severity : DiagnosticCode → Severity
  | .malformedConstraint | .unresolvedConstraintScope => .warning
  | .ignoredEntry | .typeRelocated | .typeHoisted => .info

end DiagnosticCode

/-- One diagnostic. -/
structure Diagnostic where
  /-- What it is about: the name of a type or of a constraint. -/
  subject : String
  /-- What it reports. -/
  code : DiagnosticCode
  /-- The sentence for the reader. -/
  message : String
  /-- Further lines: paths and positions. -/
  context : List String
deriving DecidableEq, Inhabited

namespace Diagnostic

/-- A constraint entry that could not be read. -/
def malformed (id reason : String) : Diagnostic :=
  ⟨id, .malformedConstraint, s!"failed to load constraint \"{id}\": {reason}", []⟩

/-- A constraint whose scope names nothing. -/
def unresolvedScope (id scope : String) : Diagnostic :=
  ⟨id, .unresolvedConstraintScope, s!"constraint scope \"{scope}\" not found",
    [s!"constraint: {id}"]⟩

/-- An entry that is no type. -/
def ignored (place name : String) : Diagnostic :=
  ⟨name, .ignoredEntry, s!"entry \"{name}\" in {place} is not a type and was skipped", []⟩

/-- A type moved from one index to another. -/
def relocated (name : String) (source target : Nat) : Diagnostic :=
  ⟨name, .typeRelocated, s!"moving {name} from {source} to {target}", []⟩

/-- A new top-level type, and where its first node stands. -/
def hoisted (name origin : String) : Diagnostic :=
  ⟨name, .typeHoisted, s!"hoisted nested type \"{name}\"", [s!"declared at: {origin}"]⟩

/-- How much the diagnostic matters. -/
def severity (d : Diagnostic) : Severity := d.code.severity

/-- The diagnostic as a reader sees it. -/
def render (d : Diagnostic) : String :=
  s!"[{d.code.label}] {d.severity.name}: {d.message} ({d.subject})" ++
    String.join (d.context.map fun line => "\n  - " ++ line)

end Diagnostic

/-- Diagnostics in the order in which they arose. -/
abbrev Diagnostics := List Diagnostic

namespace Diagnostics

/-- Those that are problems. -/
def warnings (ds : Diagnostics) : Diagnostics := ds.filter (·.severity = .warning)

/-- Those with a given code. -/
def withCode (ds : Diagnostics) (code : DiagnosticCode) : Diagnostics :=
  ds.filter (·.code = code)

/-- A report of all diagnostics from a threshold upwards; problems are counted at the end. -/
def report (ds : Diagnostics) (threshold : Severity) : String :=
  let lines := ds.filter (·.severity.atLeast threshold)
  let problems := ds.warnings.length
  String.join (lines.map fun d => d.render ++ "\n") ++
    if problems > 0 then s!"\n{problems} warning(s)\n" else ""

end Diagnostics

end Schemata
