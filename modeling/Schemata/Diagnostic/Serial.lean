import Schemata.Diagnostic.Basic
import Schemata.Json.Basic

/-!
# Diagnostics as document values

A collection is written as a mapping with the one key `items`. Reading it back takes mappings with
further keys, and also takes the members of a mapping as a sequence in their order.
-/

namespace Schemata

namespace Diagnostic

/-- The diagnostic as a document value; an empty context is left out. -/
def toJson (d : Diagnostic) : Json :=
  .object ([("subject", .string d.subject), ("code", .string d.code.name),
    ("message", .string d.message)] ++
    if d.context.isEmpty then [] else [("context", .strings d.context)])

/-- The code that a document value names: a text, or a mapping from it to nothing. -/
def codeOf? : Json → Option DiagnosticCode
  | .string s => DiagnosticCode.ofName? s
  | .object [(s, .null)] => DiagnosticCode.ofName? s
  | _ => none

/-- A sequence of texts. -/
def textsOf? (value : Json) : Option (List String) := value.items?.bind (·.mapM Json.string?)

/-- The diagnostic made of three values and perhaps a fourth. -/
def ofParts? (subject code message : Json) (context : Option Json) : Option Diagnostic := do
  let subject ← subject.string?
  let code ← codeOf? code
  let message ← message.string?
  match context with
  | none => some ⟨subject, code, message, []⟩
  | some lines => (textsOf? lines).map fun context => ⟨subject, code, message, context⟩

/-- The diagnostic that a document value stands for. -/
def ofJson? : Json → Option Diagnostic
  | .object members => do
    ofParts? (← members.lookup "subject") (← members.lookup "code") (← members.lookup "message")
      (members.lookup "context")
  | .array [subject, code, message] => ofParts? subject code message none
  | .array [subject, code, message, context] => ofParts? subject code message (some context)
  | _ => none

end Diagnostic

namespace Diagnostics

/-- The collection as a document value. -/
def toJson (ds : Diagnostics) : Json := .object [("items", .array (ds.map Diagnostic.toJson))]

/-- The collection that a document value stands for. -/
def ofJson? (value : Json) : Option Diagnostics :=
  let items := match value with
    | .object members => members.lookup "items"
    | .array [items] => some items
    | _ => none
  (items.bind Json.items?).bind (·.mapM Diagnostic.ofJson?)

end Diagnostics

end Schemata
