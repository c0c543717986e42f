import Schemata.Diagnostic.Basic
import Schemata.Error

/-!
# Loading with diagnostics

What loading a part of a schema comes to: a value or an error, and in either case the diagnostics
recorded on the way. Steps follow one another until one fails; diagnostics add up in order.
-/

namespace Schemata

/-- A value or an error, with the diagnostics recorded until then. -/
structure Loaded (α : Type) where
  /-- The value, or why there is none. -/
  result : Except SchemaError α
  /-- What was recorded. -/
  diagnostics : Diagnostics

namespace Loaded

/-- A value with nothing to record. -/
def value {α : Type} (a : α) : Loaded α := ⟨.ok a, []⟩

/-- A failure with nothing to record. -/
def fail {α : Type} (e : SchemaError) : Loaded α := ⟨.error e, []⟩

/-- A step without diagnostics. -/
def lift {α : Type} (r : Except SchemaError α) : Loaded α := ⟨r, []⟩

/-- One diagnostic. -/
def record (d : Diagnostic) : Loaded Unit := ⟨.ok (), [d]⟩

/-- A step and, if it succeeds, the next one. -/
def andThen {α β : Type} (x : Loaded α) (f : α → Loaded β) : Loaded β :=
  match x.result with
  | .error e => ⟨.error e, x.diagnostics⟩
  | .ok a =>
    let next := f a
    ⟨next.result, x.diagnostics ++ next.diagnostics⟩

instance : Monad Loaded where
  pure := value
  bind := andThen

end Loaded

end Schemata
