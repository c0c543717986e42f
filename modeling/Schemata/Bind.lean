import Schemata.Diagnostic.Basic
import Schemata.Extract.Apply

/-!
# Binding constraints

The last segment of a constraint's scope (`scope_name`) names an element, by its name or its label,
or else a field of some object type. The constraint is attached to the first such element, or else
to the first type that owns such a field; a scope that names neither is reported. `bindConstraints`
(`bind_constraints`) does so for one constraint after the other.
-/

namespace Schemata

namespace Bind

/-- A list of nodes with the constraint attached to the first that satisfies the test. -/
def attachFirst (test : Node → Bool) (c : Constraint) : List Node → Option (List Node)
  | [] => none
  | n :: rest =>
    if test n then some (n.addConstraint c :: rest)
    else (attachFirst test c rest).map (n :: ·)

/-- Whether an element is named by a scope. -/
def namesElement (name : String) (n : Node) : Bool := n.name = name || n.label = name

/-- Whether a type owns a field named by a scope. -/
def ownsField (name : String) (n : Node) : Bool :=
  match n.fields? with
  | some fields => fields.any (·.name = name)
  | none => false

/-- What binding comes to. -/
structure Bound where
  /-- The forest with constraints attached. -/
  forest : Forest
  /-- How many constraints were attached. -/
  count : Nat
  /-- Scopes that name nothing. -/
  diagnostics : Diagnostics

/-- One constraint. -/
def bindOne (b : Bound) (c : Constraint) : Bound :=
  match attachFirst (namesElement c.scopeName) c b.forest.elements with
  | some elements => ⟨{ b.forest with elements := elements }, b.count + 1, b.diagnostics⟩
  | none =>
    match attachFirst (ownsField c.scopeName) c b.forest.types with
    | some types => ⟨{ b.forest with types := types }, b.count + 1, b.diagnostics⟩
    | none => ⟨b.forest, b.count, b.diagnostics ++ [.unresolvedScope c.id c.scope]⟩

end Bind

/-- The forest with constraints attached in order. -/
def bindConstraints (f : Forest) (constraints : List Constraint) : Bind.Bound :=
  constraints.foldl Bind.bindOne ⟨f, 0, []⟩

end Schemata
