import Schemata.Build.Leaf

/-!
# Overrides at a reference site

A reference site may set some attributes of the node that it stands for: description, metadata,
default, and the bounds of the kind. What it does not set stays as the target has it
(`apply_overrides`).
-/

namespace Schemata

/-- The override where there is one, else what was there. -/
def keep {α : Type} (override old : Option α) : Option α := override.or old

/-- A leaf kind with the attributes that a site sets. -/
def Leaf.override (name : String) (site : Props) : Leaf → Except SchemaError Leaf
  | .integer s => do
    let base ← site.base? name
    let min ← site.number? name "min"
    let max ← site.number? name "max"
    return .integer ⟨base.getD s.base, keep (site.value? "default") s.default, keep min s.min,
      keep max s.max⟩
  | .float s => do
    let min ← site.number? name "min"
    let max ← site.number? name "max"
    return .float ⟨keep (site.value? "default") s.default, keep min s.min, keep max s.max⟩
  | .boolean d =>
    .ok (.boolean (match site.value? "default" with
      | some v => v.asBool?
      | none => d))
  | .string s => do
    let pattern ← site.text? name "pattern"
    let min ← site.count? name "min"
    let max ← site.count? name "max"
    return .string ⟨keep (site.value? "default") s.default, keep pattern s.pattern,
      keep min s.min, keep max s.max⟩
  | .enum s => .ok (.enum { s with default := keep (site.value? "default") s.default })

/-- A kind with the attributes that a site sets; members are always those of the target. -/
def Kind.override (name : String) (site : Props) : Kind → Except SchemaError Kind
  | .leaf spec => (spec.override name site).map .leaf
  | .array item s => do
    let min ← site.countOr? name "minItems" "min"
    let max ← site.countOr? name "maxItems" "max"
    return .array item ⟨s.itemName, keep (site.value? "default") s.default, keep min s.minItems,
      keep max s.maxItems⟩
  | .dictionary key value d => .ok (.dictionary key value (keep (site.value? "default") d))
  | .object fields d => .ok (.object fields (keep (site.value? "default") d))

/-- The node that a reference site named `name` stands for, given the node of its target. -/
def Node.atSite (name : String) (site : Props) (target : Node) : Except SchemaError Node := do
  let description ← site.text? name "description"
  let xml ← if site.has "xml" then site.xml name else .ok target.head.xml
  let kind ← target.kind.override name site
  return ⟨{ target.head with
      label := name
      isRef := true
      description := description.getD target.head.description
      xml := xml }, kind⟩

end Schemata
