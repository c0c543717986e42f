import Schemata.Yaml.Literal
import Schemata.Yaml.Token.Lexer
import Schemata.Yaml.Tree.Grammar

/-!
# Reading YAML

A text becomes tokens, the tokens a tree, and the tree a document value. On the last step aliases
are replaced by what they stand for. That a document may then be much larger than its text is kept
within bounds: containers nest at most 128 deep, and aliases are followed at most a hundred times
as often as the tree has nodes.

* `Yaml.read?` reads any document, and an empty text as the absent value;
* `Yaml.readMapping?` reads a mapping, and an empty text as the empty one.
-/

namespace Schemata

namespace Yaml

/-! ## Expansion -/

/-- A step of an expansion: how often aliases may still be followed is carried along. -/
abbrev Expand := StateT Nat Option

namespace Tree

/-- How deep containers may nest. -/
def depthLimit : Nat := 128

/-- How often aliases may be followed in all. -/
def aliasLimit (t : Tree) : Nat := 100 * t.size

/-- The node that an alias stands for; any other node stands for itself. -/
def follow (table : List (Nat × Tree)) : Tree → Expand Tree
  | .aliasTo number => do
    match ← get with
    | 0 => failure
    | left + 1 =>
      set left
      match table.reverse.lookup number with
      | some t => return t
      | none => failure
  | t => return t

/-- Whether properties carry a tag that is not a standard one. -/
def hasLocalTag (p : Properties) : Bool :=
  match p.tag with
  | some tag => tag.toList.head? = some '!'
  | none => false

/-- The value of a scalar. -/
def valueOf? (p : Properties) (isPlain : Bool) (text : String) : Option Json :=
  match p.tag with
  | some tag => if hasLocalTag p then none else Literal.ofTagged? tag text
  | none => if isPlain then Literal.ofPlain? text else some (.string text)

/-- The text of a key: that of a scalar, as it is written. -/
def keyText (table : List (Nat × Tree)) (t : Tree) : Expand String := do
  match ← follow table t with
  | .scalar _ _ text => return text
  | _ => failure

/-- The members of a mapping, given what its values come to; a repeated key takes the last value. -/
def expandPairs (table : List (Nat × Tree)) (value : Tree → Expand Json)
    (pairs : List (Tree × Tree)) : Expand (List (String × Json)) := do
  let members ← pairs.mapM fun (k, v) => do return (← keyText table k, ← value v)
  return Json.ofPairs members

/-- The value of a node, with so many levels of containers allowed. -/
def expand (table : List (Nat × Tree)) (depth : Nat) (t : Tree) : Expand Json := do
  match ← follow table t, depth with
  | .scalar p isPlain text, _ => (valueOf? p isPlain text : Option Json)
  | .sequence p items, depth + 1 =>
    if hasLocalTag p then failure else return .array (← items.mapM (expand table depth))
  | .mapping p pairs, depth + 1 =>
    if hasLocalTag p then failure
    else return .object (← expandPairs table (expand table depth) pairs)
  | _, _ => failure

/-- The value of a document. -/
def toJson? (t : Tree) : Option Json :=
  ((expand t.anchored depthLimit t).run t.aliasLimit).map (·.1)

/-- The members of a document that is a mapping, whatever its tag. An empty plain scalar is the
empty mapping. -/
def toMembers? (t : Tree) : Option (List (String × Json)) :=
  match t with
  | .mapping _ pairs =>
    let value := expand t.anchored (depthLimit - 1)
    ((expandPairs t.anchored value pairs).run t.aliasLimit).map (·.1)
  | .scalar _ true "" => some []
  | _ => none

end Tree

/-! ## Texts -/

/-- The tree of a text; nothing inside for a text without a document. -/
def tree? (text : List Char) : Option (Option Tree) :=
  if text.all isPermitted then (Token.ofText? (unifyBreaks text)).bind Tree.ofTokens? else none

/-- The value of a text. -/
def ofText? (text : String) : Option Json :=
  match tree? text.toList with
  | none => none
  | some none => some .null
  | some (some t) => t.toJson?

/-- The value of the bytes of a text. -/
def read? (bytes : List UInt8) : Option Json :=
  (String.fromUTF8? ⟨bytes.toArray⟩).bind ofText?

/-- The members of a text that spells a mapping. -/
def readMapping? (text : String) : Option (List (String × Json)) :=
  match tree? text.toList with
  | none => none
  | some none => some []
  | some (some t) => t.toMembers?

end Yaml

end Schemata
