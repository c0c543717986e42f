import Schemata.Yaml.Folding

/-!
# Plain scalars

A scalar without quotes ends at a colon before a gap, at a comment, at the boundary of a document,
at an indicator when it stands in brackets, and, outside of them, at a line that is not indented
deeply enough.
-/

namespace Schemata

namespace Yaml

namespace Plain

/-- What the scan has just passed. -/
inductive Place where
  /-- Content, or nothing yet. -/
  | content
  /-- Blanks on the line of the last content. -/
  | blanks
  /-- A new line and so many blanks. -/
  | line (blanks : Nat)
deriving DecidableEq

namespace Place

/-- The place after one more blank. -/
def afterBlank : Place → Place
  | .content | .blanks => .blanks
  | .line n => .line (n + 1)

/-- Whether a line that starts here is not indented deeply enough. -/
def isShallow (indent : Nat) : Place → Bool
  | .line n => n < indent
  | _ => false

end Place

/-- A flow indicator. -/
def isFlowSign (c : Char) : Bool :=
  c = ',' || c = '[' || c = ']' || c = '\x7b' || c = '\x7d'

/-- Whether a scalar cannot go on with this text, which starts with neither a blank nor a break. -/
def endsAt (inFlow : Bool) (indent : Nat) (place : Place) (text : List Char) : Bool :=
  let starts := match place with
    | .content => false
    | .blanks => text.head? = some '#'
    | .line n =>
      text.head? = some '#' || (!inFlow && n < indent) || (n = 0 && startsBoundary text)
  starts ||
    match text with
    | ':' :: rest => atGap rest
    | c :: _ => inFlow && isFlowSign c
    | [] => true

/-- Whether the text starts with a colon that must not stand here: in brackets, before an
indicator. -/
def badColon (inFlow : Bool) : List Char → Bool
  | ':' :: c :: _ => inFlow && (isFlowSign c || c = '?')
  | _ => false

/-- The pieces of a scalar, the gap behind it included, and what follows. -/
def scan (inFlow : Bool) (indent : Nat) (place : Place) :
    List Char → Option (List Piece × List Char)
  | [] => some ([], [])
  | c :: rest =>
    if isBlank c then
      if c = '\t' && place.isShallow indent then none
      else
        (scan inFlow indent place.afterBlank rest).map fun (ps, r) => (.blank c :: ps, r)
    else if isBreak c then
      (scan inFlow indent (.line 0) rest).map fun (ps, r) => (.lineBreak c :: ps, r)
    else if endsAt inFlow indent place (c :: rest) then some ([], c :: rest)
    else if badColon inFlow (c :: rest) then none
    else (scan inFlow indent .content rest).map fun (ps, r) => (.content c :: ps, r)

end Plain

end Yaml

end Schemata
