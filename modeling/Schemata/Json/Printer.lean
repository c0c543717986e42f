import Schemata.Json.Basic

/-!
# The text of a document

Documents are written without spaces (`Json.compact`) or laid out over lines with two spaces per
level (`Json.pretty`). Texts escape the quote, the backslash and the control characters below
space, and nothing else.
-/

namespace Schemata

namespace Json

/-- The lower-case hexadecimal digit of a number below sixteen. -/
def hexDigit (n : Nat) : Char :=
  Char.ofNat (if n < 10 then '0'.toNat + n else 'a'.toNat + (n - 10))

/-- One character inside quotes. -/
def escapeChar (c : Char) : List Char :=
  if c = '"' then ['\\', '"']
  else if c = '\\' then ['\\', '\\']
  else if c = '\n' then ['\\', 'n']
  else if c = '\r' then ['\\', 'r']
  else if c = '\t' then ['\\', 't']
  else if c = '\x08' then ['\\', 'b']
  else if c = '\x0c' then ['\\', 'f']
  else if c.toNat < 0x20 then
    ['\\', 'u', '0', '0', hexDigit (c.toNat / 16), hexDigit (c.toNat % 16)]
  else [c]

/-- A text in quotes. -/
def quote (text : String) : String :=
  String.ofList ('"' :: text.toList.flatMap escapeChar ++ ['"'])

mutual
/-- The document on one line, without spaces. -/
def compact : Json → String
  | .null => "null"
  | .bool b => if b then "true" else "false"
  | .number n => n.render
  | .string s => quote s
  | .array items => "[" ++ compactItems items ++ "]"
  | .object members => "\x7b" ++ compactMembers members ++ "\x7d"
/-- Items with commas between them. -/
def compactItems : List Json → String
  | [] => ""
  | [a] => compact a
  | a :: b :: rest => compact a ++ "," ++ compactItems (b :: rest)
/-- Members with commas between them. -/
def compactMembers : List (String × Json) → String
  | [] => ""
  | [(k, a)] => quote k ++ ":" ++ compact a
  | (k, a) :: b :: rest => quote k ++ ":" ++ compact a ++ "," ++ compactMembers (b :: rest)
end

/-- A line break and the margin of a nesting level. -/
def lineBreak (level : Nat) : String := String.ofList ('\n' :: List.replicate (2 * level) ' ')

mutual
/-- The document over several lines, its own brackets at the margin of `level`. -/
def prettyAt (level : Nat) : Json → String
  | .null => "null"
  | .bool b => if b then "true" else "false"
  | .number n => n.render
  | .string s => quote s
  | .array [] => "[]"
  | .array (a :: rest) =>
    "[" ++ prettyItems (level + 1) (a :: rest) ++ lineBreak level ++ "]"
  | .object [] => "\x7b\x7d"
  | .object (m :: rest) =>
    "\x7b" ++ prettyMembers (level + 1) (m :: rest) ++ lineBreak level ++ "\x7d"
/-- Items, each on lines of its own. -/
def prettyItems (level : Nat) : List Json → String
  | [] => ""
  | [a] => lineBreak level ++ prettyAt level a
  | a :: b :: rest => lineBreak level ++ prettyAt level a ++ "," ++ prettyItems level (b :: rest)
/-- Members, each on lines of its own. -/
def prettyMembers (level : Nat) : List (String × Json) → String
  | [] => ""
  | [(k, a)] => lineBreak level ++ quote k ++ ": " ++ prettyAt level a
  | (k, a) :: b :: rest =>
    lineBreak level ++ quote k ++ ": " ++ prettyAt level a ++ "," ++
      prettyMembers level (b :: rest)
end

/-- The document over several lines, two spaces per level, without a final line break. -/
def pretty (a : Json) : String := prettyAt 0 a

end Json

end Schemata
