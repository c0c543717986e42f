import Schemata.Toml.Quoted
import Schemata.Toml.Scalar

/-!
# Reading TOML

A file is a list of statements, one a line: a pair of a key and a value, the header of a table, the
header of an item in an array of tables. Values in brackets may run over lines, those in braces not.

`Toml.parse?` reads a file, and answers nothing for one that is wrong.
-/

namespace Schemata

namespace Toml

/-- A statement of a file. -/
inductive Statement where
  /-- A pair: the parts of the key in front of the last one, the last one, and the value. -/
  | pair (path : List String) (key : String) (v : Value)
  /-- The header of a table. -/
  | table (path : List String) (key : String)
  /-- The header of an item in an array of tables. -/
  | item (path : List String) (key : String)

namespace Reader

/-! ## Between values -/

/-- The text without blanks in front. -/
def skipBlanks (text : List Char) : List Char := text.dropWhile Quoted.isBlank

/-- The text without a comment in front, up to the end of the line; nothing for a comment with a
character that may not stand in it. -/
def skipComment? : List Char → Option (List Char)
  | '#' :: rest =>
    if (rest.takeWhile (· ≠ '\n')).all Quoted.isPermitted then some (rest.dropWhile (· ≠ '\n'))
    else none
  | text => some text

/-- The text behind the end of the line, with only blanks and a comment in front of it. -/
def endOfLine? (text : List Char) : Option (List Char) := do
  match ← skipComment? (skipBlanks text) with
  | [] => some []
  | '\n' :: rest => some rest
  | _ => none

/-- The text without blanks, breaks and comments in front. -/
def skipGap? : Nat → List Char → Option (List Char)
  | 0, text => some text
  | fuel + 1, text =>
    match text.dropWhile (fun c => Quoted.isBlank c || c = '\n') with
    | '#' :: rest => (skipComment? ('#' :: rest)).bind (skipGap? fuel)
    | text => some text

/-! ## Keys -/

/-- A character of a key without quotes. -/
def isBare (c : Char) : Bool := c.isAlphanum || c = '-' || c = '_'

/-- One part of a key, and what follows. -/
def keyPart? : List Char → Option (String × List Char)
  | '"' :: rest => (Quoted.basic rest).map fun (text, rest) => (String.ofList text, rest)
  | '\'' :: rest => (Quoted.literal rest).map fun (text, rest) => (String.ofList text, rest)
  | text =>
    let word := text.takeWhile isBare
    if word.isEmpty then none else some (String.ofList word, text.dropWhile isBare)

/-- A key: the parts in front of the last one, the last one, and what follows. -/
def key? : Nat → List Char → Option (List String × String × List Char)
  | 0, _ => none
  | fuel + 1, text => do
    let (part, rest) ← keyPart? (skipBlanks text)
    match skipBlanks rest with
    | '.' :: rest =>
      let (path, key, rest) ← key? fuel rest
      return (part :: path, key, rest)
    | rest => return ([], part, rest)

/-! ## Values -/

/-- Whether a character ends a word. -/
def endsWord (c : Char) : Bool :=
  Quoted.isBlank c || c = '\n' || c = ',' || c = ']' || c = '\x7d' || c = '#'

/-- An unquoted value, and what follows. -/
def word? (text : List Char) : Option (Value × List Char) :=
  let word := text.takeWhile fun c => !endsWord c
  let rest := text.dropWhile fun c => !endsWord c
  let joined : Option (Value × List Char) :=
    match rest with
    | ' ' :: more =>
      (Scalar.joinTime? word (more.takeWhile fun c => !endsWord c)).map fun v =>
        (v, more.dropWhile fun c => !endsWord c)
    | _ => none
  joined.or ((Scalar.ofWord? word).map fun v => (v, rest))

mutual
/-- A value, and what follows. -/
def value? : Nat → List Char → Option (Value × List Char)
  | 0, _ => none
  | fuel + 1, text =>
    match text with
    | '[' :: rest => (items? fuel rest).map fun (items, rest) => (.array items, rest)
    | '\x7b' :: rest =>
      match skipBlanks rest with
      | '\x7d' :: rest => some (.table .inlined [], rest)
      | rest =>
        (pairs? fuel [] rest).map fun (members, rest) => (.table .inlined members, rest)
    | '"' :: _ | '\'' :: _ =>
      (Quoted.value? text).map fun (s, rest) => (.text (String.ofList s), rest)
    | text => word? text
/-- The items up to the closing bracket, and what follows. A comma may stand behind the last. -/
def items? : Nat → List Char → Option (List Value × List Char)
  | 0, _ => none
  | fuel + 1, text => do
    match ← skipGap? text.length text with
    | ']' :: rest => return ([], rest)
    | text =>
      let (v, rest) ← value? fuel text
      match ← skipGap? rest.length rest with
      | ',' :: rest =>
        let (items, rest) ← items? fuel rest
        return (v :: items, rest)
      | ']' :: rest => return ([v], rest)
      | _ => none
/-- Members with the pairs up to the closing brace added, and what follows. -/
def pairs? : Nat → Members → List Char → Option (Members × List Char)
  | 0, _, _ => none
  | fuel + 1, members, text => do
    let (path, key, rest) ← key? text.length text
    match rest with
    | '=' :: rest =>
      let (v, rest) ← value? fuel (skipBlanks rest)
      let members ← addPair path key v .header members
      match skipBlanks rest with
      | ',' :: rest => pairs? fuel members rest
      | '\x7d' :: rest => return (members, rest)
      | _ => none
    | _ => none
end

/-! ## Statements -/

/-- The statement at the start of a line, and what follows on the line. -/
def statement? (text : List Char) : Option (Statement × List Char) := do
  match text with
  | '[' :: '[' :: rest =>
    let (path, key, rest) ← key? rest.length rest
    match rest with
    | ']' :: ']' :: rest => return (.item path key, rest)
    | _ => none
  | '[' :: rest =>
    let (path, key, rest) ← key? rest.length rest
    match rest with
    | ']' :: rest => return (.table path key, rest)
    | _ => none
  | text =>
    let (path, key, rest) ← key? text.length text
    match rest with
    | '=' :: rest =>
      let (v, rest) ← value? (2 * rest.length + 2) (skipBlanks rest)
      return (.pair path key v, rest)
    | _ => none

/-- The statements of a file. Every one takes a line at least, so that many steps are enough. -/
def statements? : Nat → List Char → Option (List Statement)
  | 0, _ => some []
  | fuel + 1, text => do
    match ← skipGap? text.length text with
    | [] => return []
    | text =>
      let (s, rest) ← statement? text
      return s :: (← statements? fuel (← endOfLine? rest))

/-- The file after a statement, and the path of the current header. -/
def addStatement? (state : Members × List String) (s : Statement) : Option (Members × List String) :=
  let (root, current) := state
  match s with
  | .pair path key v => (addUnder current path key v root).map fun root => (root, current)
  | .table path key => (openTable path key root).map fun root => (root, path ++ [key])
  | .item path key => (openItem path key root).map fun root => (root, path ++ [key])

/-- A text with every new line written as a single line feed. -/
def unifyBreaks : List Char → List Char
  | '\r' :: '\n' :: rest => '\n' :: unifyBreaks rest
  | c :: rest => c :: unifyBreaks rest
  | [] => []

/-- A text without a byte order mark in front. -/
def dropMark : List Char → List Char
  | '\ufeff' :: rest => rest
  | text => text

end Reader

/-- The values of a file. -/
def parse? (text : String) : Option Members := do
  let text := Reader.unifyBreaks (Reader.dropMark text.toList)
  let statements ← Reader.statements? (text.length + 1) text
  let (root, _) ← statements.foldlM Reader.addStatement? ([], [])
  return root

end Toml

end Schemata
