import Schemata.Text.Hex

/-!
# Quoted text in TOML

Text stands between double quotes, with escapes, or between single quotes, without; tripled quotes
let it run over several lines. Line breaks are single line feeds here.

* `Quoted.basic`, `Quoted.literal`, `Quoted.basicLines` and `Quoted.literalLines` read the four
  kinds, from behind the opening quotes;
* `Quoted.write` writes a text in the kind that needs no escapes for quotes and backslashes, where
  there is one.
-/

namespace Schemata

namespace Toml

namespace Quoted

/-! ## Reading -/

/-- A character that may stand for itself. -/
def isPermitted (c : Char) : Bool := c = '\t' || (0x20 ≤ c.toNat && c ≠ '\x7f')

/-- The character that a one-letter escape stands for. -/
def escaped? (c : Char) : Option Char :=
  match c with
  | 'b' => some '\x08'
  | 't' => some '\t'
  | 'n' => some '\n'
  | 'f' => some '\x0c'
  | 'r' => some '\r'
  | '"' => some '"'
  | '\\' => some '\\'
  | _ => none

/-- A character in front of what was read after it. -/
def push (c : Char) (found : Option (List Char × List Char)) : Option (List Char × List Char) :=
  found.map fun (text, rest) => (c :: text, rest)

/-- The text up to a double quote, and what follows. -/
def basic : List Char → Option (List Char × List Char)
  | [] => none
  | '"' :: rest => some ([], rest)
  | '\\' :: 'u' :: a :: b :: c :: d :: rest =>
    (Text.codePoint? [a, b, c, d]).bind fun e => push e (basic rest)
  | '\\' :: 'U' :: a :: b :: c :: d :: e :: f :: g :: h :: rest =>
    (Text.codePoint? [a, b, c, d, e, f, g, h]).bind fun e => push e (basic rest)
  | '\\' :: c :: rest => (escaped? c).bind fun e => push e (basic rest)
  | c :: rest => if isPermitted c then push c (basic rest) else none

/-- The text up to a single quote, and what follows. -/
def literal : List Char → Option (List Char × List Char)
  | [] => none
  | '\'' :: rest => some ([], rest)
  | c :: rest => if isPermitted c then push c (literal rest) else none

/-- A blank within a line. -/
def isBlank (c : Char) : Bool := c = ' ' || c = '\t'

/-- Whether only blanks are left on the line. -/
def endsLine (text : List Char) : Bool := (text.dropWhile isBlank).head? = some '\n'

/-- The text up to three double quotes, and what follows. Up to two quotes more in front of them
belong to the text. A backslash at the end of a line takes away all blanks and breaks behind it,
which is what `trimming` stands for. -/
def basicLines (trimming : Bool) : List Char → Option (List Char × List Char)
  | [] => none
  | '"' :: '"' :: '"' :: '"' :: '"' :: rest => some (['"', '"'], rest)
  | '"' :: '"' :: '"' :: '"' :: rest => some (['"'], rest)
  | '"' :: '"' :: '"' :: rest => some ([], rest)
  | '\\' :: 'u' :: a :: b :: c :: d :: rest =>
    (Text.codePoint? [a, b, c, d]).bind fun e => push e (basicLines false rest)
  | '\\' :: 'U' :: a :: b :: c :: d :: e :: f :: g :: h :: rest =>
    (Text.codePoint? [a, b, c, d, e, f, g, h]).bind fun e => push e (basicLines false rest)
  | '\\' :: c :: rest =>
    if endsLine (c :: rest) then basicLines true rest
    else (escaped? c).bind fun e => push e (basicLines false rest)
  | c :: rest =>
    if trimming && (isBlank c || c = '\n') then basicLines true rest
    else if isPermitted c || c = '\n' then push c (basicLines false rest)
    else none

/-- The text up to three single quotes, and what follows. Up to two quotes more in front of them
belong to the text. -/
def literalLines : List Char → Option (List Char × List Char)
  | [] => none
  | '\'' :: '\'' :: '\'' :: '\'' :: '\'' :: rest => some (['\'', '\''], rest)
  | '\'' :: '\'' :: '\'' :: '\'' :: rest => some (['\''], rest)
  | '\'' :: '\'' :: '\'' :: rest => some ([], rest)
  | c :: rest => if isPermitted c || c = '\n' then push c (literalLines rest) else none

/-- The text without a break right behind the opening quotes. -/
def dropFirstBreak : List Char → List Char
  | '\n' :: rest => rest
  | text => text

/-- The quoted text at the start of a value, and what follows. -/
def value? : List Char → Option (List Char × List Char)
  | '"' :: '"' :: '"' :: rest => basicLines false (dropFirstBreak rest)
  | '\'' :: '\'' :: '\'' :: rest => literalLines (dropFirstBreak rest)
  | '"' :: rest => basic rest
  | '\'' :: rest => literal rest
  | _ => none

/-! ## Writing -/

/-- Four hexadecimal digits in capitals. -/
def fourDigits (n : Nat) : List Char :=
  let digits := (Nat.toDigits 16 n).map Char.toUpper
  List.replicate (4 - digits.length) '0' ++ digits

/-- A character between double quotes; over several lines, a break stands for itself. -/
def escape (overLines : Bool) (c : Char) : List Char :=
  match c with
  | '\x08' => ['\\', 'b']
  | '\t' => ['\\', 't']
  | '\n' => if overLines then ['\n'] else ['\\', 'n']
  | '\x0c' => ['\\', 'f']
  | '\r' => ['\\', 'r']
  | '"' => ['\\', '"']
  | '\\' => ['\\', '\\']
  | c => if c.toNat < 0x20 || c = '\x7f' then ['\\', 'u'] ++ fourDigits c.toNat else [c]

/-- Whether a text holds three single quotes in a row. -/
def hasTripleQuote : List Char → Bool
  | '\'' :: '\'' :: '\'' :: _ => true
  | _ :: rest => hasTripleQuote rest
  | [] => false

/-- Whether a text is written between single quotes: it holds a double quote or a backslash, and
nothing that only an escape can write. -/
def prefersLiteral (text : List Char) : Bool :=
  text.any (fun c => c = '"' || c = '\\') &&
    text.all (fun c => isPermitted c || c = '\n') &&
    !hasTripleQuote text && text.getLast? ≠ some '\''

/-- A text in quotes. -/
def write (s : String) : String :=
  let text := s.toList
  let overLines := text.contains '\n'
  let written :=
    if prefersLiteral text then
      if overLines then "'''\n".toList ++ text ++ "'''".toList
      else if text.contains '\'' then "'''".toList ++ text ++ "'''".toList
      else ['\''] ++ text ++ ['\'']
    else
      let body := text.flatMap (escape overLines)
      if overLines then "\"\"\"\n".toList ++ body ++ "\"\"\"".toList
      else ['"'] ++ body ++ ['"']
  String.ofList written

end Quoted

end Toml

end Schemata
