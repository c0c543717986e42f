import Schemata.Text.Hex
import Schemata.Yaml.Folding

/-!
# Quoted scalars

Between single quotes a quote is written twice and everything else stands for itself; between
double quotes a backslash starts an escape. Both may run over lines, but not over the boundary of a
document.
-/

namespace Schemata

namespace Yaml

namespace Quoted

/-- A piece in front of what was read after it. -/
def push (p : Piece) (found : Option (List Piece × List Char)) :
    Option (List Piece × List Char) :=
  found.map fun (pieces, rest) => (p :: pieces, rest)

/-- The piece that an ordinary character is, with what follows it. -/
def pieceOf? (c : Char) (rest : List Char) : Option Piece :=
  if isBlank c then some (.blank c)
  else if isBreak c then if startsBoundary rest then none else some (.lineBreak c)
  else some (.content c)

/-- The pieces up to the closing single quote, and what follows it. -/
def single : List Char → Option (List Piece × List Char)
  | [] => none
  | '\'' :: '\'' :: rest => push (.content '\'') (single rest)
  | '\'' :: rest => some ([], rest)
  | c :: rest => (pieceOf? c rest).bind fun p => push p (single rest)

/-- The character that a one-letter escape stands for. -/
def escaped? (c : Char) : Option Char :=
  match c with
  | '0' => some '\x00'
  | 'a' => some '\x07'
  | 'b' => some '\x08'
  | 't' | '\t' => some '\t'
  | 'n' => some '\n'
  | 'v' => some '\x0b'
  | 'f' => some '\x0c'
  | 'r' => some '\r'
  | 'e' => some '\x1b'
  | ' ' => some ' '
  | '"' => some '"'
  | '/' => some '/'
  | '\\' => some '\\'
  | 'N' => some '\u0085'
  | '_' => some '\u00a0'
  | 'L' => some '\u2028'
  | 'P' => some '\u2029'
  | _ => none

/-- The piece that a backslash and one character are. -/
def escapeOf? (c : Char) (rest : List Char) : Option Piece :=
  if isBreak c then if startsBoundary rest then none else some .joint
  else (escaped? c).map .content

/-- The pieces up to the closing double quote, and what follows it. -/
def double : List Char → Option (List Piece × List Char)
  | [] => none
  | '"' :: rest => some ([], rest)
  | '\\' :: 'x' :: a :: b :: rest =>
    (Text.codePoint? [a, b]).bind fun c => push (.content c) (double rest)
  | '\\' :: 'u' :: a :: b :: c :: d :: rest =>
    (Text.codePoint? [a, b, c, d]).bind fun c => push (.content c) (double rest)
  | '\\' :: 'U' :: a :: b :: c :: d :: e :: f :: g :: h :: rest =>
    (Text.codePoint? [a, b, c, d, e, f, g, h]).bind fun c => push (.content c) (double rest)
  | '\\' :: c :: rest => (escapeOf? c rest).bind fun p => push p (double rest)
  | c :: rest => (pieceOf? c rest).bind fun p => push p (double rest)

end Quoted

end Yaml

end Schemata
