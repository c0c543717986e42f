/-!
# Characters of a YAML text

The character classes of the reader. Line breaks come in several spellings, and `unifyBreaks` turns
all those that mean a plain new line into one; the two Unicode separators stay what they are.
-/

namespace Schemata

namespace Yaml

/-- Whether a character may stand in a text at all. -/
def isPermitted (c : Char) : Bool :=
  c = '\t' || c = '\n' || c = '\r' || (' ' ≤ c && c ≤ '~') || c = '\u0085' ||
    ('\u00a0' ≤ c && c ≤ '\ufffd') || 0x10000 ≤ c.toNat

/-- A space or a tab. -/
def isBlank (c : Char) : Bool := c = ' ' || c = '\t'

/-- A line break, once breaks are unified. -/
def isBreak (c : Char) : Bool := c = '\n' || c = '\u2028' || c = '\u2029'

/-- A character of names: an ASCII letter or digit, a hyphen, an underscore. -/
def isWord (c : Char) : Bool := c.isAlphanum || c = '-' || c = '_'

/-- A text with every new line written as a single line feed. -/
def unifyBreaks : List Char → List Char
  | '\r' :: '\n' :: rest => '\n' :: unifyBreaks rest
  | c :: rest => (if c = '\r' || c = '\u0085' then '\n' else c) :: unifyBreaks rest
  | [] => []

/-- Whether a word ends here: at a blank, a break or the end of the text. -/
def atGap : List Char → Bool
  | [] => true
  | c :: _ => isBlank c || isBreak c

/-- Whether a line starts with the three-character mark of a document boundary. -/
def startsMark (sign : Char) : List Char → Bool
  | a :: b :: c :: rest => a = sign && b = sign && c = sign && atGap rest
  | _ => false

/-- Whether a line starts with either mark of a document boundary. -/
def startsBoundary (line : List Char) : Bool := startsMark '-' line || startsMark '.' line

end Yaml

end Schemata
