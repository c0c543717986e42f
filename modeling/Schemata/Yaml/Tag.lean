import Schemata.Text.Hex
import Schemata.Yaml.Chars

/-!
# Tags and directives

A tag is a handle between exclamation marks and a suffix, or a whole tag in angle brackets. A
directive is a line in front of a document. Escapes in a tag are octets of UTF-8.
-/

namespace Schemata

namespace Yaml

namespace Tag

/-- A character of a tag; in angle brackets, three flow indicators may stand in it as well. -/
def isTagChar (verbatim : Bool) (c : Char) : Bool :=
  isWord c || ";/?:@&=+$.%!~*'()".toList.contains c ||
    (verbatim && (c = ',' || c = '[' || c = ']'))

/-- The octets that a run of characters stands for; a percent sign starts an escaped one. -/
def octets? : List Char → Option (List UInt8)
  | [] => some []
  | '%' :: a :: b :: rest => do
    let high ← Text.hexValue? a
    let low ← Text.hexValue? b
    return UInt8.ofNat (16 * high + low) :: (← octets? rest)
  | c :: rest =>
    if c = '%' then none
    else (octets? rest).map fun more => (String.singleton c).toUTF8.toList ++ more

/-- The text that a run of characters stands for. -/
def decode? (written : List Char) : Option String :=
  (octets? written).bind fun bytes => String.fromUTF8? ⟨bytes.toArray⟩

/-- The handle at the start of a text: an exclamation mark and word characters, with another mark
at the end if there is one. -/
def splitHandle (text : List Char) : List Char × List Char :=
  match text with
  | '!' :: rest =>
    let word := rest.takeWhile isWord
    match rest.dropWhile isWord with
    | '!' :: rest' => ('!' :: word ++ ['!'], rest')
    | rest' => ('!' :: word, rest')
  | rest => ([], rest)

/-- Whether a handle is closed by a mark of its own. -/
def isClosed : List Char → Bool
  | '!' :: c :: rest => (c :: rest).getLast? = some '!'
  | _ => false

/-- The handle and the suffix of the tag at the start of a text, and what follows it. -/
def scan? (text : List Char) : Option (String × String × List Char) :=
  match text with
  | '!' :: '<' :: rest => do
    let suffix ← decode? (rest.takeWhile (isTagChar true))
    match rest.dropWhile (isTagChar true) with
    | '>' :: rest' => if suffix.isEmpty then none else some ("", suffix, rest')
    | _ => none
  | _ => do
    let (handle, rest) := splitHandle text
    let written := rest.takeWhile (isTagChar false)
    let after := rest.dropWhile (isTagChar false)
    let suffix ← decode? written
    if isClosed handle then
      if suffix.isEmpty then none else some (String.ofList handle, suffix, after)
    else
      let whole := String.ofList (handle.drop 1) ++ suffix
      if whole.isEmpty then some ("", "!", after) else some ("!", whole, after)

end Tag

namespace Directive

/-- A number of at most nine digits, and what follows it. -/
def number? (text : List Char) : Option (Nat × List Char) :=
  let digits := text.takeWhile Char.isDigit
  if digits.isEmpty || digits.length > 9 then none
  else some (digits.foldl (fun n c => 10 * n + (c.toNat - '0'.toNat)) 0,
    text.dropWhile Char.isDigit)

/-- A version: two numbers with a point between them. -/
def version? (text : List Char) : Option (Nat × Nat × List Char) := do
  let (major, rest) ← number? (text.dropWhile isBlank)
  match rest with
  | '.' :: rest' =>
    let (minor, rest'') ← number? rest'
    return (major, minor, rest'')
  | _ => none

/-- A handle of tags and its prefix. -/
def tagPrefix? (text : List Char) : Option (String × String × List Char) := do
  let (handle, rest) := Tag.splitHandle (text.dropWhile isBlank)
  if !(Tag.isClosed handle || handle = ['!']) then none
  else if !(rest.head?.any isBlank) then none
  else
    let start := rest.dropWhile isBlank
    let written := start.takeWhile (Tag.isTagChar true)
    let after := start.dropWhile (Tag.isTagChar true)
    let tagPrefix ← Tag.decode? written
    if tagPrefix.isEmpty || !atGap after then none
    else some (String.ofList handle, tagPrefix, after)

end Directive

end Yaml

end Schemata
