import Schemata.Text.CaseMap
import Schemata.Text.Split

/-!
# Identifier casing

A name is split into words at every space, hyphen and underscore, empty words included, and the
words are joined again in one of the customary ways (`camel_case`, `pascal_case`, `snake_case`,
`title_case`).
-/

namespace Schemata

namespace Names

/-- The characters that separate words. -/
def isSeparator (c : Char) : Bool := c = ' ' || c = '-' || c = '_'

/-- The words of a name; there is always at least one. -/
def splitWords (name : List Char) : List (List Char) := Text.splitBy isSeparator name

/-- Each letter after a non-letter in upper case, every other letter in lower case; `first` says
whether the next letter begins a run. -/
def titleFrom (first : Bool) : List Char → List Char
  | [] => []
  | c :: rest =>
    if CharClass.isAlphabetic c then
      (if first then CaseMap.upper c else CaseMap.lower c) ++ titleFrom false rest
    else c :: titleFrom true rest

/-- Title case of characters. -/
def title (word : List Char) : List Char := titleFrom true word

/-- Title case of a text: `they're` becomes `They'Re`. -/
def titleCase (text : String) : String := String.ofList (title text.toList)

/-- Camel case: the first word in lower case, the others in title case, joined. -/
def camelCase (text : String) : String :=
  match splitWords text.toList with
  | [] => ""
  | w :: ws => String.ofList (CaseMap.lowerText w ++ ws.flatMap title)

/-- Title case of every word, joined. -/
def pascalCase (text : String) : String :=
  String.ofList ((splitWords text.toList).flatMap title)

/-- Every word in lower case, joined by underscores. -/
def snakeCase (text : String) : String :=
  String.ofList (['_'].intercalate ((splitWords text.toList).map CaseMap.lowerText))

end Names

end Schemata
