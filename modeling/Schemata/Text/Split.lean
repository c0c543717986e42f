/-!
# Splitting text

`Text.splitBy` cuts a text at every character that satisfies a test; the cuts themselves are
dropped and empty pieces stay, so there is always at least one piece.
-/

namespace Schemata

namespace Text

/-- The pieces between the characters that satisfy `cut`. -/
def splitBy (cut : Char → Bool) : List Char → List (List Char)
  | [] => [[]]
  | c :: rest =>
    if cut c then [] :: splitBy cut rest
    else match splitBy cut rest with
      | piece :: pieces => (c :: piece) :: pieces
      | [] => [[c]]

/-- The pieces between occurrences of one character. -/
def splitAt (separator : Char) (text : String) : List String :=
  (splitBy (· = separator) text.toList).map String.ofList

/-- The text without blanks at either end. -/
def trimBy (blank : Char → Bool) (text : List Char) : List Char :=
  ((text.dropWhile blank).reverse.dropWhile blank).reverse

/-- A text with the ASCII capitals in lower case. -/
def asciiLower (text : String) : String := String.ofList (text.toList.map Char.toLower)

end Text

end Schemata
