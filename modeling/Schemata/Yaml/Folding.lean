import Schemata.Yaml.Chars

/-!
# Line folding

A scalar that runs over several lines is read as pieces: characters of content, blanks, breaks.
Blanks and breaks between content form a gap. A gap without a break is kept as it is; in any other
the blanks vanish, a single new line becomes a space, and of several the first one vanishes.

* `Folding.run` puts the pieces of a quoted or plain scalar together;
* `BlockText.join` does so for the lines of a block scalar.
-/

namespace Schemata

namespace Yaml

/-! ## Flow scalars -/

/-- A piece of a scalar that runs over lines. -/
inductive Piece where
  /-- A character of content, also one that an escape stands for. -/
  | content (c : Char)
  /-- A space or a tab. -/
  | blank (c : Char)
  /-- A line break. -/
  | lineBreak (c : Char)
  /-- A line break that joins two lines without leaving anything behind. -/
  | joint
deriving DecidableEq

/-- What stands between two characters of content. -/
inductive Gap where
  /-- Blanks on one line, perhaps none. -/
  | blanks (cs : List Char)
  /-- The first break, nothing for a joint, and the breaks after it. -/
  | breaks (first : Option Char) (rest : List Char)
deriving DecidableEq

namespace Gap

/-- What a gap comes to. -/
def text : Gap → List Char
  | .blanks cs => cs
  | .breaks (some '\n') [] => [' ']
  | .breaks (some '\n') rest => rest
  | .breaks (some c) rest => c :: rest
  | .breaks none rest => rest

/-- A gap with one more blank. -/
def addBlank (c : Char) : Gap → Gap
  | .blanks cs => .blanks (cs ++ [c])
  | g => g

/-- A gap with one more break. -/
def addBreak (c : Char) : Gap → Gap
  | .blanks _ => .breaks (some c) []
  | .breaks first rest => .breaks first (rest ++ [c])

/-- Whether a gap reaches over a line. -/
def hasBreak : Gap → Bool
  | .blanks _ => false
  | .breaks .. => true

end Gap

namespace Folding

/-- The text of pieces that follow a gap, and the gap at their end. -/
def run (gap : Gap) : List Piece → List Char × Gap
  | [] => ([], gap)
  | .content c :: rest =>
    let (text, last) := run (.blanks []) rest
    (gap.text ++ c :: text, last)
  | .blank c :: rest => run (gap.addBlank c) rest
  | .lineBreak c :: rest => run (gap.addBreak c) rest
  | .joint :: rest =>
    let (text, last) := run (.breaks none []) rest
    (gap.text ++ text, last)

/-- The text of a quoted scalar: the gap at the end belongs to it. -/
def quoted (pieces : List Piece) : String :=
  let (text, last) := run (.blanks []) pieces
  String.ofList (text ++ last.text)

end Folding

/-! ## Block scalars -/

/-- A line of a block scalar without its indentation; a line without text is only its break. -/
structure BlockLine where
  /-- The text of the line. -/
  text : List Char
  /-- The break at its end; the last line of a document may have none. -/
  lineBreak : Option Char
deriving DecidableEq

namespace BlockLine

/-- Whether a line of text starts with a blank. -/
def startsBlank (l : BlockLine) : Bool :=
  match l.text with
  | c :: _ => isBlank c
  | [] => false

end BlockLine

/-- What happens to the breaks at the end of a block scalar. -/
inductive Chomping where
  /-- All go. -/
  | strip
  /-- The break of the last line of text stays. -/
  | clip
  /-- All stay. -/
  | keep
deriving DecidableEq

namespace BlockText

/-- The text of lines after a line of text `last`, with the breaks of empty lines between. Where
lines are folded, a new line between two lines of text that start with no blank is a space when no
empty line stands between them, and vanishes when one does. -/
def joinAfter (folded : Bool) (chomping : Chomping) (last : Option BlockLine)
    (breaks : List Char) : List BlockLine → List Char
  | [] =>
    let ending := (last.bind (·.lineBreak)).toList
    match chomping with
    | .strip => []
    | .clip => ending
    | .keep => ending ++ breaks
  | l :: rest =>
    if l.text.isEmpty then
      joinAfter folded chomping last (breaks ++ l.lineBreak.toList) rest
    else
      let ending := (last.bind (·.lineBreak)).toList
      let startsBlank := last.any BlockLine.startsBlank
      let gap :=
        if folded && ending = ['\n'] && !startsBlank && !l.startsBlank then
          if breaks.isEmpty then [' '] else breaks
        else ending ++ breaks
      gap ++ l.text ++ joinAfter folded chomping (some l) [] rest

/-- The text of a block scalar. -/
def join (folded : Bool) (chomping : Chomping) (lines : List BlockLine) : String :=
  String.ofList (joinAfter folded chomping none [] lines)

end BlockText

end Yaml

end Schemata
