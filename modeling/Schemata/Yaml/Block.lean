import Schemata.Yaml.Folding

/-!
# Block scalars

A block scalar starts with a header on the line of its indicator. Its lines are those that are
indented at least as deeply as the header says or, without a word in the header, as the first line
of text is; they go into the scalar without that indentation.
-/

namespace Schemata

namespace Yaml

namespace Block

/-! ## The header -/

/-- What the header of a block scalar says. -/
structure Header where
  /-- What happens to the breaks at the end. -/
  chomping : Chomping
  /-- By how much the lines are indented more than what holds the scalar. -/
  increment : Option Nat
deriving DecidableEq

/-- The chomping that a sign asks for. -/
def chomping? (c : Char) : Option Chomping :=
  if c = '+' then some .keep else if c = '-' then some .strip else none

/-- The indentation that a digit asks for; zero is refused. -/
def increment? (c : Char) : Option Nat :=
  if c.isDigit && c ≠ '0' then some (c.toNat - '0'.toNat) else none

/-- The signs of a header, and what follows them. A digit and a sign may come in either order. -/
def signs? : List Char → Option (Header × List Char)
  | a :: rest =>
    match chomping? a with
    | some chomping =>
      match rest with
      | b :: rest' =>
        if b.isDigit then (increment? b).map fun n => (⟨chomping, some n⟩, rest')
        else some (⟨chomping, none⟩, rest)
      | [] => some (⟨chomping, none⟩, [])
    | none =>
      if a.isDigit then
        (increment? a).map fun n =>
          match rest with
          | b :: rest' =>
            match chomping? b with
            | some chomping => (⟨chomping, some n⟩, rest')
            | none => (⟨.clip, some n⟩, rest)
          | [] => (⟨.clip, some n⟩, [])
      else some (⟨.clip, none⟩, a :: rest)
  | [] => some (⟨.clip, none⟩, [])

/-- What follows the line, on which only a comment may be left. -/
def endOfLine? (text : List Char) : Option (List Char) :=
  let afterBlanks := text.dropWhile isBlank
  let afterComment :=
    if afterBlanks.head? = some '#' then afterBlanks.dropWhile (fun c => !isBreak c)
    else afterBlanks
  match afterComment with
  | [] => some []
  | c :: rest => if isBreak c then some rest else none

/-- The header behind the indicator, and the lines after it. -/
def header? (text : List Char) : Option (Header × List Char) := do
  let (header, rest) ← signs? text
  return (header, ← endOfLine? rest)

/-! ## The lines -/

/-- The widest indentation down to the first line of text, given the column in the current line and
the widest one before; a tab in the indentation is refused. -/
def widest? (column most : Nat) : List Char → Option Nat
  | [] => some (max column most)
  | c :: rest =>
    if c = ' ' then widest? (column + 1) most rest
    else if c = '\t' then none
    else if isBreak c then widest? 0 (max column most) rest
    else some (max column most)

/-- The indentation of the lines: what the header says on top of what holds the scalar, or what the
lines show, which is more than what holds it and at least one. -/
def indentation? (outer : Option Nat) (h : Header) (lines : List Char) : Option Nat :=
  match h.increment with
  | some n => some (outer.getD 0 + n)
  | none => (widest? 0 0 lines).map fun w => max w (max (outer.elim 0 (· + 1)) 1)

/-- Where the scan of the lines is. -/
inductive Place where
  /-- In the indentation, at a column. -/
  | indentation (column : Nat)
  /-- In the text of a line, its characters in reverse. -/
  | text (done : List Char)

/-- A line in front of what was read after it. -/
def push (l : BlockLine) (found : Option (List BlockLine × List Char)) :
    Option (List BlockLine × List Char) :=
  found.map fun (lines, rest) => (l :: lines, rest)

/-- The lines that are indented by `indent`, and what follows them: the first character that is not
indented so deeply. -/
def lines? (indent : Nat) : Place → List Char → Option (List BlockLine × List Char)
  | .indentation _, [] => some ([], [])
  | .text done, [] => some ([⟨done.reverse, none⟩], [])
  | .indentation column, c :: rest =>
    if column < indent && c = ' ' then lines? indent (.indentation (column + 1)) rest
    else if column < indent && c = '\t' then none
    else if isBreak c then push ⟨[], some c⟩ (lines? indent (.indentation 0) rest)
    else if column = indent then lines? indent (.text [c]) rest
    else some ([], c :: rest)
  | .text done, c :: rest =>
    if isBreak c then push ⟨done.reverse, some c⟩ (lines? indent (.indentation 0) rest)
    else lines? indent (.text (c :: done)) rest

/-- The text of the scalar behind its indicator, and what follows it. -/
def scan? (folded : Bool) (outer : Option Nat) (text : List Char) :
    Option (String × List Char) := do
  let (header, below) ← header? text
  let indent ← indentation? outer header below
  let (lines, rest) ← lines? indent (.indentation 0) below
  return (BlockText.join folded header.chomping lines, rest)

end Block

end Yaml

end Schemata
