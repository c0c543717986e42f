import Schemata.Yaml.Block
import Schemata.Yaml.Plain
import Schemata.Yaml.Quoted
import Schemata.Yaml.Tag
import Schemata.Yaml.Token.Basic

/-!
# From a text to tokens

A lexer walks over the text and collects tokens. Two things take more than a look at the next
characters.

* Indentation: a column further in opens a block, and a column further out closes all blocks that
  lie deeper. Inside brackets and braces indentation means nothing.
* Simple keys: that something is a key shows only at the colon behind it. The lexer remembers
  where a key may have started, and puts the key token there when the colon comes. A key stays on
  one line and is not longer than 1024 characters.

`Lexer.token?` reads one token, `Token.ofText?` all of a text.
-/

namespace Schemata

namespace Yaml

/-! ## Places -/

/-- A place in the text. -/
structure Mark where
  /-- Characters before it. -/
  index : Nat
  /-- Lines before it. -/
  line : Nat
  /-- Characters before it on its line. -/
  column : Nat
deriving DecidableEq

/-- The place behind a character. -/
def Mark.after (m : Mark) (c : Char) : Mark :=
  if isBreak c then ⟨m.index + 1, m.line + 1, 0⟩ else ⟨m.index + 1, m.line, m.column + 1⟩

/-- A place where a simple key may have started. -/
structure SimpleKey where
  /-- Whether only a key can stand there. -/
  required : Bool
  /-- How many tokens are in front of it. -/
  number : Nat
  /-- The place. -/
  mark : Mark
deriving DecidableEq

/-! ## The lexer -/

/-- Where a lexer is, and what it found. -/
structure Lexer where
  /-- What is still to be read. -/
  rest : List Char
  /-- Where that is. -/
  mark : Mark
  /-- Tokens so far, the last one first. -/
  tokens : List Token
  /-- The columns of the open blocks, the innermost first. -/
  indents : List Nat
  /-- Whether a simple key may start here. -/
  keyAllowed : Bool
  /-- Where a simple key may have started in the innermost brackets, or outside of all. -/
  candidate : Option SimpleKey
  /-- The same for the enclosing brackets, the innermost first; empty outside of brackets. -/
  outer : List (Option SimpleKey)

namespace Lexer

/-- The lexer at the start of a text. -/
def start (text : List Char) : Lexer := ⟨text, ⟨0, 0, 0⟩, [], [], true, none, []⟩

/-- Whether the lexer is inside brackets or braces. -/
def inFlow (s : Lexer) : Bool := !s.outer.isEmpty

/-- The lexer moved on to a later part of the text. -/
def moveTo (s : Lexer) (rest : List Char) : Lexer :=
  { s with
    rest := rest
    mark := (s.rest.take (s.rest.length - rest.length)).foldl Mark.after s.mark }

/-- The lexer with one more token. -/
def push (s : Lexer) (t : Token) : Lexer := { s with tokens := t :: s.tokens }

/-- The lexer with a token behind the first `number` tokens. -/
def insert (s : Lexer) (number : Nat) (t : Token) : Lexer :=
  { s with tokens := s.tokens.insertIdx (s.tokens.length - number) t }

/-! ## Simple keys -/

/-- The lexer without the innermost place of a key; nothing when a key was required there. -/
def dropKey? (s : Lexer) : Option Lexer :=
  if s.candidate.any (·.required) then none else some { s with candidate := none }

/-- The lexer with the current place as one where a key may start, if keys may start here. -/
def saveKey? (s : Lexer) : Option Lexer :=
  if !s.keyAllowed then some s
  else
    let required := !s.inFlow && s.indents.head? = some s.mark.column
    (s.dropKey?).map fun s => { s with candidate := some ⟨required, s.tokens.length, s.mark⟩ }

/-- Whether a key that started there cannot reach so far. -/
def isStale (s : Lexer) (k : SimpleKey) : Bool :=
  k.mark.line < s.mark.line || k.mark.index + 1024 < s.mark.index

/-- The lexer without places that are out of reach; nothing when a key was required there. -/
def dropStale? (s : Lexer) : Option Lexer :=
  let fails (k : Option SimpleKey) : Bool := k.any fun k => s.isStale k && k.required
  let live (k : Option SimpleKey) : Option SimpleKey := k.filter fun k => !s.isStale k
  if fails s.candidate || s.outer.any fails then none
  else some { s with candidate := live s.candidate, outer := s.outer.map live }

/-! ## Indentation -/

/-- The lexer with a block opened at a column, unless one is open there already; the token that
opens it stands behind the first `number` tokens. -/
def openBlock (s : Lexer) (column number : Nat) (t : Token) : Lexer :=
  if s.inFlow || s.indents.head?.any (column ≤ ·) then s
  else { s.insert number t with indents := column :: s.indents }

/-- The lexer with the blocks closed whose columns satisfy the test. -/
def closeBlocks (s : Lexer) (deeper : Nat → Bool) : Lexer :=
  if s.inFlow then s
  else
    let closed := s.indents.takeWhile deeper
    { s with
      tokens := closed.map (fun _ => .blockEnd) ++ s.tokens
      indents := s.indents.dropWhile deeper }

/-- The lexer with all blocks closed. -/
def closeAll (s : Lexer) : Lexer := s.closeBlocks fun _ => true

/-! ## Between tokens -/

/-- What follows the blanks, comments and breaks at the start of a text, and whether a key may start
there. Tabs are blanks only where no key may start. A byte order mark may start a line. -/
def skip (inFlow inComment lineStart keyAllowed : Bool) : List Char → List Char × Bool
  | [] => ([], keyAllowed)
  | c :: rest =>
    if isBreak c then skip inFlow false true (keyAllowed || !inFlow) rest
    else if inComment then skip inFlow true false keyAllowed rest
    else if lineStart && c = '\ufeff' then skip inFlow false false keyAllowed rest
    else if c = ' ' || (c = '\t' && (inFlow || !keyAllowed)) then
      skip inFlow false false keyAllowed rest
    else if c = '#' then skip inFlow true false keyAllowed rest
    else (c :: rest, keyAllowed)

/-- The lexer at the next token: gaps are skipped, places of keys that are out of reach dropped,
and the blocks closed that lie deeper than the token. -/
def settle? (s : Lexer) : Option Lexer :=
  let (rest, keyAllowed) := skip s.inFlow false (s.mark.column = 0) s.keyAllowed s.rest
  let s := { s.moveTo rest with keyAllowed := keyAllowed }
  (s.dropStale?).map fun s => s.closeBlocks (s.mark.column < ·)

/-! ## Tokens -/

/-- One character that is a token by itself. -/
def sign (s : Lexer) (t : Token) : Lexer := (s.moveTo (s.rest.drop 1)).push t

/-- A mark of a document boundary. -/
def boundary? (s : Lexer) (t : Token) : Option Lexer :=
  (s.closeAll.dropKey?).map fun s =>
    { (s.moveTo (s.rest.drop 3)).push t with keyAllowed := false }

/-- A directive. -/
def directive? (s : Lexer) : Option Lexer := do
  let s ← s.closeAll.dropKey?
  let body := s.rest.drop 1
  let name := String.ofList (body.takeWhile isWord)
  let rest := body.dropWhile isWord
  let (token, rest) ←
    if !atGap rest then none
    else if name = "YAML" then
      (Directive.version? rest).map fun (major, minor, r) => (Token.version major minor, r)
    else if name = "TAG" then
      (Directive.tagPrefix? rest).map fun (handle, tagPrefix, r) =>
        (Token.tagPrefix handle tagPrefix, r)
    else none
  let after ← Block.endOfLine? rest
  return { (s.moveTo after).push token with keyAllowed := false }

/-- An opening bracket or brace. -/
def openFlow? (s : Lexer) (t : Token) : Option Lexer :=
  (s.saveKey?).map fun s =>
    { s.sign t with keyAllowed := true, outer := s.candidate :: s.outer, candidate := none }

/-- A closing bracket or brace. -/
def closeFlow? (s : Lexer) (t : Token) : Option Lexer :=
  (s.dropKey?).map fun s =>
    match s.outer with
    | candidate :: outer =>
      { s.sign t with keyAllowed := false, candidate := candidate, outer := outer }
    | [] => { s.sign t with keyAllowed := false }

/-- A comma. -/
def flowEntry? (s : Lexer) : Option Lexer :=
  (s.dropKey?).map fun s => { s.sign .flowEntry with keyAllowed := true }

/-- The lexer with a block opened at the current column, which only a place for keys allows. -/
def blockHere? (s : Lexer) (t : Token) : Option Lexer :=
  if s.inFlow then some s
  else if !s.keyAllowed then none
  else some (s.openBlock s.mark.column s.tokens.length t)

/-- A hyphen before an item. -/
def blockEntry? (s : Lexer) : Option Lexer := do
  let s ← s.blockHere? .blockSequenceStart
  let s ← s.dropKey?
  return { s.sign .blockEntry with keyAllowed := true }

/-- A question mark before a key. -/
def key? (s : Lexer) : Option Lexer := do
  let s ← s.blockHere? .blockMappingStart
  let s ← s.dropKey?
  return { s.sign .key with keyAllowed := !s.inFlow }

/-- A colon before a value. Behind the place of a simple key, that place becomes one. -/
def value? (s : Lexer) : Option Lexer :=
  match s.candidate with
  | some k =>
    let s := (s.insert k.number .key).openBlock k.mark.column k.number .blockMappingStart
    some { s.sign .value with candidate := none, keyAllowed := false }
  | none =>
    (s.blockHere? .blockMappingStart).map fun s =>
      { s.sign .value with keyAllowed := !s.inFlow }

/-- A node property or a scalar on which a simple key may end. -/
def item? (s : Lexer) (t : Token) (rest : List Char) : Option Lexer :=
  (s.saveKey?).map fun s => { (s.moveTo rest).push t with keyAllowed := false }

/-- An anchor or an alias. -/
def name? (s : Lexer) (token : String → Token) : Option Lexer :=
  let body := s.rest.drop 1
  let name := body.takeWhile isWord
  let rest := body.dropWhile isWord
  let ends := atGap rest || rest.head?.any fun c => "?:,]\x7d%@`".toList.contains c
  if name.isEmpty || !ends then none else s.item? (token (String.ofList name)) rest

/-- A tag. -/
def tag? (s : Lexer) : Option Lexer := do
  let (handle, suffix, rest) ← Tag.scan? s.rest
  if atGap rest || (s.inFlow && rest.head? = some ',') then s.item? (.tag handle suffix) rest
  else none

/-- A block scalar. -/
def blockScalar? (s : Lexer) (folded : Bool) : Option Lexer := do
  let s ← s.dropKey?
  let (text, rest) ← Block.scan? folded s.indents.head? (s.rest.drop 1)
  return { (s.moveTo rest).push (.scalar false text) with keyAllowed := true }

/-- A quoted scalar. -/
def quoted? (s : Lexer) (scan : List Char → Option (List Piece × List Char)) :
    Option Lexer := do
  let (pieces, rest) ← scan (s.rest.drop 1)
  s.item? (.scalar false (Folding.quoted pieces)) rest

/-- A plain scalar. A key may start behind it when it is followed by a break. -/
def plain? (s : Lexer) : Option Lexer := do
  let indent := s.indents.head?.elim 0 (· + 1)
  let (pieces, rest) ← Plain.scan s.inFlow indent .content s.rest
  let (text, gap) := Folding.run (.blanks []) pieces
  let s ← s.item? (.scalar true (String.ofList text)) rest
  return { s with keyAllowed := gap.hasBreak }

/-- A character that no plain scalar starts with, unless something follows directly. -/
def isIndicator (c : Char) : Bool := "-?:,[]\x7b\x7d#&*!|>'\"%@`".toList.contains c

/-- Whether a plain scalar starts here. -/
def startsPlain (inFlow : Bool) (c : Char) (rest : List Char) : Bool :=
  (!isIndicator c && !isBlank c) || (c = '-' && !(rest.head?.any isBlank)) ||
    (!inFlow && (c = '?' || c = ':') && !atGap rest)

/-- The token that starts with the given character. -/
def token? (s : Lexer) (c : Char) (rest : List Char) : Option Lexer :=
  let lineStart := s.mark.column = 0
  if lineStart && c = '%' then s.directive?
  else if lineStart && startsMark '-' (c :: rest) then s.boundary? .documentStart
  else if lineStart && startsMark '.' (c :: rest) then s.boundary? .documentEnd
  else if c = '[' then s.openFlow? .flowSequenceStart
  else if c = '\x7b' then s.openFlow? .flowMappingStart
  else if c = ']' then s.closeFlow? .flowSequenceEnd
  else if c = '\x7d' then s.closeFlow? .flowMappingEnd
  else if c = ',' then s.flowEntry?
  else if c = '-' && atGap rest then s.blockEntry?
  else if c = '?' && (s.inFlow || atGap rest) then s.key?
  else if c = ':' && (s.inFlow || atGap rest) then s.value?
  else if c = '*' then s.name? .aliasTo
  else if c = '&' then s.name? .anchor
  else if c = '!' then s.tag?
  else if c = '|' && !s.inFlow then s.blockScalar? false
  else if c = '>' && !s.inFlow then s.blockScalar? true
  else if c = '\'' then s.quoted? Quoted.single
  else if c = '"' then s.quoted? Quoted.double
  else if startsPlain s.inFlow c rest then s.plain?
  else none

/-- The end of the text. -/
def finish? (s : Lexer) : Option (List Token) :=
  (s.closeAll.dropKey?).map fun s => s.tokens.reverse

/-- The tokens up to the end of the text. Every token takes at least one character, so as many
steps as there are characters, and one for the end, are enough. -/
def run? : Nat → Lexer → Option (List Token)
  | 0, _ => none
  | fuel + 1, s => do
    let s ← s.settle?
    match s.rest with
    | [] => s.finish?
    | c :: rest => run? fuel (← s.token? c rest)

end Lexer

/-- The tokens of a text whose breaks are unified. -/
def Token.ofText? (text : List Char) : Option (List Token) :=
  (Lexer.start text).run? (text.length + 1)

end Yaml

end Schemata
