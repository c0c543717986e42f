import Schemata.Json.Basic
import Schemata.Number.Notation
import Schemata.Text.Hex

/-!
# Reading a document back

A text is cut into tokens character by character (`Token.scan?`), and the tokens are folded into a
value with a stack of the containers that are still open (`Json.ofTokens?`). Both passes are
folds over a list, so each looks at every character and every token once.
-/

namespace Schemata

namespace Json

/-- A token of a document. -/
inductive Token where
  /-- An opening brace. -/
  | openObject
  /-- A closing brace. -/
  | closeObject
  /-- An opening bracket. -/
  | openArray
  /-- A closing bracket. -/
  | closeArray
  /-- The sign between a key and its value. -/
  | colon
  /-- The sign between two members or items. -/
  | comma
  /-- A quoted text. -/
  | text (s : String)
  /-- A number or one of the three words. -/
  | value (v : Json)

namespace Token

/-! ## Numbers and words -/

/-- The number that an unquoted word writes. -/
def number? (word : List Char) : Option Number :=
  let (negative, digits) := match word with
    | '-' :: rest => (true, rest)
    | rest => (false, rest)
  match Decimal.Parts.split? digits with
  | none => none
  | some p =>
    let wholeOk := match p.whole with
      | [] => false
      | ['0'] => true
      | c :: _ => c ≠ '0'
    if !wholeOk || p.fraction = some [] then none
    else
      let magnitude := Decimal.digitsValue p.whole
      let i : Int := if negative then -magnitude else magnitude
      if p.isWhole && Number.inRange i && !(negative && magnitude = 0) then some (.int i)
      else (p.toBinary64? negative).map .float

/-- The value that an unquoted word writes. -/
def ofWord? (word : List Char) : Option Json :=
  if word = "null".toList then some .null
  else if word = "true".toList then some (.bool true)
  else if word = "false".toList then some (.bool false)
  else (number? word).map .number

/-! ## Scanning -/

/-- What the scanner is in the middle of. -/
inductive Mode where
  /-- Between tokens. -/
  | between
  /-- In an unquoted word, its characters in reverse. -/
  | word (done : List Char)
  /-- In a quoted text, its characters in reverse; `high` is a first surrogate that waits. -/
  | text (done : List Char) (high : Option Nat)
  /-- After a backslash in a quoted text. -/
  | escape (done : List Char) (high : Option Nat)
  /-- In the four hexadecimal digits of an escape. -/
  | unicode (done : List Char) (high : Option Nat) (count : Nat) (code : Nat)

/-- The state of the scanner: the tokens so far, in reverse, and the mode. -/
structure Scan where
  /-- Tokens found, the last one first. -/
  tokens : List Token
  /-- What is being read. -/
  mode : Mode

/-- The blanks between tokens. -/
def isBlank (c : Char) : Bool := c = ' ' || c = '\t' || c = '\n' || c = '\r'

/-- The token of a punctuation sign. -/
def ofSign? (c : Char) : Option Token :=
  if c = '\x7b' then some .openObject
  else if c = '\x7d' then some .closeObject
  else if c = '[' then some .openArray
  else if c = ']' then some .closeArray
  else if c = ':' then some .colon
  else if c = ',' then some .comma
  else none

/-- One character between tokens. -/
def stepBetween (tokens : List Token) (c : Char) : Scan :=
  if isBlank c then ⟨tokens, .between⟩
  else if c = '"' then ⟨tokens, .text [] none⟩
  else match ofSign? c with
    | some t => ⟨t :: tokens, .between⟩
    | none => ⟨tokens, .word [c]⟩

/-- The character of a one-letter escape. -/
def escaped? (c : Char) : Option Char :=
  if c = '"' ∨ c = '\\' ∨ c = '/' then some c
  else if c = 'n' then some '\n'
  else if c = 't' then some '\t'
  else if c = 'r' then some '\r'
  else if c = 'b' then some '\x08'
  else if c = 'f' then some '\x0c'
  else none

/-- A finished four-digit escape: a character, or the first half of a pair. -/
def stepUnit (tokens : List Token) (done : List Char) (high : Option Nat) (unit : Nat) :
    Option Scan :=
  match high with
  | some h =>
    if 0xDC00 ≤ unit ∧ unit ≤ 0xDFFF then
      let code := 0x10000 + (h - 0xD800) * 0x400 + (unit - 0xDC00)
      some ⟨tokens, .text (Char.ofNat code :: done) none⟩
    else none
  | none =>
    if 0xD800 ≤ unit ∧ unit ≤ 0xDBFF then some ⟨tokens, .text done (some unit)⟩
    else if 0xDC00 ≤ unit ∧ unit ≤ 0xDFFF then none
    else some ⟨tokens, .text (Char.ofNat unit :: done) none⟩

/-- One character of the text. -/
def step (s : Scan) (c : Char) : Option Scan :=
  match s.mode with
  | .between => some (stepBetween s.tokens c)
  | .word done =>
    if isBlank c || c = '"' || (ofSign? c).isSome then
      (ofWord? done.reverse).map fun v => stepBetween (.value v :: s.tokens) c
    else some ⟨s.tokens, .word (c :: done)⟩
  | .text done high =>
    if c = '\\' then some ⟨s.tokens, .escape done high⟩
    else if high.isSome || c.toNat < 0x20 then none
    else if c = '"' then some ⟨.text (String.ofList done.reverse) :: s.tokens, .between⟩
    else some ⟨s.tokens, .text (c :: done) none⟩
  | .escape done high =>
    if c = 'u' then some ⟨s.tokens, .unicode done high 0 0⟩
    else if high.isSome then none
    else (escaped? c).map fun e => ⟨s.tokens, .text (e :: done) none⟩
  | .unicode done high count code =>
    match Text.hexValue? c with
    | none => none
    | some h =>
      if count = 3 then stepUnit s.tokens done high (16 * code + h)
      else some ⟨s.tokens, .unicode done high (count + 1) (16 * code + h)⟩

/-- The tokens of a text, in order. -/
def scan? (text : List Char) : Option (List Token) :=
  match text.foldlM step ⟨[], .between⟩ with
  | some ⟨tokens, .between⟩ => some tokens.reverse
  | some ⟨tokens, .word done⟩ =>
    (ofWord? done.reverse).map fun v => (.value v :: tokens).reverse
  | _ => none

end Token

/-! ## Assembly -/

/-- A container that is still open. -/
inductive Frame where
  /-- A sequence and its items so far, in reverse. -/
  | items (done : List Json)
  /-- A mapping and its members so far. -/
  | members (done : List (String × Json))
  /-- A mapping that waits for the value of a key. -/
  | key (done : List (String × Json)) (key : String)

/-- What may come next. -/
inductive Expect where
  /-- A value. -/
  | value
  /-- A value or the end of the sequence just opened. -/
  | firstItem
  /-- A key or the end of the mapping just opened. -/
  | firstKey
  /-- A key. -/
  | key
  /-- The sign after a key. -/
  | colon
  /-- A comma or the end of the open container. -/
  | next
  /-- Nothing more: the document is complete. -/
  | done (value : Json)

/-- The containers open around the current place, the innermost first, and what may come next. -/
structure Assembly where
  /-- Open containers. -/
  stack : List Frame
  /-- What may come next. -/
  expect : Expect

/-- A complete value handed to the innermost open container. -/
def Assembly.give (stack : List Frame) (v : Json) : Option Assembly :=
  match stack with
  | [] => some ⟨[], .done v⟩
  | .items done :: rest => some ⟨.items (v :: done) :: rest, .next⟩
  | .key done k :: rest => some ⟨.members (put k v done) :: rest, .next⟩
  | .members _ :: _ => none

/-- The start of a value: a scalar, or a container that opens. -/
def Assembly.start (stack : List Frame) : Token → Option Assembly
  | .value v => give stack v
  | .text s => give stack (.string s)
  | .openArray => some ⟨.items [] :: stack, .firstItem⟩
  | .openObject => some ⟨.members [] :: stack, .firstKey⟩
  | _ => none

/-- A key of the mapping that is innermost. -/
def Assembly.named (stack : List Frame) : Token → Option Assembly
  | .text k =>
    match stack with
    | .members done :: rest => some ⟨.key done k :: rest, .colon⟩
    | _ => none
  | _ => none

/-- The end of the innermost container. -/
def Assembly.close (stack : List Frame) : Token → Option Assembly
  | .closeArray =>
    match stack with
    | .items done :: rest => give rest (.array done.reverse)
    | _ => none
  | .closeObject =>
    match stack with
    | .members done :: rest => give rest (.object done)
    | _ => none
  | _ => none

/-- One token. -/
def Assembly.step (a : Assembly) (t : Token) : Option Assembly :=
  match a.expect with
  | .value => start a.stack t
  | .firstItem => (close a.stack t).or (start a.stack t)
  | .firstKey => (close a.stack t).or (named a.stack t)
  | .key => named a.stack t
  | .colon =>
    match t with
    | .colon => some ⟨a.stack, .value⟩
    | _ => none
  | .next =>
    match t, a.stack with
    | .comma, .items _ :: _ => some ⟨a.stack, .value⟩
    | .comma, .members _ :: _ => some ⟨a.stack, .key⟩
    | .comma, _ => none
    | t, stack => close stack t
  | .done _ => none

/-- The document that a list of tokens spells. -/
def ofTokens? (tokens : List Token) : Option Json :=
  match tokens.foldlM Assembly.step ⟨[], .value⟩ with
  | some ⟨_, .done v⟩ => some v
  | _ => none

/-- The document that a text spells. -/
def parse? (text : String) : Option Json := (Token.scan? text.toList).bind ofTokens?

end Json

end Schemata
