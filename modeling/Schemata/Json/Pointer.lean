import Schemata.Json.Basic
import Schemata.Text.Split

/-!
# Pointers into a document

A pointer is a path of keys and indices. Written down, each step stands behind a slash, with `~`
and `/` inside a step written `~0` and `~1`. `Json.at?` follows a path of written steps, and
`Pointer.write` writes one.
-/

namespace Schemata

namespace Pointer

/-! ## Escapes -/

/-- Each `~1` read as a slash. -/
def readSlashes : List Char → List Char
  | '~' :: '1' :: rest => '/' :: readSlashes rest
  | c :: rest => c :: readSlashes rest
  | [] => []

/-- Each `~0` read as a tilde. -/
def readTildes : List Char → List Char
  | '~' :: '0' :: rest => '~' :: readTildes rest
  | c :: rest => c :: readTildes rest
  | [] => []

/-- The key that a written step stands for: slashes are read first, then tildes. -/
def unescape (step : List Char) : String := String.ofList (readTildes (readSlashes step))

/-- One character of a key in a written step. -/
def escapeChar (c : Char) : List Char :=
  if c = '~' then ['~', '0'] else if c = '/' then ['~', '1'] else [c]

/-- A key as a written step. -/
def escape (key : String) : List Char := key.toList.flatMap escapeChar

/-- A path of keys as text, a slash in front of each. -/
def write (path : List String) : String :=
  String.ofList (path.flatMap fun key => '/' :: escape key)

/-! ## Indices -/

/-- The index that a key stands for: decimal digits, perhaps after a plus sign, that fit a 64-bit
word. -/
def index? (key : String) : Option Nat :=
  let digits := match key.toList with
    | '+' :: rest => rest
    | cs => cs
  if digits = [] || digits.any (fun c => !c.isDigit) then none
  else
    let n := digits.foldl (fun n c => 10 * n + (c.toNat - '0'.toNat)) 0
    if n < UInt64.size then some n else none

end Pointer

namespace Json

/-- The value one step down under a key, or under an index for a sequence. -/
def step? (value : Json) (key : String) : Option Json :=
  match value with
  | .object members => members.lookup key
  | .array items => (Pointer.index? key).bind fun i => items[i]?
  | _ => none

/-- The value at the end of a path of keys. -/
def at? (value : Json) : List String → Option Json
  | [] => some value
  | key :: rest => (value.step? key).bind fun next => next.at? rest

end Json

end Schemata
