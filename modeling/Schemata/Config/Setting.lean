import Schemata.Config.Error
import Schemata.Json.Basic
import Schemata.Number.Double
import Schemata.Text.CaseMap
import Schemata.Text.Split
import Schemata.Toml.Value

/-!
# Settings in layers

Before it becomes a configuration, a setting is whatever a file or a variable of the environment
says: a scalar, a list, or a table of further settings. Each remembers where it was set. Layers are
laid over each other key by key; of two values that are not both tables, the upper one counts.

* `Setting.overlay` lays one setting over another;
* `Setting.assign` sets the value at a path of keys;
* `Setting.truth`, `Setting.text` and `Setting.texts` turn settings into what is expected.
-/

namespace Schemata

/-- A setting without parts. -/
inductive Scalar where
  /-- The absent value. -/
  | absent
  /-- A truth value. -/
  | bool (b : Bool)
  /-- A whole number. -/
  | int (i : Int)
  /-- Another number. -/
  | float (x : Double)
  /-- A text. -/
  | text (s : String)
deriving DecidableEq

/-- A setting. -/
inductive Setting where
  /-- A scalar, and where it was set. -/
  | scalar (origin : String) (value : Scalar)
  /-- A list, and where it was set. -/
  | list (origin : String) (items : List Setting)
  /-- A table of settings. -/
  | table (members : List (String × Setting))

/-- Settings under keys. -/
abbrev Settings := List (String × Setting)

namespace Setting

/-! ## Sources -/

mutual
/-- A value of TOML as a setting. -/
def ofToml (origin : String) : Toml.Value → Setting
  | .text s => .scalar origin (.text s)
  | .bool b => .scalar origin (.bool b)
  | .int i => .scalar origin (.int i)
  | .float x => .scalar origin (.float x)
  | .date text => .scalar origin (.text text)
  | .array items => .list origin (ofTomlItems origin items)
  | .tables items => .list origin (ofTomlTables origin items)
  | .table _ members => .table (ofTomlMembers origin members)
/-- The items of an array of TOML as settings. -/
def ofTomlItems (origin : String) : List Toml.Value → List Setting
  | [] => []
  | v :: rest => ofToml origin v :: ofTomlItems origin rest
/-- The items of an array of tables of TOML as settings. -/
def ofTomlTables (origin : String) : List (List (String × Toml.Value)) → List Setting
  | [] => []
  | members :: rest => .table (ofTomlMembers origin members) :: ofTomlTables origin rest
/-- The members of a table of TOML as settings. -/
def ofTomlMembers (origin : String) : List (String × Toml.Value) → Settings
  | [] => []
  | (k, v) :: rest => (k, ofToml origin v) :: ofTomlMembers origin rest
end

mutual
/-- A document value as a setting. -/
def ofJson (origin : String) : Json → Setting
  | .null => .scalar origin .absent
  | .bool b => .scalar origin (.bool b)
  | .number (.int i) => .scalar origin (.int i)
  | .number (.float x) => .scalar origin (.float (.finite x))
  | .string s => .scalar origin (.text s)
  | .array items => .list origin (ofJsonItems origin items)
  | .object members => .table (ofJsonMembers origin members)
/-- The items of a sequence as settings. -/
def ofJsonItems (origin : String) : List Json → List Setting
  | [] => []
  | v :: rest => ofJson origin v :: ofJsonItems origin rest
/-- The members of a mapping as settings. -/
def ofJsonMembers (origin : String) : List (String × Json) → Settings
  | [] => []
  | (k, v) :: rest => (k, ofJson origin v) :: ofJsonMembers origin rest
end

/-! ## Layers -/

/-- Settings with a value under a key, in place of an old one. -/
def put (key : String) (v : Setting) : Settings → Settings
  | [] => [(key, v)]
  | (k, old) :: rest => if k = key then (k, v) :: rest else (k, old) :: put key v rest

/-- The settings of a table; nothing but a table has any. -/
def membersOf : Option Setting → Settings
  | some (.table members) => members
  | _ => []

mutual
/-- A setting laid over another one. Keys count without regard to case. An empty table changes
nothing. -/
def overlay (below : Option Setting) : Setting → Setting
  | .table [] => below.getD (.table [])
  | .table (m :: members) => .table (overlayAll (membersOf below) (m :: members))
  | other => other
/-- Settings with others laid over them. -/
def overlayAll (below : Settings) : Settings → Settings
  | [] => below
  | (k, v) :: rest =>
    let key := Text.asciiLower k
    overlayAll (put key (overlay (below.lookup key) v) below) rest
end

/-- Settings with a value at a path of keys; what is in the way of the path goes. -/
def assign (v : Setting) : List String → Settings → Settings
  | [], settings => settings
  | [key], settings => overlayAll settings [(key, v)]
  | key :: rest, settings =>
    put key (.table (assign v rest (membersOf (settings.lookup key)))) settings

/-- A character of a segment in a path of keys. -/
def isSegmentChar (c : Char) : Bool := c.isAlphanum || c = ' ' || c = '_' || c = '-'

/-- The path that a key with points stands for. A key with an empty segment, or with a character
that is in none, is a path by itself. -/
def pathOf (key : String) : List String :=
  let segments := Text.splitAt '.' key
  if segments.all (fun s => !s.isEmpty && s.toList.all isSegmentChar) then segments else [key]

/-- Settings with a layer laid over them. -/
def addLayer (settings layer : Settings) : Settings :=
  layer.foldl (fun below (k, v) => assign v (pathOf k) below) settings

/-! ## What settings come to -/

/-- A character as it stands between quotes in an error. -/
def quoteChar (c : Char) : List Char :=
  match c with
  | '"' => ['\\', '"']
  | '\\' => ['\\', '\\']
  | '\n' => ['\\', 'n']
  | '\r' => ['\\', 'r']
  | '\t' => ['\\', 't']
  | '\x00' => ['\\', '0']
  | c =>
    if c.toNat < 0x20 || (0x7f ≤ c.toNat && c.toNat < 0xa0) then
      ['\\', 'u', '\x7b'] ++ Nat.toDigits 16 c.toNat ++ ['\x7d']
    else [c]

/-- A text in quotes, as it stands in an error. -/
def quote (s : String) : String :=
  String.ofList (['"'] ++ s.toList.flatMap quoteChar ++ ['"'])

/-- A number with a point in it. -/
def withPoint (x : Double) : String :=
  match x with
  | .finite _ => if x.render.toList.contains '.' then x.render else x.render ++ ".0"
  | x => x.render

/-- What a setting is, in the words of an error. -/
def describe : Setting → String
  | .scalar _ .absent => "unit value"
  | .scalar _ (.bool b) => s!"boolean \x60{b}\x60"
  | .scalar _ (.int i) => s!"integer \x60{i}\x60"
  | .scalar _ (.float x) => s!"floating point \x60{withPoint x}\x60"
  | .scalar _ (.text s) => "string " ++ quote s
  | .list .. => "sequence"
  | .table _ => "map"

/-- Where a setting was set. -/
def origin? : Setting → Option String
  | .scalar origin _ => some origin
  | .list origin _ => some origin
  | .table _ => none

/-- The error of a setting that cannot be turned into what is expected. -/
def unfit (s : Setting) (expected : String) : ConfigError :=
  .wrongValue s.describe expected "" s.origin?

/-- The truth value that a word stands for. -/
def truthOfWord? (word : String) : Option Bool :=
  if ["1", "true", "on", "yes"].contains word then some true
  else if ["0", "false", "off", "no"].contains word then some false
  else none

/-- A setting as a truth value: a word for one, or a number that is not zero. -/
def truth (s : Setting) : Except ConfigError Bool :=
  match s with
  | .scalar _ (.bool b) => .ok b
  | .scalar _ (.int i) => .ok (i ≠ 0)
  | .scalar _ (.float x) => .ok x.isNonzero
  | .scalar origin (.text word) =>
    let word := String.ofList (CaseMap.lowerText word.toList)
    match truthOfWord? word with
    | some b => .ok b
    | none => .error (unfit (.scalar origin (.text word)) "a boolean")
  | s => .error (s.unfit "a boolean")

/-- A setting as a text: any scalar is one. -/
def text (s : Setting) : Except ConfigError String :=
  match s with
  | .scalar _ (.bool b) => .ok (if b then "true" else "false")
  | .scalar _ (.int i) => .ok (toString i)
  | .scalar _ (.float x) => .ok x.render
  | .scalar _ (.text t) => .ok t
  | s => .error (s.unfit "a string")

/-- A setting read under a key. -/
def readUnder {α : Type} (key : String) (read : Setting → Except ConfigError α) (s : Setting) :
    Except ConfigError α :=
  (read s).mapError (·.under key)

/-- Items from position `index` on as texts. -/
def itemTexts (index : Nat) : List Setting → Except ConfigError (List String)
  | [] => .ok []
  | s :: rest => do
    let t ← readUnder s!"[{index}]" text s
    return t :: (← itemTexts (index + 1) rest)

/-- A setting as a list of texts. -/
def texts (s : Setting) : Except ConfigError (List String) :=
  match s with
  | .list _ items => itemTexts 0 items
  | s => .error (.wrongShape s.describe "a sequence")

/-- The settings of given members, each with the segment of its key: by key from a table, by
position from a list. -/
def parts (s : Setting) (keys : List String) (expected : String) :
    Except ConfigError (List (String × Option Setting)) :=
  match s with
  | .table members => .ok (keys.map fun k => (k, members.lookup k))
  | .list _ items => .ok (keys.mapIdx fun i _ => (s!"[{i}]", items[i]?))
  | s => .error (.wrongShape s.describe expected)

/-- A part read where there is one, and a default where there is none. -/
def readOr {α : Type} (default : α) (read : Setting → Except ConfigError α)
    (part : String × Option Setting) : Except ConfigError α :=
  match part with
  | (_, none) => .ok default
  | (key, some s) => readUnder key read s

end Setting

end Schemata
