import Schemata.Number.Double

/-!
# Values and tables of TOML

A file is a table of values under keys. Tables come about in four ways, and the way decides what may
be added to them later: a header opens a table once, a longer header opens the tables in front of it
in passing, a dotted key does the same within one table, and an inline table is closed at once.

`Toml.descend` walks to a table under these rules; the functions after it add a pair, a table, and
an item of an array of tables.
-/

namespace Schemata

namespace Toml

/-- How a table came about. -/
inductive TableKind where
  /-- By a header of its own. -/
  | header
  /-- By a header of a table inside it. -/
  | implicit
  /-- By a dotted key. -/
  | dotted
  /-- In braces. -/
  | inlined
deriving DecidableEq

/-- A value. -/
inductive Value where
  /-- A text. -/
  | text (s : String)
  /-- A truth value. -/
  | bool (b : Bool)
  /-- A whole number of 64 bits. -/
  | int (i : Int)
  /-- Another number. -/
  | float (x : Double)
  /-- A date, a time, or both, as text. -/
  | date (text : String)
  /-- An array in brackets. -/
  | array (items : List Value)
  /-- An array whose items are tables with a header each. -/
  | tables (items : List (List (String × Value)))
  /-- A table. -/
  | table (kind : TableKind) (members : List (String × Value))

/-- Values under keys. -/
abbrev Members := List (String × Value)

/-- Members with another value for a key that is among them. -/
def replace (key : String) (v : Value) (members : Members) : Members :=
  members.map fun m => if m.1 = key then (key, v) else m

/-- Members with the table at the end of a path changed; tables missing on the way are made. A
dotted key does not lead into a table that has a header, and nothing leads into an inline table or
into a value. Of an array of tables, the last one is meant. -/
def descend (dotted : Bool) (change : TableKind → Members → Option Members) :
    TableKind → List String → Members → Option Members
  | kind, [], members => change kind members
  | _, key :: rest, members =>
    match members.lookup key with
    | none =>
      let kind : TableKind := if dotted then .dotted else .implicit
      (descend dotted change kind rest []).map fun inner => members ++ [(key, .table kind inner)]
    | some (.table kind inner) =>
      if kind = .inlined || (dotted && kind = .header) then none
      else
        (descend dotted change kind rest inner).map fun inner =>
          replace key (.table kind inner) members
    | some (.tables items) =>
      items.getLast?.bind fun last =>
        (descend dotted change .header rest last).map fun inner =>
          replace key (.tables (items.dropLast ++ [inner])) members
    | some _ => none

/-- Members with a pair added under a dotted key: the path in front of its last part, and that. A
path may only lead to a table made by dotted keys. -/
def addPair (path : List String) (key : String) (v : Value) (kind : TableKind)
    (members : Members) : Option Members :=
  descend true (fun kind members =>
    if (kind = .dotted) = path.isEmpty then none
    else if members.any (·.1 = key) then none
    else some (members ++ [(key, v)])) kind path members

/-- A file with a pair added to the table under the current header. -/
def addUnder (current path : List String) (key : String) (v : Value) (root : Members) :
    Option Members :=
  descend false (addPair path key v) .header current root

/-- A file with a table opened by its header. -/
def openTable (path : List String) (key : String) (root : Members) : Option Members :=
  descend false (fun _ members =>
    match members.lookup key with
    | none => some (members ++ [(key, .table .header [])])
    | some (.table .implicit inner) => some (replace key (.table .header inner) members)
    | some _ => none) .header path root

/-- A file with a further item of an array of tables. -/
def openItem (path : List String) (key : String) (root : Members) : Option Members :=
  descend false (fun _ members =>
    match members.lookup key with
    | none => some (members ++ [(key, .tables [[]])])
    | some (.tables items) => some (replace key (.tables (items ++ [[]])) members)
    | some _ => none) .header path root

end Toml

end Schemata
