import Schemata.Number.Basic

/-!
# Documents

A document is a tree of scalars, sequences and mappings. A mapping keeps its members in order of
insertion, and that order is part of the value: it decides the order of types, fields and
elements. Equality of terms is therefore equality that includes order; `Json.same` is the looser
one that looks into mappings by key and counts the two zeros as one.

* `Json.put` replaces a member in its place or appends a new one;
* `Json.beq_iff` makes equality of documents decidable.
-/

namespace Schemata

/-- A document value. -/
inductive Json where
  /-- The absent value. -/
  | null
  /-- A truth value. -/
  | bool (value : Bool)
  /-- A number. -/
  | number (value : Number)
  /-- A text. -/
  | string (text : String)
  /-- A sequence. -/
  | array (items : List Json)
  /-- A mapping, its members in order. -/
  | object (members : List (String × Json))
deriving Inhabited

namespace Json

/-! ## Construction -/

/-- A whole number. -/
def int (i : Int) : Json := .number (.int i)

/-- A count. -/
def nat (n : Nat) : Json := .number (.int n)

/-- A sequence of texts. -/
def strings (texts : List String) : Json := .array (texts.map .string)

/-- A value that may be missing; `null` stands for none. -/
def optional {α : Type} (encode : α → Json) : Option α → Json
  | none => .null
  | some a => encode a

/-- The empty mapping. -/
def empty : Json := .object []

/-- A member given the value `value`: in its old place if the key is there, else at the end. -/
def put (key : String) (value : Json) : List (String × Json) → List (String × Json)
  | [] => [(key, value)]
  | (k, v) :: rest => if k = key then (k, value) :: rest else (k, v) :: put key value rest

/-- A mapping from pairs met one after the other; a repeated key keeps its place and takes the
last value. -/
def ofPairs (pairs : List (String × Json)) : List (String × Json) :=
  pairs.foldl (fun members (k, v) => put k v members) []

/-! ## Access -/

/-- The member under a key; nothing for a value that is no mapping. -/
def get? (key : String) : Json → Option Json
  | .object members => members.lookup key
  | _ => none

/-- The text, of a text. -/
def string? : Json → Option String
  | .string s => some s
  | _ => none

/-- The truth value, of a truth value. -/
def bool? : Json → Option Bool
  | .bool b => some b
  | _ => none

/-- The members, of a mapping. -/
def members? : Json → Option (List (String × Json))
  | .object members => some members
  | _ => none

/-- The items, of a sequence. -/
def items? : Json → Option (List Json)
  | .array items => some items
  | _ => none

/-- The number as a count, of a whole number that is not negative. -/
def nat? : Json → Option Nat
  | .number n => n.toNat?
  | _ => none

/-- Whether the value is the absent one. -/
def isNull : Json → Bool
  | .null => true
  | _ => false

/-! ## Equality -/

mutual
/-- Equality of documents, order of members included. -/
def beq : Json → Json → Bool
  | .null, .null => true
  | .bool a, .bool b => a = b
  | .number a, .number b => a = b
  | .string a, .string b => a = b
  | .array a, .array b => beqItems a b
  | .object a, .object b => beqMembers a b
  | _, _ => false
/-- Equality of sequences, item by item. -/
def beqItems : List Json → List Json → Bool
  | [], [] => true
  | a :: as, b :: bs => beq a b && beqItems as bs
  | _, _ => false
/-- Equality of member lists, member by member. -/
def beqMembers : List (String × Json) → List (String × Json) → Bool
  | [], [] => true
  | (k, a) :: as, (l, b) :: bs => k = l && beq a b && beqMembers as bs
  | _, _ => false
end

mutual
theorem beq_iff : ∀ a b : Json, beq a b = true ↔ a = b
  | .null, b => by cases b <;> simp [beq]
  | .bool _, b => by cases b <;> simp [beq]
  | .number _, b => by cases b <;> simp [beq]
  | .string _, b => by cases b <;> simp [beq]
  | .array as, b => by cases b <;> simp [beq, beqItems_iff as]
  | .object as, b => by cases b <;> simp [beq, beqMembers_iff as]
theorem beqItems_iff : ∀ as bs : List Json, beqItems as bs = true ↔ as = bs
  | [], bs => by cases bs <;> simp [beqItems]
  | a :: as, bs => by cases bs <;> simp [beqItems, beq_iff a, beqItems_iff as]
theorem beqMembers_iff : ∀ as bs : List (String × Json), beqMembers as bs = true ↔ as = bs
  | [], bs => by cases bs <;> simp [beqMembers]
  | (k, a) :: as, bs => by
    cases bs with
    | nil => simp [beqMembers]
    | cons b bs => simp [beqMembers, beq_iff a, beqMembers_iff as, Prod.ext_iff, and_assoc]
end

instance : DecidableEq Json := fun a b => decidable_of_iff _ (beq_iff a b)

mutual
/-- Equality that looks into mappings by key, whatever their order, and counts zeros as one. -/
def same : Json → Json → Bool
  | .null, .null => true
  | .bool a, .bool b => a = b
  | .number a, .number b => a.same b
  | .string a, .string b => a = b
  | .array a, .array b => sameItems a b
  | .object a, .object b => a.length = b.length && sameMembers a b
  | _, _ => false
/-- Equality of sequences under `same`. -/
def sameItems : List Json → List Json → Bool
  | [], [] => true
  | a :: as, b :: bs => same a b && sameItems as bs
  | _, _ => false
/-- Every member of the first list has an equal one under its key in the second. -/
def sameMembers : List (String × Json) → List (String × Json) → Bool
  | [], _ => true
  | (k, a) :: as, bs =>
    (match bs.lookup k with
      | some b => same a b
      | none => false) && sameMembers as bs
end

end Json

end Schemata
