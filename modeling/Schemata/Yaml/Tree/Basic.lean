/-!
# Trees of a YAML document

A document is a tree of scalars, sequences and mappings in which an alias stands for a node
elsewhere. Nodes may carry a tag and an anchor. An anchor is a number: how many different names of
anchors there were before it. Where two anchors have the same number, the later one counts.

* `Tree.size` is the number of steps in which the tree is written;
* `Tree.anchored` lists the nodes with anchors in the order of the text.
-/

namespace Schemata

namespace Yaml

/-- What stands in front of a node. -/
structure Properties where
  /-- The number of the anchor. -/
  anchor : Option Nat
  /-- The tag, its handle replaced by the prefix that it stands for. -/
  tag : Option String
deriving DecidableEq

/-- No properties. -/
def Properties.none : Properties := ⟨.none, .none⟩

/-- A node of a document. -/
inductive Tree where
  /-- Another node, by the number of its anchor. -/
  | aliasTo (anchor : Nat)
  /-- A scalar, and whether it has neither quotes nor an indicator. -/
  | scalar (properties : Properties) (isPlain : Bool) (text : String)
  /-- A sequence. -/
  | sequence (properties : Properties) (items : List Tree)
  /-- A mapping, its keys and values in order. -/
  | mapping (properties : Properties) (pairs : List (Tree × Tree))

namespace Tree

mutual
/-- Scalars and aliases count once, containers twice. -/
def size : Tree → Nat
  | .aliasTo _ => 1
  | .scalar .. => 1
  | .sequence _ items => 2 + sizeOfItems items
  | .mapping _ pairs => 2 + sizeOfPairs pairs
/-- The size of items together. -/
def sizeOfItems : List Tree → Nat
  | [] => 0
  | t :: rest => size t + sizeOfItems rest
/-- The size of pairs together. -/
def sizeOfPairs : List (Tree × Tree) → Nat
  | [] => 0
  | (k, v) :: rest => size k + size v + sizeOfPairs rest
end

/-- A node under the number of its anchor, if it has one. -/
def underAnchor (p : Properties) (t : Tree) : List (Nat × Tree) :=
  (p.anchor.map fun n => (n, t)).toList

mutual
/-- The nodes with anchors, a container in front of what it holds. -/
def anchored : Tree → List (Nat × Tree)
  | .aliasTo _ => []
  | .scalar p isPlain text => underAnchor p (.scalar p isPlain text)
  | .sequence p items => underAnchor p (.sequence p items) ++ anchoredItems items
  | .mapping p pairs => underAnchor p (.mapping p pairs) ++ anchoredPairs pairs
/-- The nodes with anchors in items. -/
def anchoredItems : List Tree → List (Nat × Tree)
  | [] => []
  | t :: rest => anchored t ++ anchoredItems rest
/-- The nodes with anchors in pairs. -/
def anchoredPairs : List (Tree × Tree) → List (Nat × Tree)
  | [] => []
  | (k, v) :: rest => anchored k ++ anchored v ++ anchoredPairs rest
end

end Tree

end Yaml

end Schemata
