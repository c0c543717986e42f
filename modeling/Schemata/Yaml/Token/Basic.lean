/-!
# Tokens of a YAML text

A text is a list of tokens. Indicators and scalars stand in it as written; the structure that
indentation gives a text is spelled out by tokens of its own, which open and close blocks.
-/

namespace Schemata

namespace Yaml

/-- A token. -/
inductive Token where
  /-- The directive that names a version. -/
  | version (major minor : Nat)
  /-- The directive that gives a handle of tags a prefix. -/
  | tagPrefix (handle tagPrefix : String)
  /-- The mark that starts a document. -/
  | documentStart
  /-- The mark that ends a document. -/
  | documentEnd
  /-- The start of an indented sequence. -/
  | blockSequenceStart
  /-- The start of an indented mapping. -/
  | blockMappingStart
  /-- The end of an indented block. -/
  | blockEnd
  /-- An opening bracket. -/
  | flowSequenceStart
  /-- A closing bracket. -/
  | flowSequenceEnd
  /-- An opening brace. -/
  | flowMappingStart
  /-- A closing brace. -/
  | flowMappingEnd
  /-- The hyphen before an item. -/
  | blockEntry
  /-- A comma. -/
  | flowEntry
  /-- A key follows. -/
  | key
  /-- A value follows. -/
  | value
  /-- A name that stands for a node elsewhere. -/
  | aliasTo (name : String)
  /-- A name given to a node. -/
  | anchor (name : String)
  /-- A tag: a handle and what follows it. -/
  | tag (handle suffix : String)
  /-- A scalar, and whether it has neither quotes nor an indicator. -/
  | scalar (isPlain : Bool) (text : String)
deriving DecidableEq

end Yaml

end Schemata
