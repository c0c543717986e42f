import Schemata.Yaml.Token.Basic
import Schemata.Yaml.Tree.Basic

/-!
# From tokens to a tree

The grammar of a document over its tokens. A stream holds at most one document. A node is an alias,
or properties with a scalar or a container; where a node may be missing, an empty plain scalar
stands in for it. The items of a sequence that is a value may stand at the column of its key, and
then no tokens mark its start and end.

Every rule that calls another one for the same token comes before the rules that take a token, and
there are at most three such rules in a row, so the recursion is bounded by the number of tokens.
-/

namespace Schemata

namespace Yaml

namespace Grammar

/-! ## State -/

/-- What the rules of the grammar know. -/
structure State where
  /-- Tokens that are still to come. -/
  tokens : List Token
  /-- The prefixes that handles of tags stand for. -/
  prefixes : List (String × String)
  /-- The names of anchors so far with their numbers. -/
  anchors : List (String × Nat)

/-- A rule of the grammar: what it reads, and the state behind it. -/
abbrev Rule := StateT State Option

/-- The next token. -/
def peek : Rule (Option Token) := do return (← get).tokens.head?

/-- The next token taken. -/
def skip : Rule Unit := modify fun s => { s with tokens := s.tokens.tail }

/-- The next token taken if it is the given one. -/
def skipIf (t : Token) : Rule Bool := do
  if (← peek) = some t then
    skip
    return true
  else return false

/-- The number of a new anchor. -/
def nameAnchor (name : String) : Rule Nat := do
  let s ← get
  let number := s.anchors.length
  let known := s.anchors.any (·.1 = name)
  let anchors :=
    if known then s.anchors.map fun a => if a.1 = name then (name, number) else a
    else s.anchors ++ [(name, number)]
  set { s with anchors := anchors }
  return number

/-- The number that the name of an alias stands for. -/
def findAnchor (name : String) : Rule Nat := do
  let s ← get
  match s.anchors.lookup name with
  | some number => return number
  | none => failure

/-- The tag that a handle and a suffix stand for. -/
def resolveTag (handle suffix : String) : Rule String := do
  if handle.isEmpty then return suffix
  match (← get).prefixes.lookup handle with
  | some tagPrefix => return tagPrefix ++ suffix
  | none => failure

/-- An anchor and a tag in either order, each at most once. -/
def properties : Rule (Option String × Option String) := do
  match ← peek with
  | some (.anchor name) =>
    skip
    match ← peek with
    | some (.tag handle suffix) =>
      skip
      return (some name, some (← resolveTag handle suffix))
    | _ => return (some name, none)
  | some (.tag handle suffix) =>
    skip
    match ← peek with
    | some (.anchor name) =>
      skip
      return (some name, some (← resolveTag handle suffix))
    | _ => return (none, some (← resolveTag handle suffix))
  | _ => return (none, none)

/-- The node that stands in for a missing one. -/
def missing : Tree := .scalar .none true ""

/-- Tokens that end a value in a block mapping. -/
def endsBlockValue : Option Token → Bool
  | some .key | some .value | some .blockEnd => true
  | _ => false

/-- Tokens that end an item of a block sequence. -/
def endsBlockItem : Option Token → Bool
  | some .blockEntry | some .blockEnd => true
  | _ => false

/-- Tokens that end a key in braces. -/
def endsFlowKey : Option Token → Bool
  | some .value | some .flowEntry | some .flowMappingEnd => true
  | _ => false

/-- Tokens that end a value in braces. -/
def endsFlowValue : Option Token → Bool
  | some .flowEntry | some .flowMappingEnd => true
  | _ => false

/-- Tokens that end a value of a pair in brackets. -/
def endsPairValue : Option Token → Bool
  | some .flowEntry | some .flowSequenceEnd => true
  | _ => false

/-! ## Nodes -/

mutual
/-- A node. Where `indentless` holds, the items of a sequence may follow directly. -/
def node (indentless : Bool) : Nat → Rule Tree
  | 0 => failure
  | fuel + 1 => do
    if let some (.aliasTo name) ← peek then
      skip
      return .aliasTo (← findAnchor name)
    let (anchor, tag) ← properties
    let next ← peek
    let number ← anchor.mapM nameAnchor
    let p : Properties := ⟨number, tag⟩
    match next with
    | some (.scalar isPlain text) =>
      skip
      return .scalar { p with tag := tag.filter (· ≠ "!") } isPlain text
    | some .flowSequenceStart =>
      skip
      return .sequence p (← flowItems true fuel)
    | some .flowMappingStart =>
      skip
      return .mapping p (← flowPairs true fuel)
    | some .blockSequenceStart =>
      skip
      return .sequence p (← blockItems fuel)
    | some .blockMappingStart =>
      skip
      return .mapping p (← blockPairs fuel)
    | next =>
      if indentless && next = some .blockEntry then
        return .sequence p (← indentlessItems fuel)
      else if anchor.isSome || tag.isSome then return .scalar p true ""
      else failure
/-- The items of an indented sequence, and its end. -/
def blockItems : Nat → Rule (List Tree)
  | 0 => failure
  | fuel + 1 => do
    if ← skipIf .blockEnd then return []
    if !(← skipIf .blockEntry) then failure
    let item ← if endsBlockItem (← peek) then pure missing else node false fuel
    return item :: (← blockItems fuel)
/-- The items of a sequence at the column of its key. -/
def indentlessItems : Nat → Rule (List Tree)
  | 0 => failure
  | fuel + 1 => do
    if !(← skipIf .blockEntry) then return []
    let next ← peek
    let item ←
      if endsBlockItem next || endsBlockValue next then pure missing else node false fuel
    return item :: (← indentlessItems fuel)
/-- The pairs of an indented mapping, and its end. -/
def blockPairs : Nat → Rule (List (Tree × Tree))
  | 0 => failure
  | fuel + 1 => do
    if ← skipIf .blockEnd then return []
    if !(← skipIf .key) then failure
    let key ← if endsBlockValue (← peek) then pure missing else node true fuel
    let value ←
      if ← skipIf .value then
        if endsBlockValue (← peek) then pure missing else node true fuel
      else pure missing
    return (key, value) :: (← blockPairs fuel)
/-- The items in brackets, and the closing bracket. All but the first follow a comma. -/
def flowItems (first : Bool) : Nat → Rule (List Tree)
  | 0 => failure
  | fuel + 1 => do
    if ← skipIf .flowSequenceEnd then return []
    if !first then
      if !(← skipIf .flowEntry) then failure
    if ← skipIf .flowSequenceEnd then return []
    let item ← if ← skipIf .key then flowPair fuel else node false fuel
    return item :: (← flowItems false fuel)
/-- A single pair in brackets, which is a mapping by itself. -/
def flowPair : Nat → Rule Tree
  | 0 => failure
  | fuel + 1 => do
    let next ← peek
    let key ←
      if endsPairValue next || next = some .value then do
        skip
        pure missing
      else node false fuel
    let value ←
      if ← skipIf .value then
        if endsPairValue (← peek) then pure missing else node false fuel
      else pure missing
    return .mapping .none [(key, value)]
/-- The pairs in braces, and the closing brace. All but the first follow a comma. -/
def flowPairs (first : Bool) : Nat → Rule (List (Tree × Tree))
  | 0 => failure
  | fuel + 1 => do
    if ← skipIf .flowMappingEnd then return []
    if !first then
      if !(← skipIf .flowEntry) then failure
    if ← skipIf .flowMappingEnd then return []
    let pair ←
      if ← skipIf .key then do
        let key ← if endsFlowKey (← peek) then pure missing else node false fuel
        let value ←
          if ← skipIf .value then
            if endsFlowValue (← peek) then pure missing else node false fuel
          else pure missing
        pure (key, value)
      else do
        let key ← node false fuel
        pure (key, missing)
    return pair :: (← flowPairs false fuel)
end

/-! ## Documents -/

/-- The prefixes that stand for themselves in every document. -/
def standardPrefixes : List (String × String) := [("!", "!"), ("!!", "tag:yaml.org,2002:")]

/-- The directives in front of a document: at most one version, and each handle at most once. -/
def directives (seenVersion : Bool) (handles : List (String × String)) :
    List Token → Option (List (String × String) × List Token)
  | .version major minor :: rest =>
    if seenVersion || major ≠ 1 || (minor ≠ 1 && minor ≠ 2) then none
    else directives true handles rest
  | .tagPrefix handle tagPrefix :: rest =>
    if handles.any (·.1 = handle) then none
    else directives seenVersion (handles ++ [(handle, tagPrefix)]) rest
  | rest => some (handles, rest)

/-- Whether a token belongs to the frame of documents and not into one. -/
def isFrame : Token → Bool
  | .version .. | .tagPrefix .. | .documentStart | .documentEnd => true
  | _ => false

/-- Levels of recursion that the tokens cannot use up. -/
def levels (tokens : List Token) : Nat := 3 * tokens.length + 3

/-- The node at the start of tokens, and the tokens behind it. -/
def content? (prefixes : List (String × String)) (tokens : List Token) :
    Option (Tree × List Token) :=
  ((node false (levels tokens)).run ⟨tokens, prefixes ++ standardPrefixes, []⟩).map
    fun (t, s) => (t, s.tokens)

/-- The document at the start of tokens, and the tokens behind it. -/
def document? (tokens : List Token) : Option (Tree × List Token) :=
  match tokens with
  | .version .. :: _ | .tagPrefix .. :: _ | .documentStart :: _ => do
    let (prefixes, rest) ← directives false [] tokens
    match rest with
    | .documentStart :: rest' =>
      if rest'.head?.all isFrame then some (missing, rest') else content? prefixes rest'
    | _ => none
  | _ => content? [] tokens

end Grammar

/-- The one document of a stream of tokens; the outer option tells a stream that is wrong, the
inner one a stream without a document. -/
def Tree.ofTokens? (tokens : List Token) : Option (Option Tree) :=
  if tokens.isEmpty then some none
  else
    match Grammar.document? tokens with
    | none => none
    | some (t, rest) =>
      if (rest.dropWhile (· = .documentEnd)).isEmpty then some (some t) else none

end Yaml

end Schemata
