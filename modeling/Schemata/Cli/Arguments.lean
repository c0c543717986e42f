import Schemata.FileTree.Path

/-!
# Arguments of the command line

The words of a command line are read twice. First each becomes an item: a flag, an option with its
value, a definition, or a mistake. Then the items are collected in order, and the first mistake, or
the first call for help, decides.

* `Item.ofWords` reads words;
* `Request.ofWords?` collects what is asked for.
-/

namespace Schemata

namespace Cli

/-- A flag. -/
inductive Flag where
  /-- `--no-validate`. -/
  | noValidate
  /-- `-v`, `--verbose`. -/
  | verbose
  /-- `-h`, `--help`. -/
  | help
deriving DecidableEq

/-- An option that has a value. -/
inductive Valued where
  /-- `-i`, `--input`. -/
  | input
  /-- `-c`, `--config`. -/
  | config
  /-- `-o`, `--output`. -/
  | output
deriving DecidableEq

/-- A flag or an option by its name. -/
inductive Switch where
  /-- A flag. -/
  | flag (f : Flag)
  /-- An option that has a value. -/
  | valued (o : Valued)
deriving DecidableEq

/-- Long names. -/
def longNames : List (String × Switch) :=
  [("input", .valued .input), ("config", .valued .config), ("output", .valued .output),
    ("no-validate", .flag .noValidate), ("verbose", .flag .verbose), ("help", .flag .help)]

/-- Names of one letter. -/
def shortNames : List (Char × Switch) :=
  [('i', .valued .input), ('c', .valued .config), ('o', .valued .output),
    ('v', .flag .verbose), ('h', .flag .help)]

/-! ## Items -/

/-- What a word, or an option and its value, comes to. -/
inductive Item where
  /-- A flag. -/
  | flag (f : Flag)
  /-- An option and its value. -/
  | value (o : Valued) (text : String)
  /-- A word that is no option. -/
  | definition (text : String)
  /-- Something that must not stand here. -/
  | mistake
deriving DecidableEq

namespace Item

/-- A word that begins with two dashes, without them: a name, and a value after a `=`. An option
without a value takes the next word. -/
def ofLong (body : List Char) : List Item × Option Valued :=
  let name := String.ofList (body.takeWhile (· ≠ '='))
  match longNames.lookup name, body.dropWhile (· ≠ '=') with
  | some (.flag f), [] => ([.flag f], none)
  | some (.valued o), [] => ([], some o)
  | some (.valued o), _ :: text => ([.value o (String.ofList text)], none)
  | _, _ => ([.mistake], none)

/-- A word that begins with one dash, without it: flags of one letter each, and last an option with
its value, in front of which a `=` may stand. An option without a value takes the next word. -/
def ofShort : List Char → List Item × Option Valued
  | [] => ([], none)
  | c :: rest =>
    match shortNames.lookup c with
    | some (.flag f) =>
      let (items, pending) := ofShort rest
      (.flag f :: items, pending)
    | some (.valued o) =>
      match rest with
      | [] => ([], some o)
      | '=' :: text => ([.value o (String.ofList text)], none)
      | text => ([.value o (String.ofList text)], none)
    | none => ([.mistake], none)

/-- A word by itself, and the option that takes the next word as its value. -/
def ofWord (word : String) : List Item × Option Valued :=
  match word.toList with
  | '-' :: '-' :: body => ofLong body
  | '-' :: c :: rest => ofShort (c :: rest)
  | _ => ([.definition word], none)

/-- Whether a word can be the value of an option in front of it. A single dash can. -/
def isValue (word : String) : Bool := word = "-" || word.toList.head? ≠ some '-'

/-- Words in order; `pending` is the option that waits for its value. After two dashes alone, no
word is an option. -/
def readWords : Option Valued → List String → List Item
  | none, [] => []
  | some _, [] => [.mistake]
  | some o, word :: rest =>
    if isValue word then .value o word :: readWords none rest else [.mistake]
  | none, word :: rest =>
    if word = "--" then rest.map .definition
    else
      let (items, pending) := ofWord word
      items ++ readWords pending rest

/-- The items of a command line. -/
def ofWords (words : List String) : List Item := readWords none words

end Item

/-! ## What is asked for -/

/-- The arguments of a run. -/
structure Arguments where
  /-- The schema file to compile. -/
  definition : String
  /-- Further directories to look schema files up in. -/
  inputs : List String := []
  /-- A file of settings. -/
  config : Option String := none
  /-- The directory of the handoff. -/
  output : String := "."
  /-- Whether the document is compiled as it is. -/
  skipsValidation : Bool := false
  /-- Whether notes are reported as well as problems. -/
  verbose : Bool := false
deriving DecidableEq

/-- Arguments seen so far. -/
structure Seen where
  /-- The schema file. -/
  definition : Option String := none
  /-- Further directories. -/
  inputs : List String := []
  /-- A file of settings. -/
  config : Option String := none
  /-- The directory of the handoff. -/
  output : Option String := none
  /-- Whether `--no-validate` was seen. -/
  noValidate : Bool := false
  /-- Whether `--verbose` was seen. -/
  verbose : Bool := false
deriving DecidableEq

/-- What a command line asks for. -/
inductive Request where
  /-- A compilation. -/
  | run (arguments : Arguments)
  /-- A word about the arguments. -/
  | help
deriving DecidableEq

namespace Seen

/-- What was seen with one more item. A value must not be empty, and all but `--input` may be given
only once. -/
def add? (s : Seen) : Item → Option Seen
  | .value .input text => if text.isEmpty then none else some { s with inputs := s.inputs ++ [text] }
  | .value .config text =>
    if text.isEmpty || s.config.isSome then none else some { s with config := some text }
  | .value .output text =>
    if text.isEmpty || s.output.isSome then none else some { s with output := some text }
  | .definition text =>
    if text.isEmpty || s.definition.isSome then none else some { s with definition := some text }
  | .flag .noValidate => if s.noValidate then none else some { s with noValidate := true }
  | .flag .verbose => if s.verbose then none else some { s with verbose := true }
  | .flag .help => none
  | .mistake => none

/-- The arguments, once the definition was seen. -/
def arguments? (s : Seen) : Option Arguments :=
  s.definition.map fun definition =>
    { definition, inputs := s.inputs, config := s.config, output := s.output.getD ".",
      skipsValidation := s.noValidate, verbose := s.verbose }

/-- What items ask for after others were seen. -/
def collect? (s : Seen) : List Item → Option Request
  | [] => s.arguments?.map .run
  | .flag .help :: _ => some .help
  | item :: rest => (s.add? item).bind (collect? · rest)

end Seen

/-- What the words of a command line ask for; nothing if they are not understood. -/
def Request.ofWords? (words : List String) : Option Request :=
  Seen.collect? {} (Item.ofWords words)

end Cli

end Schemata
