import Schemata.Cli.Arguments
import Schemata.Compile
import Schemata.Config.Load
import Schemata.Handoff.Writer

/-!
# A run of the command line

What the program does (`main`, `run`), as a function of its arguments, the files that it sees and
its surroundings: an exit status, two texts, and the files afterwards.
-/

namespace Schemata

namespace Cli

/-- How a run ends. -/
structure Outcome where
  /-- The exit status: 0, 1 after a failure, 2 when the arguments are not understood. -/
  status : Nat
  /-- What is printed. -/
  output : String
  /-- What is printed about failures. -/
  errors : String
  /-- The files afterwards. -/
  tree : FileTree

/-- Why a run fails. -/
inductive Failure where
  /-- There is no configuration. -/
  | config (e : ConfigError)
  /-- The schema is not compiled. -/
  | schema (e : SchemaError)
deriving DecidableEq

/-- The wording of a failure. -/
def Failure.message : Failure → String
  | .config e => "loading config: " ++ e.message
  | .schema e => e.message

/-- A failed run, after it printed something. -/
def Failure.outcome (f : Failure) (output : String) (tree : FileTree) : Outcome :=
  ⟨1, output, s!"Error: {f.message}\n", tree⟩

/-- One line on how the program is called. -/
def usage : String := "Usage: cgen [OPTIONS] <DEFINITION>\n"

/-- A word about the arguments. -/
def help : String :=
  "Compile a schema definition into render data\n\n" ++ usage ++
  "\nArguments:\n" ++
  "  <DEFINITION>  Root schema file\n" ++
  "\nOptions:\n" ++
  "  -i, --input <INPUT>    Extra directory to look schema files up in (repeatable)\n" ++
  "  -c, --config <CONFIG>  Config file (defaults to cgen.toml lookup)\n" ++
  "  -o, --output <OUTPUT>  Output directory [default: .]\n" ++
  "      --no-validate      Skip meta-schema validation\n" ++
  "  -v, --verbose          Print every diagnostic, including informational ones\n" ++
  "  -h, --help             Print help\n"

/-- The line before a compilation. -/
def heading (a : Arguments) : String := s!"📦 Compiling {a.definition}\n"

/-- The report of a compilation: problems, and notes too if they are asked for. -/
def reportOf (a : Arguments) (c : Compilation) : String :=
  let report := c.diagnostics.report (if a.verbose then .info else .warning)
  if report.isEmpty then "" else report ++ "\n"

/-- The lines after a compilation: what there is in the handoff, and where it was written. -/
def summary (c : Compilation) (written : List String) : String :=
  s!"✅ {c.data.types.length} type(s), {c.data.elements.length} element(s), " ++
    s!"digest {c.data.digest.hex}\n" ++
    String.join (written.map fun path => s!"   {path}\n")

/-- The configuration of a run, and its validator. -/
def prepare (tree : FileTree) (environment : Environment) (a : Arguments) :
    Except Failure (Config × Option Validator) := do
  let loaded ← (Config.load tree environment a.config).mapError .config
  let config := if a.skipsValidation then { loaded with validates := false } else loaded
  let validator ← (config.validator tree environment.userDirectory).mapError .schema
  return (config, validator)

/-- A compilation and the writing of its handoff. -/
def compile (tree : FileTree) (a : Arguments) (config : Config) (validator : Option Validator) :
    Outcome :=
  let begun := heading a
  match Compile.file validator tree (config.searchPaths ++ a.inputs) a.definition with
  | .error e => (Failure.schema e).outcome begun tree
  | .ok c =>
    let reported := begun ++ reportOf a c
    match c.data.write config.pretty a.output tree with
    | .error e => (Failure.schema e).outcome reported tree
    | .ok (after, written) => ⟨0, reported ++ summary c written, "", after⟩

/-- A run with given arguments. -/
def runWith (tree : FileTree) (environment : Environment) (a : Arguments) : Outcome :=
  match prepare tree environment a with
  | .error f => f.outcome "" tree
  | .ok (config, validator) => compile tree a config validator

/-- A run of the program. -/
def run (tree : FileTree) (environment : Environment) (words : List String) : Outcome :=
  match Request.ofWords? words with
  | none => ⟨2, "", usage, tree⟩
  | some .help => ⟨0, help, "", tree⟩
  | some (.run a) => runWith tree environment a

end Cli

end Schemata
