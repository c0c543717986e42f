import Schemata.Config.Basic
import Schemata.Config.Setting
import Schemata.Json.Reader
import Schemata.Number.Notation
import Schemata.Toml.Reader
import Schemata.Yaml.Reader

/-!
# Loading the configuration

Settings come from files at fixed places, from the directory of the user, from a file that is asked
for, and from the environment, in this order; later ones count. Only the file that is asked for has
to be there and to be readable.

* `Config.ofSettings` turns settings into a configuration;
* `Environment.settings` are the settings of the environment;
* `Config.load` (`load_from`) goes through all layers.
-/

namespace Schemata

/-! ## The environment -/

/-- What a run sees of its surroundings. -/
structure Environment where
  /-- Variables and their values. -/
  bindings : List (String × String)
  /-- The directory of the user's own configuration. -/
  userDirectory : String

namespace Environment

/-- What the names of variables for settings start with. -/
def leadingText : List Char := "cgen__".toList

/-- A name with each pair of underscores as a point. -/
def pointed : List Char → List Char
  | '_' :: '_' :: rest => '.' :: pointed rest
  | c :: rest => c :: pointed rest
  | [] => []

/-- The key of the setting that a variable stands for. -/
def keyOf? (name : String) : Option String :=
  let name := (Text.asciiLower name).toList
  if leadingText.isPrefixOf name then
    some (String.ofList (pointed (name.drop leadingText.length)))
  else none

/-- The sign in front of a word, which may be missing, and the rest of the word. -/
def splitSign : List Char → Bool × List Char
  | '-' :: rest => (true, rest)
  | '+' :: rest => (false, rest)
  | word => (false, word)

/-- The whole number of 64 bits that a word writes. -/
def int? (word : List Char) : Option Int :=
  let (negative, digits) := splitSign word
  if digits.isEmpty || !digits.all Char.isDigit then none
  else
    let n : Int := Decimal.digitsValue digits
    let i := if negative then -n else n
    if -0x8000000000000000 ≤ i && i < 0x8000000000000000 then some i else none

/-- The number that a word writes. -/
def double? (word : List Char) : Option Double :=
  let (negative, body) := splitSign word
  let lower := String.ofList (body.map Char.toLower)
  if lower = "inf" || lower = "infinity" then some (.infinite negative)
  else if lower = "nan" then some .notANumber
  else
    match Decimal.Parts.split? body with
    | some parts =>
      if parts.hasDigit then some (.ofRounded negative (parts.toBinary64? negative)) else none
    | none => none

/-- The scalar that the value of a variable spells. -/
def scalarOf (value : String) : Scalar :=
  let lower := Text.asciiLower value
  if lower = "true" then .bool true
  else if lower = "false" then .bool false
  else match int? value.toList with
    | some i => .int i
    | none =>
      match double? value.toList with
      | some x => .float x
      | none => .text value

/-- The settings of the environment. -/
def settings (e : Environment) : Settings :=
  e.bindings.filterMap fun (name, value) =>
    (keyOf? name).map fun key => (key, .scalar "the environment" (scalarOf value))

end Environment

/-! ## Files -/

/-- The format of a file of settings. -/
inductive SettingsFormat where
  /-- TOML. -/
  | toml
  /-- JSON. -/
  | json
  /-- YAML. -/
  | yaml
deriving DecidableEq

namespace SettingsFormat

/-- Extensions of file names with the formats they stand for. -/
def extensions : List (String × SettingsFormat) :=
  [("toml", .toml), ("json", .json), ("yaml", .yaml), ("yml", .yaml)]

/-- The settings that a text of a format spells. -/
def parse? (origin : String) (text : String) : SettingsFormat → Option Settings
  | .toml => (Toml.parse? text).map (Setting.ofTomlMembers origin)
  | .json => (Json.parse? text).bind (·.members?.map (Setting.ofJsonMembers origin))
  | .yaml => (Yaml.ofText? text).bind (·.members?.map (Setting.ofJsonMembers origin))

end SettingsFormat

namespace Config

/-- The extension of the last segment of a path: what follows the last point, unless nothing stands
in front of it. -/
def extension? (path : String) : Option String :=
  match Text.splitAt '.' ((Path.segments path).getLast?.getD "") with
  | [_] => none
  | ["", _] => none
  | pieces => pieces.getLast?

/-- The file of settings that a path stands for, and its format: the file itself, or the first with
an extension added. -/
def findFile (tree : FileTree) (path : String) : Except ConfigError (String × SettingsFormat) :=
  if tree.isFile path then
    match (extension? path).bind fun e => SettingsFormat.extensions.lookup e with
    | some format => .ok (path, format)
    | none =>
      .error (.unknownFormat (Path.join ("/" ++ "/".intercalate tree.here) path))
  else
    let places := SettingsFormat.extensions.map fun (e, format) => (path ++ "." ++ e, format)
    match places.find? fun (place, _) => tree.isFile place with
    | some found => .ok found
    | none => .error (.missingFile path)

/-- What a file is called in errors: its path from the working directory, without idle segments. -/
def originOf (tree : FileTree) (path : String) : String :=
  let place := (Path.segments path).filter fun s => s ≠ "" && s ≠ "."
  "/".intercalate (Path.between tree.here (tree.start path ++ place))

/-- The settings that the bytes of a file spell. -/
def readFile (tree : FileTree) (path : String) (format : SettingsFormat) (bytes : Bytes) :
    Except ConfigError Settings :=
  let text := String.fromUTF8? ⟨bytes.toArray⟩
  match text.bind fun t => format.parse? (originOf tree path) t with
  | some settings => .ok settings
  | none => .error (.malformedFile path)

/-- Settings with those of a file laid over them. -/
def withFile (tree : FileTree) (settings : Settings) (path : String) :
    Except ConfigError Settings := do
  let (place, format) ← findFile tree path
  let some bytes := tree.read? place | .error (.unreadableFile place)
  return Setting.addLayer settings (← readFile tree place format bytes)

/-- Settings with those of a file laid over them, if there is such a file and it can be read. -/
def withFileIfAny (tree : FileTree) (settings : Settings) (path : String) :
    Except ConfigError Settings :=
  match findFile tree path with
  | .ok (place, format) =>
    match tree.read? place with
    | some bytes => do return Setting.addLayer settings (← readFile tree place format bytes)
    | none => .ok settings
  | .error _ => .ok settings

/-! ## All layers -/

/-- The configuration with the search paths that a setting gives. -/
def setLoader (c : Config) (s : Setting) : Except ConfigError Config := do
  match ← s.parts ["search_paths"] "struct LoaderConfig" with
  | [paths] => return { c with searchPaths := ← Setting.readOr c.searchPaths Setting.texts paths }
  | _ => return c

/-- The configuration with the validation that a setting gives. -/
def setValidation (c : Config) (s : Setting) : Except ConfigError Config := do
  match ← s.parts ["enabled", "meta_schema"] "struct ValidationConfig" with
  | [enabled, metaSchema] =>
    let validates ← Setting.readOr c.validates Setting.truth enabled
    let metaSchema ← Setting.readOr c.metaSchema Setting.text metaSchema
    return { c with validates := validates, metaSchema := metaSchema }
  | _ => return c

/-- The configuration with the output that a setting gives. -/
def setOutput (c : Config) (s : Setting) : Except ConfigError Config := do
  match ← s.parts ["pretty"] "struct OutputConfig" with
  | [pretty] => return { c with pretty := ← Setting.readOr c.pretty Setting.truth pretty }
  | _ => return c

/-- The configuration that settings come to. -/
def ofSettings (settings : Settings) : Except ConfigError Config := do
  let part (key : String) : String × Option Setting := (key, settings.lookup key)
  let c : Config := {}
  let c ← Setting.readOr c c.setLoader (part "loader")
  let c ← Setting.readOr c c.setValidation (part "validation")
  Setting.readOr c c.setOutput (part "output")

/-- Files of settings at fixed places. -/
def standardFiles : List String := ["cgen.toml", ".cgen.toml", "config/cgen.toml"]

/-- The configuration of a run; `path` is the file that is asked for, if there is one. -/
def load (tree : FileTree) (environment : Environment) (path : Option String) :
    Except ConfigError Config := do
  let settings ← standardFiles.foldlM (withFileIfAny tree) []
  let userFile := Path.join environment.userDirectory "cgen.toml"
  let settings ←
    if (tree.resolve? userFile).isSome then withFileIfAny tree settings userFile
    else pure settings
  let settings ← match path with
    | some path => withFile tree settings path
    | none => pure settings
  ofSettings (Setting.addLayer settings environment.settings)

end Config

end Schemata
