/-!
# Errors of configuration

What can be wrong with the settings of a run. An error about a value knows the key under which the
value stands and where it was set.
-/

namespace Schemata

/-- Why there is no configuration. -/
inductive ConfigError where
  /-- A file is not of its format. -/
  | malformedFile (path : String)
  /-- A file that was asked for is missing. -/
  | missingFile (path : String)
  /-- A file that was asked for cannot be read. -/
  | unreadableFile (path : String)
  /-- A file that was asked for is of no known format. -/
  | unknownFormat (path : String)
  /-- A value cannot be turned into what is expected. -/
  | wrongValue (found expected key : String) (origin : Option String)
  /-- A value stands where members or items are expected. -/
  | wrongShape (found expected : String)
deriving DecidableEq

namespace ConfigError

/-- An error with one more segment in front of its key. A point stands between segments, but not in
front of a position in brackets. -/
def under (segment : String) : ConfigError → ConfigError
  | .wrongValue found expected key origin =>
    let point := if key.isEmpty || key.toList.head? = some '[' then "" else "."
    .wrongValue found expected (segment ++ point ++ key) origin
  | e => e

/-- The wording of an error. -/
def message : ConfigError → String
  | .malformedFile path => s!"could not parse {path}"
  | .missingFile path => s!"configuration file \"{path}\" not found"
  | .unreadableFile path => s!"could not read {path}"
  | .unknownFormat path => s!"configuration file \"{path}\" is not of a registered file format"
  | .wrongValue found expected key origin =>
    s!"invalid type: {found}, expected {expected}" ++
      (if key.isEmpty then "" else s!" for key \x60{key}\x60") ++
      (match origin with
        | some place => s!" in {place}"
        | none => "")
  | .wrongShape found expected => s!"invalid type: {found}, expected {expected}"

end ConfigError

end Schemata
