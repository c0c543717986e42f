import Schemata.Config.Basic
import Schemata.Toml.Quoted

/-!
# Writing the configuration

A configuration as a file that can be loaded again (`save`).
-/

namespace Schemata

namespace Config

/-- A list of texts: on one line if there are fewer than two, otherwise one line for each. -/
def listText (texts : List String) : String :=
  match texts with
  | [] => "[]"
  | [one] => "[" ++ Toml.Quoted.write one ++ "]"
  | many =>
    "[\n" ++ String.join (many.map fun t => "    " ++ Toml.Quoted.write t ++ ",\n") ++ "]"

/-- The word for a truth value. -/
def truthText (b : Bool) : String := if b then "true" else "false"

/-- The configuration as a file. -/
def toToml (c : Config) : String :=
  "[loader]\n" ++
  "search_paths = " ++ listText c.searchPaths ++ "\n\n" ++
  "[validation]\n" ++
  "enabled = " ++ truthText c.validates ++ "\n" ++
  "meta_schema = " ++ Toml.Quoted.write c.metaSchema ++ "\n\n" ++
  "[output]\n" ++
  "pretty = " ++ truthText c.pretty ++ "\n"

end Config

end Schemata
