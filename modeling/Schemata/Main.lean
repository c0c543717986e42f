import Schemata.Cli.Run

/-!
# The program

Gathers the files that a run looks at, lets `Cli.run` decide what happens, and does it. What a run
looks at is known from its arguments, then from its settings, and then from the references in the
files themselves. Everything on the way to a path is gathered with it: directories, the links among
them, and files, also those that cannot be read.

* `Machine.snapshot` gathers the files for the words of a command line;
* `Machine.writeBack` writes those that a run has changed.
-/

namespace Schemata

namespace Machine

/-! ## What stands on the machine -/

/-- What stands at a name, as a place of the machine. Names below the working directory are looked
up from there, since that may not be reached from the root. -/
def placeOf (tree : FileTree) (name : FileName) : IO.FS.DirEntry :=
  if name.take tree.here.length = tree.here then
    ⟨".", "/".intercalate ("." :: name.drop tree.here.length)⟩
  else ⟨"/", Path.absolute name⟩

/-- The tree with a directory, closed if not even the directory itself can be looked up in it. -/
def addDirectory (tree : FileTree) (name : FileName) : IO FileTree := do
  let made := tree.addDirectory name
  if ← ((placeOf tree name).path / ".").pathExists then return made
  else return { made with closed := name :: made.closed }

/-- The tree with what stands at a name, but not what a directory holds: a file with its bytes if it
can be read, a link with the absolute path that it leads to, if it leads anywhere. -/
def meet (tree : FileTree) (name : FileName) : IO FileTree := do
  if tree.existsAt name || (tree.links.lookup name).isSome then return tree
  let path := (placeOf tree name).path
  try
    match (← path.symlinkMetadata).type with
    | .dir => addDirectory tree name
    | .file =>
      let bytes ← try some <$> IO.FS.readBinFile path catch _ => pure none
      return { tree with files := (name, bytes.map (·.toList)) :: tree.files }
    | .symlink =>
      return { tree with links := (name, (← IO.FS.realPath path).toString) :: tree.links }
    | .other => return tree
  catch _ => return tree

/-- The tree with everything on the way from a name along segments. -/
partial def meetAlong (tree : FileTree) (name : FileName) : List String → IO FileTree
  | [] => return tree
  | segment :: rest => do
    if Path.isIdle segment then meetAlong tree name rest
    else if segment = ".." then meetAlong tree name.dropLast rest
    else
      let next := name ++ [segment]
      let met ← meet tree next
      match met.links.lookup next with
      | some target => meetAlong met [] (Path.segments target ++ rest)
      | none => meetAlong met next rest

/-- The tree with everything on the way to a path. -/
def meetPath (tree : FileTree) (path : String) : IO FileTree :=
  meetAlong tree (tree.start path) (Path.segments path)

/-- The working directory and those above it, up to the first closed one: what stands below that
cannot be looked up from the root anyway. -/
def surroundingTree (here : FileName) : IO FileTree := do
  let mut tree := FileTree.ofDirectory here
  for depth in List.range here.length do
    if tree.closed.isEmpty then
      tree ← addDirectory tree (here.take depth)
  addDirectory tree here

/-! ## What a run looks at -/

/-- Variables of the environment that are settings. -/
def settingNames : List String :=
  let keys := ["LOADER__SEARCH_PATHS", "VALIDATION__ENABLED", "VALIDATION__META_SCHEMA",
    "OUTPUT__PRETTY", "LOADER", "VALIDATION", "OUTPUT"]
  let names := keys.map ("CGEN__" ++ ·)
  names ++ names.map Text.asciiLower

/-- The directory of the user's own configuration. -/
def userDirectory : IO String := do
  match ← IO.getEnv "XDG_CONFIG_HOME" with
  | some directory =>
    if Path.isAbsolute directory then return Path.join directory "cgen"
  | none => pure ()
  return Path.join ((← IO.getEnv "HOME").getD "/") ".config/cgen"

/-- What a run sees of its surroundings. -/
def surroundings : IO Environment := do
  let bindings ← settingNames.filterMapM fun name => do
    return (← IO.getEnv name).map fun value => (name, value)
  return ⟨bindings, ← userDirectory⟩

/-- Paths at which settings are looked for. -/
def settingPaths (environment : Environment) (a : Cli.Arguments) : List String :=
  let files := Config.standardFiles ++
    [Path.join environment.userDirectory "cgen.toml"] ++ a.config.toList
  files ++ files.flatMap fun file =>
    SettingsFormat.extensions.map fun (extension, _) => file ++ "." ++ extension

/-- Paths at which the files that a file refers to are looked for. -/
def referredPaths (searchPaths : List String) (path : String) (bytes : Bytes) : List String :=
  (((Yaml.read? bytes).map Json.links).getD []).flatMap fun reference =>
    match Reference.split reference with
    | .ok (file, _) =>
      if file.isEmpty then [] else SourceSet.candidates searchPaths file (some path)
    | .error _ => []

/-- The tree with everything on the way to given paths, and to the files that are referred to there.
A file is gone through once for each directory beside which its references are looked for. -/
partial def meetReferred (searchPaths : List String)
    (seen : List (Option FileName × Option FileName)) (tree : FileTree) :
    List String → IO FileTree
  | [] => return tree
  | path :: rest => do
    let tree ← meetPath tree path
    let beside := (Path.parent? path).map (Path.join "." ·)
    let file := (tree.resolve? path, beside.bind tree.resolve?)
    match tree.read? path with
    | some bytes =>
      if seen.contains file then meetReferred searchPaths seen tree rest
      else
        meetReferred searchPaths (file :: seen) tree (referredPaths searchPaths path bytes ++ rest)
    | none => meetReferred searchPaths seen tree rest

/-- Paths to which a run writes. -/
def outputPaths (tree : FileTree) (searchPaths : List String) (a : Cli.Arguments) : List String :=
  match Compile.file none tree searchPaths a.definition with
  | .ok c => [a.output, c.data.outputPath a.output]
  | .error _ => []

/-- The files that the words of a command line call for. -/
def snapshot (environment : Environment) (words : List String) : IO FileTree := do
  let here := (Path.segments (← IO.currentDir).toString).filter (!Path.isIdle ·)
  let tree ← surroundingTree here
  match Cli.Request.ofWords? words with
  | none | some .help => return tree
  | some (.run a) =>
    let tree ← (settingPaths environment a).foldlM meetPath tree
    match Config.load tree environment a.config with
    | .error _ => return tree
    | .ok config =>
      let searchPaths := config.searchPaths ++ a.inputs
      let tree ← (config.metaSchemaCandidates environment.userDirectory).foldlM meetPath tree
      let tree ← meetReferred searchPaths [] tree
        (SourceSet.candidates searchPaths a.definition none)
      (outputPaths tree searchPaths a).foldlM meetPath tree

/-! ## Writing -/

/-- Write the files of a tree that are new or other than in the tree before. -/
def writeBack (before after : FileTree) : IO Unit := do
  for (name, bytes) in after.files do
    if let some bytes := bytes then
      if before.bytesAt? name ≠ some bytes then
        IO.FS.createDirAll (placeOf after name.dropLast).path
        IO.FS.writeBinFile (placeOf after name).path ⟨bytes.toArray⟩

end Machine

end Schemata

open Schemata Machine in
/-- Run the program. -/
def main (words : List String) : IO UInt32 := do
  let environment ← surroundings
  let tree ← snapshot environment words
  let outcome := Cli.run tree environment words
  writeBack tree outcome.tree
  IO.print outcome.output
  IO.eprint outcome.errors
  return UInt32.ofNat outcome.status
