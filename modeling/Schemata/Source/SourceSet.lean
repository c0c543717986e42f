import Schemata.Digest.Sources
import Schemata.FileTree.Basic
import Schemata.Json.Merge
import Schemata.Source.Reference
import Schemata.Yaml.Reader

/-!
# Source files

A schema may be spread over files that refer to each other. They are loaded into one document: the
file itself after every file that it refers to, each once, and each laid over what was loaded before
it. A reference to a file is turned into a reference into the document. Files are told apart by
their absolute paths, or by their paths as written where there is none. Once a file has been found
it counts as loaded, even if it cannot be read, and once it has been read it is hashed, even if
something is wrong with it.

Loading (`load`, `load_file`) follows references (`load_references`, `load_reference`) level by
level. Every level marks a further key as loaded, so as many levels as there are files and paths are
never used up (`FileTree.levels`).

* `SourceSet.locate` (`locate`) finds a file in its candidates;
* `Json.localize` (`load_references`) replaces the references to files in a document;
* `SourceSet.load` (`load`) loads a file with everything it refers to.
-/

namespace Schemata

/-- The files loaded so far. -/
structure SourceSet where
  /-- Directories in which files are looked for, in order. -/
  searchPaths : List String
  /-- The keys of the files loaded. -/
  loaded : List PathKey
  /-- All of them as one document. -/
  document : Json
  /-- What has been hashed. -/
  digest : SourceDigest

/-- A step of loading. What was loaded before a failure stays. -/
abbrev Load := ExceptT SchemaError (StateM SourceSet)

namespace Json

mutual
/-- A document with every text under a `$ref` key replaced. -/
def localize (replace : String → Load String) : Json → Load Json
  | .array items => return .array (← localizeItems replace items)
  | .object members => return .object (← localizeMembers replace members)
  | other => return other
/-- The items of a sequence, one after the other. -/
def localizeItems (replace : String → Load String) : List Json → Load (List Json)
  | [] => return []
  | a :: rest => return (← localize replace a) :: (← localizeItems replace rest)
/-- The members of a mapping, one after the other. -/
def localizeMembers (replace : String → Load String) :
    List (String × Json) → Load (List (String × Json))
  | [] => return []
  | (k, a) :: rest => do
    let a ←
      if k = "$ref" then
        match a with
        | .string reference => .string <$> replace reference
        | other => pure other
      else localize replace a
    return (k, a) :: (← localizeMembers replace rest)
end

end Json

namespace SourceSet

/-- No files yet. -/
def empty (searchPaths : List String) : SourceSet := ⟨searchPaths, [], .empty, .empty⟩

/-- Where a file is looked for: at its path, in the search paths, and beside the file that refers to
it. -/
def candidates (searchPaths : List String) (file : String) (referrer : Option String) :
    List String :=
  file :: searchPaths.map (Path.join · file) ++
    ((referrer.bind Path.parent?).map (Path.join · file)).toList

/-- The first place at which a file is. -/
def locate (tree : FileTree) (searchPaths : List String) (file : String)
    (referrer : Option String) : Except SchemaError String :=
  let places := candidates searchPaths file referrer
  match places.find? tree.isFile with
  | some path => .ok path
  | none => .error (.fileNotFound file places)

/-- The document that the bytes of a file spell; it has to be a mapping, or nothing at all. -/
def readRoot (path : String) (bytes : Bytes) : Except SchemaError Json :=
  match Yaml.read? bytes with
  | some (.object members) => .ok (.object members)
  | some .null => .ok .empty
  | some _ => .error (.invalidSection s!"{path} (document root)")
  | none => .error .yaml

/-- A file with everything it refers to, unless it has been loaded. -/
def loadFile (tree : FileTree) : Nat → String → Option String → Load Unit
  | 0, _, _ => throw .io
  | levels + 1, file, referrer => do
    let path ← locate tree (← get).searchPaths file referrer
    let key := tree.keyOf path
    if (← get).loaded.contains key then return ()
    modify fun s => { s with loaded := s.loaded ++ [key] }
    let some bytes := tree.read? path | throw .io
    modify fun s => { s with digest := s.digest.add bytes }
    let root ← readRoot path bytes
    let root ← root.localize fun reference => do
      let (file, place) ← Reference.split reference
      if file.isEmpty then return reference
      else
        loadFile tree levels file (some path)
        return "#" ++ place
    modify fun s => { s with document := root.merge s.document }

/-- The files with one more and everything it refers to, and what went wrong. -/
def load (s : SourceSet) (tree : FileTree) (file : String) :
    Except SchemaError Unit × SourceSet :=
  (loadFile tree tree.levels file none).run s

end SourceSet

end Schemata
