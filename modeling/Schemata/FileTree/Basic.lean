import Schemata.FileTree.Path

/-!
# A tree of files

The files that a run can see, as a finite value: regular files, directories and links. A file may be
there and not be readable, and a directory may be closed, so that nothing in it can be looked up.
Every name is absolute, a list of segments from the root. Paths are looked up from a working
directory, which is entered already, whether or not it can be reached from the root; each segment
but the last has to be an open directory, `.` stays, `..` goes up, and a link goes on from where its
own path leads.

* `FileTree.resolve?` finds the name that a path stands for, the same for all its spellings;
* `FileTree.isFile` (`is_file`) only looks whether a regular file is there, `FileTree.read?`
  (`read`) reads it, which can fail all the same;
* `FileTree.canonicalize?` (`canonicalize`) finds the absolute path of a file, which fails where the
  file cannot be reached from the root;
* `FileTree.write?` (`write`) and `FileTree.makeDirectories?` (`create_dir_all`) change a tree.
-/

namespace Schemata

/-- Bytes of a file. -/
abbrev Bytes := List UInt8

/-- The absolute name of a file or directory: its segments from the root. -/
abbrev FileName := List String

/-- Files and directories under one root, seen from a working directory. -/
structure FileTree where
  /-- The working directory. -/
  here : FileName
  /-- Directories other than the root. -/
  directories : List FileName
  /-- Regular files; one that cannot be opened has no bytes. -/
  files : List (FileName × Option Bytes)
  /-- Links, with the paths that they stand for. -/
  links : List (FileName × String) := []
  /-- Directories in which nothing can be looked up. -/
  closed : List FileName := []

namespace FileTree

/-! ## Looking up -/

/-- Whether a name is a directory. -/
def isDirectoryAt (t : FileTree) (name : FileName) : Bool :=
  name = [] || t.directories.contains name

/-- Whether a name is a regular file. -/
def isFileAt (t : FileTree) (name : FileName) : Bool := (t.files.lookup name).isSome

/-- The bytes of a regular file that can be read. -/
def bytesAt? (t : FileTree) (name : FileName) : Option Bytes := (t.files.lookup name).join

/-- Whether a name exists. -/
def existsAt (t : FileTree) (name : FileName) : Bool := t.isDirectoryAt name || t.isFileAt name

/-- Where following a path starts that stands in a directory. -/
def origin (directory : FileName) (path : String) : FileName :=
  if Path.isAbsolute path then [] else directory

/-- Where following a path starts. -/
def start (t : FileTree) (path : String) : FileName := origin t.here path

/-- Whether a segment can be followed from a name. The empty one behind a slash is not looked up. -/
def canPass (t : FileTree) (name : FileName) (segment : String) : Bool :=
  t.isDirectoryAt name && (segment = "" || !t.closed.contains name)

/-- The name reached from another by following segments. At a link, `onward` follows the segments of
its path and those that are left. -/
def followTo (t : FileTree) (onward : FileName → List String → Option FileName) (name : FileName) :
    List String → Option FileName
  | [] => some name
  | segment :: rest =>
    if !t.canPass name segment then none
    else if Path.isIdle segment then t.followTo onward name rest
    else if segment = ".." then t.followTo onward name.dropLast rest
    else
      match t.links.lookup (name ++ [segment]) with
      | some target => onward (origin name target) (Path.segments target ++ rest)
      | none => t.followTo onward (name ++ [segment]) rest

/-- The name reached from another by following segments, with at most a number of links on the
way. -/
def follow? (t : FileTree) : Nat → FileName → List String → Option FileName
  | 0 => t.followTo fun _ _ => none
  | links + 1 => t.followTo (t.follow? links)

/-- How many links there may be on one way. -/
def linkLimit : Nat := 40

/-- The name that a path stands for, if it exists. -/
def resolve? (t : FileTree) (path : String) : Option FileName :=
  if path.isEmpty || Path.limit ≤ path.utf8ByteSize then none
  else (t.follow? linkLimit (t.start path) (Path.segments path)).filter t.existsAt

/-- Whether a path leads to a regular file. -/
def isFile (t : FileTree) (path : String) : Bool := (t.resolve? path).any t.isFileAt

/-- The bytes of the regular file at a path, if it can be read. -/
def read? (t : FileTree) (path : String) : Option Bytes := (t.resolve? path).bind t.bytesAt?

/-- The name reached by a path from the root, behind the segments of the working directory. -/
def fromRoot? (t : FileTree) (path : String) : Option FileName :=
  t.follow? linkLimit [] (t.start path ++ Path.segments path)

/-- The absolute path of what a path leads to, without links and dots. To find it the path is
followed from the root, which fails at a closed directory above the working directory; and it may be
too long. -/
def canonicalize? (t : FileTree) (path : String) : Option String :=
  (t.resolve? path).bind fun name =>
    if t.fromRoot? path = some name ∧ t.resolve? (Path.absolute name) = some name then
      some (Path.absolute name)
    else none

/-- What tells a file from others: the key of its absolute path, or of the path as it is written if
there is no such path. -/
def keyOf (t : FileTree) (path : String) : PathKey :=
  Path.key ((t.canonicalize? path).getD path)

/-- A number that there are fewer keys of files than: a key is that of an absolute path, one for
each file, or that of a path as it is written. -/
def levels (t : FileTree) : Nat := Path.count + t.files.length + 1

/-! ## Changing -/

/-- The tree with a directory. -/
def addDirectory (t : FileTree) (name : FileName) : FileTree :=
  if t.isDirectoryAt name then t else { t with directories := t.directories ++ [name] }

/-- The tree with the directories reached by following segments, and the last of them; nothing
when a file or a link that leads to no directory is in the way. -/
def makePath? (t : FileTree) (name : FileName) : List String → Option FileTree
  | [] => some t
  | segment :: rest =>
    if Path.isIdle segment then t.makePath? name rest
    else if segment = ".." then t.makePath? name.dropLast rest
    else
      match t.follow? linkLimit name [segment] with
      | none => none
      | some next =>
        if t.isDirectoryAt next then t.makePath? next rest
        else if t.isFileAt next || (t.links.lookup (name ++ [segment])).isSome then none
        else (t.addDirectory next).makePath? next rest

/-- The tree with a directory at a path, and every directory above it. -/
def makeDirectories? (t : FileTree) (path : String) : Option FileTree :=
  if Path.limit ≤ path.utf8ByteSize then none else t.makePath? (t.start path) (Path.segments path)

/-- The tree with a file of the given bytes, a new one or an old one written over. -/
def putFile (t : FileTree) (name : FileName) (bytes : Bytes) : FileTree :=
  if t.isFileAt name then
    { t with files := t.files.map fun f => if f.1 = name then (name, some bytes) else f }
  else { t with files := t.files ++ [(name, some bytes)] }

/-- The tree after writing a file: its directory has to exist, and it must not be a directory
itself, nor a file that cannot be opened. -/
def write? (t : FileTree) (path : String) (bytes : Bytes) : Option FileTree :=
  let segments := Path.segments path
  let last := segments.getLast?.getD ""
  if Path.isIdle last || last = ".." || Path.limit ≤ path.utf8ByteSize then none
  else
    match t.follow? linkLimit (t.start path) segments with
    | none => none
    | some name =>
      if t.isDirectoryAt name || (t.isFileAt name && (t.bytesAt? name).isNone) then none
      else some (t.putFile name bytes)

/-- The tree without a file or a link, which is not followed. -/
def remove (t : FileTree) (path : String) : FileTree :=
  let segments := Path.segments path
  match t.follow? linkLimit (t.start path) segments.dropLast, segments.getLast? with
  | some directory, some last =>
    { t with
      files := t.files.filter (·.1 ≠ directory ++ [last])
      links := t.links.filter (·.1 ≠ directory ++ [last]) }
  | _, _ => t

/-- An empty working directory and the directories above it. -/
def ofDirectory (here : FileName) : FileTree :=
  { here, directories := (List.range here.length).map fun i => here.take (i + 1), files := [] }

end FileTree

end Schemata
