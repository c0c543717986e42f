import Schemata.Text.Split

/-!
# Paths as text

A path is kept as it is written. Joining puts one path behind another, an absolute one replacing
what stands before it; the parent of a path is what is left when its last segment is taken away
(`join`, `parent`). Two paths are compared by their keys: repeated slashes, slashes at the end and
single dots inside a path do not count (`components`).
-/

namespace Schemata

/-- What two paths are compared by. -/
structure PathKey where
  /-- Whether the path starts at the root. -/
  absolute : Bool
  /-- Its segments but for the idle ones. -/
  segments : List String
deriving DecidableEq, Repr

namespace Path

/-- Whether a path starts at the root. -/
def isAbsolute (path : String) : Bool := path.toList.head? = some '/'

/-- A path inside a directory; an absolute path stands alone. -/
def join (directory path : String) : String :=
  if isAbsolute path then path
  else if directory.isEmpty || directory.toList.getLast? = some '/' then directory ++ path
  else directory ++ "/" ++ path

/-- The segments of a path. -/
def segments (path : String) : List String := Text.splitAt '/' path

/-- Whether a segment leads nowhere. -/
def isIdle (segment : String) : Bool := segment = "" || segment = "."

/-- The key of a path. A single dot counts where the path begins with it. -/
def key (path : String) : PathKey :=
  match isAbsolute path, segments path with
  | false, "." :: rest => ⟨false, "." :: rest.filter (!isIdle ·)⟩
  | absolute, all => ⟨absolute, all.filter (!isIdle ·)⟩

/-- The path of a file or directory, from its segments from the root. -/
def absolute (name : List String) : String := "/" ++ "/".intercalate name

/-- How long a path can be to be looked up at all: it has fewer bytes. -/
def limit : Nat := 4096

/-- A number that there are no more paths than: numbers of fewer than `limit` digits stand for them,
with a digit for every byte and none of them zero. -/
def count : Nat := Nat.pow 257 limit

/-- The segments that lead from a directory to a place, both given from the root: up to the last
directory that they share, and down from there. -/
def between : List String → List String → List String
  | a :: here, b :: there =>
    if a = b then between here there else (a :: here).map (fun _ => "..") ++ b :: there
  | here, there => here.map (fun _ => "..") ++ there

/-- Characters, in reverse, without slashes and single-dot segments at the front. -/
def dropIdle : List Char → List Char
  | '/' :: rest => dropIdle rest
  | '.' :: '/' :: rest => dropIdle ('/' :: rest)
  | cs => cs

/-- What stands in front of the last segment of a path; nothing for the root and the empty path. -/
def parent? (path : String) : Option String :=
  let backward := dropIdle path.toList.reverse
  match backward with
  | [] => none
  | _ =>
    match backward.dropWhile (· ≠ '/') with
    | [] => some ""
    | before =>
      match dropIdle before with
      | [] => some "/"
      | rest => some (String.ofList rest.reverse)

end Path

end Schemata
