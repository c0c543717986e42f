import Schemata.Error
import Schemata.FileTree.Basic
import Schemata.Handoff.RenderData

/-!
# Writing the handoff

The handoff is written as one file into an output directory, which is made if it is missing
(`render`).
-/

namespace Schemata

namespace RenderData

/-- The path of the handoff in an output directory. -/
def outputPath (d : RenderData) (directory : String) : String := Path.join directory d.fileName

/-- The tree with the handoff written into a directory, and the paths of the files written. -/
def write (d : RenderData) (pretty : Bool) (directory : String) (tree : FileTree) :
    Except SchemaError (FileTree × List String) := do
  let some made := tree.makeDirectories? directory | .error .io
  let path := d.outputPath directory
  let some written := made.write? path (d.text pretty).toUTF8.toList | .error .io
  return (written, [path])

end RenderData

end Schemata
