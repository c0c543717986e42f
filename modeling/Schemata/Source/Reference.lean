import Schemata.Error

/-!
# References between files

A reference names a file and a place in it, with a number sign between them. An empty file name
stands for the document that holds the reference. References to anything but files are refused.

* `Reference.split` (`split_reference`) takes a reference apart;
* `Json.links` are the references that loading follows in a document.
-/

namespace Schemata

namespace Reference

/-- Whether a text contains a scheme, such as the start of a web address. -/
def hasScheme : List Char → Bool
  | ':' :: '/' :: '/' :: _ => true
  | _ :: rest => hasScheme rest
  | [] => false

/-- The file and the place that a reference names. The place stands on one line. -/
def split (reference : String) : Except SchemaError (String × String) :=
  match reference.toList.dropWhile (· ≠ '#') with
  | '#' :: place =>
    let file := reference.toList.takeWhile (· ≠ '#')
    if place.contains '\n' || hasScheme file then .error (.unsupportedReference reference)
    else .ok (String.ofList file, String.ofList place)
  | _ => .error (.unsupportedReference reference)

end Reference

namespace Json

mutual
/-- The texts under `$ref` keys in order. What stands below such a key is not looked at. -/
def links : Json → List String
  | .array items => linksOfItems items
  | .object members => linksOfMembers members
  | _ => []
/-- The links in the items of a sequence. -/
def linksOfItems : List Json → List String
  | [] => []
  | a :: rest => links a ++ linksOfItems rest
/-- The links in the members of a mapping. -/
def linksOfMembers : List (String × Json) → List String
  | [] => []
  | (k, a) :: rest => (if k = "$ref" then a.string?.toList else links a) ++ linksOfMembers rest
end

end Json

end Schemata
