import Provenance.Catalog.Json
import Provenance.Files.Failure
import Provenance.Files.Tree
import Provenance.Text.Encoding

/-!
# Loading catalogs and definitions

A catalog must be UTF-8 text without a byte order mark. A definition may be in any encoding that
can be told apart.
-/

namespace Provenance

/-- The catalog in the file at a path, given what stands there. -/
def loadCatalog (path : String) (tree : Option FileTree) : Except Failure Catalog :=
  match (tree.bind FileTree.bytes?).bind String.fromUTF8? with
  | none => .error (.catalogUnreadable path)
  | some text =>
    match Catalog.parse? text with
    | none => .error (.catalogMalformed path)
    | some g => .ok g

/-- The definition in the file at a path, given what stands there. -/
def loadDefinition (path : String) (tree : Option FileTree) : Except Failure String :=
  match (tree.bind FileTree.bytes?).bind Text.decode? with
  | none => .error (.definitionUnreadable path)
  | some text => .ok text

end Provenance
