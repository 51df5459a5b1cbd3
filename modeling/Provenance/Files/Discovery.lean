import Provenance.Files.Failure
import Provenance.Files.Tree
import Provenance.Text.Ascii

/-!
# Finding SQL files

The SQL files at or below a path are those whose extension is `sql`, in any ASCII case, save
those below a folder called `bin` or `obj`. They are listed by their names from the top down,
so the order in which folders list their entries does not matter.
-/

namespace Provenance

structure FoundFile where
  names : List String
  bytes : ByteArray

/-- What follows the last full stop of a file name, unless nothing stands before it. -/
def extension? (name : String) : Option String :=
  let reversed := name.toList.reverse
  match reversed.dropWhile (· != '.') with
  | [] => none
  | [_] => none
  | _ :: _ => some (String.ofList (reversed.takeWhile (· != '.')).reverse)

def isSqlName (name : String) : Bool := (extension? name).any (Text.equalIgnoringCase · "sql")

def isBuildName (name : String) : Bool :=
  Text.equalIgnoringCase name "bin" || Text.equalIgnoringCase name "obj"

mutual

def sqlFilesAt (name : String) : FileTree → List FoundFile
  | .file bytes => if isSqlName name then [⟨[name], bytes⟩] else []
  | .folder entries =>
    if isBuildName name then []
    else (sqlFilesIn entries).map fun f => { f with names := name :: f.names }
termination_by structural tree => tree

/-- The SQL files at or below the entries of a folder. -/
def sqlFilesIn : List (String × FileTree) → List FoundFile
  | [] => []
  | (name, tree) :: rest => sqlFilesAt name tree ++ sqlFilesIn rest

end

/-- Whether one list comes before another or is the same, by an order of their entries: the first
entries that differ decide. -/
def listLe {α : Type} [DecidableEq α] (le : α → α → Bool) : List α → List α → Bool
  | [], _ => true
  | _ :: _, [] => false
  | a :: as, b :: bs => if a = b then listLe le as bs else le a b

/-- Whether one name comes before another or is the same, by the codes of their characters. -/
def nameLe (a b : String) : Bool :=
  listLe (fun c d => decide (c.toNat ≤ d.toNat)) a.toList b.toList

/-- Whether one list of names comes before another or is the same, name by name. -/
def namesLe (as bs : List String) : Bool := listLe nameLe as bs

/-- The steps of a path that lead elsewhere: names, and `..` for the way back. -/
def pathNames (path : String) : List String :=
  (pathSteps path).filter fun step => step != "" && step != "."

/-- The last name of a path, if it is the name of a file or folder. -/
def lastName? (path : String) : Option String :=
  match (pathNames path).getLast? with
  | some ".." => none
  | last => last

/-- A path continued by names. -/
def joinPath (path : String) (names : List String) : String :=
  if names.isEmpty then path
  else path ++ (if path.toList.getLast? = some '/' then "" else "/") ++ "/".intercalate names

/-- The SQL files at or below a path at which a tree stands. -/
def sqlFiles (path : String) : FileTree → List FoundFile
  | .file bytes => if (lastName? path).any isSqlName then [⟨[], bytes⟩] else []
  | .folder entries =>
    if (lastName? path).any isBuildName then []
    else (sqlFilesIn entries).mergeSort fun a b => namesLe a.names b.names

/-- The SQL files at or below a path, with their own paths. -/
def discover (path : String) (tree : Option FileTree) :
    Except Failure (List (String × ByteArray)) :=
  match tree with
  | some tree => .ok ((sqlFiles path tree).map fun f => (joinPath path f.names, f.bytes))
  | none => .error (.directoryUnreadable path)

end Provenance
