/-!
# File trees

A folder holds files and folders under their names. A path is followed from the folder at the
root step by step: `.` stays, `..` goes back, and nothing lies below a file.
-/

namespace Provenance

/-- What stands between the slashes of a path. -/
def pathSteps (path : String) : List String := (path.toList.splitOn '/').map String.ofList

inductive FileTree where
  | file (bytes : ByteArray)
  | folder (entries : List (String × FileTree))

namespace FileTree

def empty : FileTree := folder []

def isFolder : FileTree → Bool
  | file _ => false
  | folder _ => true

def bytes? : FileTree → Option ByteArray
  | file bytes => some bytes
  | folder _ => none

/-- What lies below a tree under the given names. -/
def below? : List String → FileTree → Option FileTree
  | [], tree => some tree
  | name :: names, folder entries => (entries.lookup name).bind (below? names)
  | _ :: _, file _ => none

/-- The names that lead to the end of a path from the folder that `here` leads to. Every step
starts in a folder; names are given latest first. -/
def follow? (root : FileTree) (here : List String) : List String → Option (List String)
  | [] => some here
  | step :: steps =>
    if (root.below? here.reverse).any isFolder then
      if step = "" || step = "." then follow? root here steps
      else if step = ".." then
        match here with
        | [] => none
        | _ :: up => follow? root up steps
      else follow? root (step :: here) steps
    else none

/-- The steps of a path, which is no empty path and does not start at the root of the system. -/
def steps? (path : String) : Option (List String) :=
  if path.isEmpty || path.toList.head? = some '/' then none
  else some (pathSteps path)

/-- The names that lead to the end of a path. The end itself need not exist. -/
def locate? (root : FileTree) (path : String) : Option (List String) :=
  ((steps? path).bind (follow? root [])).map List.reverse

def at? (root : FileTree) (path : String) : Option FileTree :=
  (root.locate? path).bind (root.below? ·)

/-- Replaces the entry under a name, or adds one. -/
def setEntry (name : String) (tree : FileTree) :
    List (String × FileTree) → List (String × FileTree)
  | [] => [(name, tree)]
  | entry :: entries =>
    if entry.1 = name then (name, tree) :: entries else entry :: setEntry name tree entries

/-- Puts a tree under the given names. Folders on the way are made. -/
def put (tree : FileTree) : List String → FileTree → FileTree
  | [], _ => tree
  | name :: names, folder entries =>
    folder (setEntry name (put tree names ((entries.lookup name).getD empty)) entries)
  | name :: names, file _ => folder [(name, put tree names empty)]

/-- Writes a file at a path. The folder that it goes to must exist, and it must be none itself. -/
def write? (path : String) (bytes : ByteArray) (root : FileTree) : Option FileTree :=
  match root.locate? path with
  | none => none
  | some names =>
    if (root.below? names).any isFolder then none else some (put (file bytes) names root)

end FileTree

end Provenance
