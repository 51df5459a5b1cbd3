import Provenance.Catalog.Basic

/-!
# Unique column names

A column keeps its name if no column before it has that name in any case. Otherwise the name is
numbered, from two upwards, until it is new.
-/

namespace Provenance

def numbered (name : String) (k : Nat) : String := name ++ "_" ++ k.repr

/-- The first form of a name that has none of the given keys. As many numbers as there are keys
are enough to find one. -/
def freshName (used : List String) (name : String) : String :=
  if used.contains (Text.lowerCase name) then
    (((List.range' 2 used.length).map (numbered name)).find? fun candidate =>
      !used.contains (Text.lowerCase candidate)).getD name
  else name

/-- Columns with names that differ from each other and from those with the given keys. -/
def uniqueNamesFrom (used : List String) : List Column → List Column
  | [] => []
  | c :: rest =>
    let name := freshName used c.name
    { c with name } :: uniqueNamesFrom (Text.lowerCase name :: used) rest

/-- Columns with names that differ from each other in any case. -/
def uniqueNames (columns : List Column) : List Column := uniqueNamesFrom [] columns

end Provenance
