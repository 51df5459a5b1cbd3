import Provenance.Catalog.Basic
import Provenance.Identifier

/-!
# Writing views

A view is written as a select list with one line for each column. When every origin is a column
of one table, the columns are written by themselves and the table follows; otherwise each is
qualified and no table is named. A column without an origin is written as `NULL`.
-/

namespace Provenance

/-- The table that every origin is a column of, in any ASCII case, as the first one spells it. -/
def commonTable? (origins : List Origin) : Option String :=
  match origins with
  | [] => none
  | first :: rest =>
    if rest.all fun o => Text.equalIgnoringCase o.table first.table then some first.table
    else none

/-- An origin as it is written, with its table if `qualified`. -/
def Origin.written (qualified : Bool) (o : Origin) : String :=
  if qualified then
    Identifier.joinId [Identifier.writtenId o.table, Identifier.written o.column]
  else Identifier.written o.column

/-- The select item of a column. The name is left to the origin if that has the same one. -/
def Column.written (qualified : Bool) (c : Column) : String :=
  match c.firstOrigin? with
  | none => "NULL AS " ++ Identifier.written c.name
  | some o =>
    if c.name == o.column then o.written qualified
    else o.written qualified ++ " AS " ++ Identifier.written c.name

/-- The `FROM` clause that names a table, if there is one to name. -/
def writeSource (table : Option String) : String :=
  match table with
  | some id => "\nFROM " ++ Identifier.writtenId id
  | none => ""

/-- The query of a view with the given columns. -/
def writeQuery (columns : List Column) : String :=
  if columns.isEmpty then "SELECT NULL AS [placeholder]"
  else
    let table := commonTable? (columns.filterMap Column.firstOrigin?)
    let items := columns.map fun c => "    " ++ c.written table.isNone
    "SELECT\n" ++ ",\n".intercalate items ++ writeSource table

def writeView (id : String) (columns : List Column) : String :=
  "CREATE VIEW " ++ Identifier.writtenId id ++ " AS\n" ++ writeQuery columns

end Provenance
