import Provenance.Catalog.Basic
import Provenance.Identifier
import Provenance.NameTable

/-!
# Indexes of a catalog

A relation is found by its id, by its schema and name, or by its name alone, in any case. When
two relations answer to one name, the name belongs to the first of them.
-/

namespace Provenance

/-- The names and columns of the relations of a catalog. -/
structure Index where
  ids : NameTable String
  columnLists : NameTable (List Column)

namespace Index

def empty : Index := ⟨.empty, .empty⟩

/-- Enters the names and columns of a relation, save those already taken. -/
def enter (index : Index) (t : Table) : Index where
  ids := ((index.ids.enter t.id t.id).enter
    (Identifier.joinId [t.schema, t.name]) t.id).enter t.name t.id
  columnLists := index.columnLists.enter t.id t.columns

def ofRelations (relations : List Table) : Index := relations.foldl enter empty

def idOf? (name : String) (index : Index) : Option String := index.ids.find? name

def columnsOf? (id : String) (index : Index) : Option (List Column) := index.columnLists.find? id

/-- The first column of a relation that has a name, in any ASCII case. -/
def columnOf? (id column : String) (index : Index) : Option Column := do
  let columns ← index.columnsOf? id
  columns.find? fun c => Text.equalIgnoringCase c.name column

def size (index : Index) : Nat := index.columnLists.size

def isEmpty (index : Index) : Bool := index.size == 0

/-- The id that a table name stands for, given its parts as they are written. Only the last two
parts count. A name without a schema is looked for in the default schema first and then by
itself; a name that is not found stands for itself, in the default schema if there is one and
it has none. -/
def tableId (index : Index) (defaultSchema : Option String) (parts : List String) : String :=
  let names := (parts.map Identifier.bare).filter fun name => !name.isEmpty
  match Identifier.lastTwo names with
  | [] => ""
  | [name] =>
    match defaultSchema.filter fun schema => !Text.isBlankText schema with
    | some schema =>
      let id := Identifier.joinId [Identifier.bare schema, name]
      ((index.idOf? id).or (index.idOf? name)).getD id
    | none => (index.idOf? name).getD name
  | qualified =>
    let id := Identifier.joinId qualified
    (index.idOf? id).getD id

/-- The id that a table name stands for, given as it is written. -/
def tableIdOfText (index : Index) (defaultSchema : Option String) (written : String) : String :=
  index.tableId defaultSchema (((lex written).filter Token.isWord).map Token.text)

end Index

def Catalog.index (g : Catalog) : Index := Index.ofRelations g.relations

end Provenance
