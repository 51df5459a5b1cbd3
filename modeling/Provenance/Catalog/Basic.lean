import Provenance.Text.Ascii
import Provenance.Text.LowerCase
import Provenance.Distinct

/-!
# Catalogs

A catalog is a snapshot of the objects of a database: tables and views with their columns,
relationships, triggers, procedures and functions. Objects are known by an id, usually their
schema and name joined by a full stop.
-/

namespace Provenance

/-- The table column from which an output column takes its value. -/
structure Origin where
  table : String
  column : String
  deriving DecidableEq, Repr

/-- The key under which two origins count as one. -/
def Origin.key (o : Origin) : String :=
  Text.lowerCase o.table ++ "::" ++ Text.lowerCase o.column

def unknownType : String := "unknown"

structure Column where
  name : String
  dataType : String
  isNullable : Bool
  isPrimaryKey : Bool
  /-- Where the column takes its values from, the first of them before the others. -/
  origins : Option (List Origin)
  originTable : Option String
  originColumn : Option String
  deriving DecidableEq, Repr

namespace Column

/-- A column of which only the name is known. Its type is nullable. -/
def named (name : String) : Column where
  name
  dataType := unknownType
  isNullable := true
  isPrimaryKey := false
  origins := none
  originTable := none
  originColumn := none

/-- A column with other origins. -/
def withOrigins (origins : List Origin) (c : Column) : Column :=
  match origins with
  | [] => { c with origins := none, originTable := none, originColumn := none }
  | first :: rest =>
    { c with
      origins := some (first :: rest)
      originTable := some first.table
      originColumn := some first.column }

/-- A column with the type and nullability of another. -/
def withTypeOf (c known : Column) : Column :=
  { c with dataType := known.dataType, isNullable := known.isNullable }

/-- The first origin of a column. A column without a list of origins may still name one table
and column. -/
def firstOrigin? (c : Column) : Option Origin :=
  match c.origins.bind List.head? with
  | some first => some first
  | none => do return ⟨← c.originTable, ← c.originColumn⟩

/-- Whether nothing is known of the type of a column. -/
def lacksType (c : Column) : Bool :=
  c.dataType.isEmpty || Text.equalIgnoringCase c.dataType unknownType

end Column

structure Parameter where
  name : String
  dataType : String
  isOutput : Bool
  deriving DecidableEq, Repr

structure Table where
  id : String
  name : String
  schema : String
  columns : List Column
  deriving DecidableEq, Repr

structure View where
  id : String
  name : String
  schema : String
  columns : List Column
  definition : String
  referencedTables : List String
  deriving DecidableEq, Repr

structure Relationship where
  id : String
  fromTable : String
  toTable : String
  fromColumn : String
  toColumn : String
  deriving DecidableEq, Repr

structure Trigger where
  id : String
  name : String
  schema : String
  tableId : String
  triggerType : String
  isDisabled : Bool
  firesOnInsert : Bool
  firesOnUpdate : Bool
  firesOnDelete : Bool
  definition : String
  referencedTables : List String
  affectedTables : List String
  deriving DecidableEq, Repr

structure Procedure where
  id : String
  name : String
  schema : String
  procedureType : String
  parameters : List Parameter
  definition : String
  referencedTables : List String
  affectedTables : List String
  deriving DecidableEq, Repr

structure UserFunction where
  id : String
  name : String
  schema : String
  functionType : String
  parameters : List Parameter
  returnType : String
  definition : String
  referencedTables : List String
  affectedTables : List String
  deriving DecidableEq, Repr

/-- A snapshot of the objects of a database. -/
structure Catalog where
  tables : List Table
  views : List View
  relationships : List Relationship
  triggers : List Trigger
  procedures : List Procedure
  functions : List UserFunction
  deriving DecidableEq, Repr

def View.toTable (v : View) : Table := ⟨v.id, v.name, v.schema, v.columns⟩

namespace Catalog

def empty : Catalog := ⟨[], [], [], [], [], []⟩

/-- Everything a query can read from: the tables, then the views. -/
def relations (g : Catalog) : List Table := g.tables ++ g.views.map View.toTable

end Catalog

end Provenance
