import Provenance.Catalog.Basic
import Provenance.Json.Reader
import Provenance.Json.Printer
import Provenance.Json.Record

/-!
# Catalogs in JSON

Every object of a catalog is a record. Names and ids must be given; the collections, the
definitions and the flags of a trigger may be left out. The origins of a column are left out
when it has none.
-/

namespace Provenance

def Origin.toJson (a : Origin) : Json :=
  .ofFields [("table", .ofString a.table), ("column", .ofString a.column)]

def Origin.ofJson? (j : Json) : Option Origin :=
  match j.fields? ["table", "column"] with
  | some [table, column] => do
    return {
      table := ← Json.required Json.asString? table
      column := ← Json.required Json.asString? column }
  | _ => none

def Column.toJson (a : Column) : Json :=
  .ofFields (
    [("name", .ofString a.name), ("dataType", .ofString a.dataType),
      ("isNullable", .bool a.isNullable), ("isPrimaryKey", .bool a.isPrimaryKey)] ++
    Json.optionalField "sourceColumns" (fun origins => .array (origins.map Origin.toJson))
      a.origins ++
    Json.optionalField "sourceTable" .ofString a.originTable ++
    Json.optionalField "sourceColumn" .ofString a.originColumn)

def Column.ofJson? (j : Json) : Option Column :=
  match j.fields? ["name", "dataType", "isNullable", "isPrimaryKey", "sourceColumns",
      "sourceTable", "sourceColumn"] with
  | some [name, dataType, isNullable, isPrimaryKey, origins, originTable, originColumn] => do
    return {
      name := ← Json.required Json.asString? name
      dataType := ← Json.required Json.asString? dataType
      isNullable := ← Json.required Json.asBool? isNullable
      isPrimaryKey := ← Json.required Json.asBool? isPrimaryKey
      origins := ← Json.optional (Json.asList? Origin.ofJson?) origins
      originTable := ← Json.optional Json.asString? originTable
      originColumn := ← Json.optional Json.asString? originColumn }
  | _ => none

def Parameter.toJson (a : Parameter) : Json :=
  .ofFields [("name", .ofString a.name), ("dataType", .ofString a.dataType),
    ("isOutput", .bool a.isOutput)]

def Parameter.ofJson? (j : Json) : Option Parameter :=
  match j.fields? ["name", "dataType", "isOutput"] with
  | some [name, dataType, isOutput] => do
    return {
      name := ← Json.required Json.asString? name
      dataType := ← Json.required Json.asString? dataType
      isOutput := ← Json.required Json.asBool? isOutput }
  | _ => none

def Table.toJson (a : Table) : Json :=
  .ofFields [("id", .ofString a.id), ("name", .ofString a.name), ("schema", .ofString a.schema),
    ("columns", .array (a.columns.map Column.toJson))]

def Table.ofJson? (j : Json) : Option Table :=
  match j.fields? ["id", "name", "schema", "columns"] with
  | some [id, name, schema, columns] => do
    return {
      id := ← Json.required Json.asString? id
      name := ← Json.required Json.asString? name
      schema := ← Json.required Json.asString? schema
      columns := ← Json.defaulted [] (Json.asList? Column.ofJson?) columns }
  | _ => none

def View.toJson (a : View) : Json :=
  .ofFields [("id", .ofString a.id), ("name", .ofString a.name), ("schema", .ofString a.schema),
    ("columns", .array (a.columns.map Column.toJson)), ("definition", .ofString a.definition),
    ("referencedTables", .ofStrings a.referencedTables)]

def View.ofJson? (j : Json) : Option View :=
  match j.fields? ["id", "name", "schema", "columns", "definition", "referencedTables"] with
  | some [id, name, schema, columns, definition, referencedTables] => do
    return {
      id := ← Json.required Json.asString? id
      name := ← Json.required Json.asString? name
      schema := ← Json.required Json.asString? schema
      columns := ← Json.defaulted [] (Json.asList? Column.ofJson?) columns
      definition := ← Json.defaulted "" Json.asString? definition
      referencedTables := ← Json.defaulted [] (Json.asList? Json.asString?) referencedTables }
  | _ => none

def Relationship.toJson (a : Relationship) : Json :=
  .ofFields [("id", .ofString a.id), ("from", .ofString a.fromTable), ("to", .ofString a.toTable),
    ("fromColumn", .ofString a.fromColumn), ("toColumn", .ofString a.toColumn)]

def Relationship.ofJson? (j : Json) : Option Relationship :=
  match j.fields? ["id", "from", "to", "fromColumn", "toColumn"] with
  | some [id, fromTable, toTable, fromColumn, toColumn] => do
    return {
      id := ← Json.required Json.asString? id
      fromTable := ← Json.required Json.asString? fromTable
      toTable := ← Json.required Json.asString? toTable
      fromColumn := ← Json.required Json.asString? fromColumn
      toColumn := ← Json.required Json.asString? toColumn }
  | _ => none

def Trigger.toJson (a : Trigger) : Json :=
  .ofFields [("id", .ofString a.id), ("name", .ofString a.name), ("schema", .ofString a.schema),
    ("tableId", .ofString a.tableId), ("triggerType", .ofString a.triggerType),
    ("isDisabled", .bool a.isDisabled), ("firesOnInsert", .bool a.firesOnInsert),
    ("firesOnUpdate", .bool a.firesOnUpdate), ("firesOnDelete", .bool a.firesOnDelete),
    ("definition", .ofString a.definition), ("referencedTables", .ofStrings a.referencedTables),
    ("affectedTables", .ofStrings a.affectedTables)]

def Trigger.ofJson? (j : Json) : Option Trigger :=
  match j.fields? ["id", "name", "schema", "tableId", "triggerType", "isDisabled",
      "firesOnInsert", "firesOnUpdate", "firesOnDelete", "definition", "referencedTables",
      "affectedTables"] with
  | some [id, name, schema, tableId, triggerType, isDisabled, firesOnInsert, firesOnUpdate,
      firesOnDelete, definition, referencedTables, affectedTables] => do
    return {
      id := ← Json.required Json.asString? id
      name := ← Json.required Json.asString? name
      schema := ← Json.required Json.asString? schema
      tableId := ← Json.required Json.asString? tableId
      triggerType := ← Json.defaulted "" Json.asString? triggerType
      isDisabled := ← Json.defaulted false Json.asBool? isDisabled
      firesOnInsert := ← Json.defaulted false Json.asBool? firesOnInsert
      firesOnUpdate := ← Json.defaulted false Json.asBool? firesOnUpdate
      firesOnDelete := ← Json.defaulted false Json.asBool? firesOnDelete
      definition := ← Json.defaulted "" Json.asString? definition
      referencedTables := ← Json.defaulted [] (Json.asList? Json.asString?) referencedTables
      affectedTables := ← Json.defaulted [] (Json.asList? Json.asString?) affectedTables }
  | _ => none

def Procedure.toJson (a : Procedure) : Json :=
  .ofFields [("id", .ofString a.id), ("name", .ofString a.name), ("schema", .ofString a.schema),
    ("procedureType", .ofString a.procedureType),
    ("parameters", .array (a.parameters.map Parameter.toJson)),
    ("definition", .ofString a.definition), ("referencedTables", .ofStrings a.referencedTables),
    ("affectedTables", .ofStrings a.affectedTables)]

def Procedure.ofJson? (j : Json) : Option Procedure :=
  match j.fields? ["id", "name", "schema", "procedureType", "parameters", "definition",
      "referencedTables", "affectedTables"] with
  | some [id, name, schema, procedureType, parameters, definition, referencedTables,
      affectedTables] => do
    return {
      id := ← Json.required Json.asString? id
      name := ← Json.required Json.asString? name
      schema := ← Json.required Json.asString? schema
      procedureType := ← Json.defaulted "" Json.asString? procedureType
      parameters := ← Json.defaulted [] (Json.asList? Parameter.ofJson?) parameters
      definition := ← Json.defaulted "" Json.asString? definition
      referencedTables := ← Json.defaulted [] (Json.asList? Json.asString?) referencedTables
      affectedTables := ← Json.defaulted [] (Json.asList? Json.asString?) affectedTables }
  | _ => none

def UserFunction.toJson (a : UserFunction) : Json :=
  .ofFields [("id", .ofString a.id), ("name", .ofString a.name), ("schema", .ofString a.schema),
    ("functionType", .ofString a.functionType),
    ("parameters", .array (a.parameters.map Parameter.toJson)),
    ("returnType", .ofString a.returnType), ("definition", .ofString a.definition),
    ("referencedTables", .ofStrings a.referencedTables),
    ("affectedTables", .ofStrings a.affectedTables)]

def UserFunction.ofJson? (j : Json) : Option UserFunction :=
  match j.fields? ["id", "name", "schema", "functionType", "parameters", "returnType",
      "definition", "referencedTables", "affectedTables"] with
  | some [id, name, schema, functionType, parameters, returnType, definition, referencedTables,
      affectedTables] => do
    return {
      id := ← Json.required Json.asString? id
      name := ← Json.required Json.asString? name
      schema := ← Json.required Json.asString? schema
      functionType := ← Json.defaulted "" Json.asString? functionType
      parameters := ← Json.defaulted [] (Json.asList? Parameter.ofJson?) parameters
      returnType := ← Json.defaulted "" Json.asString? returnType
      definition := ← Json.defaulted "" Json.asString? definition
      referencedTables := ← Json.defaulted [] (Json.asList? Json.asString?) referencedTables
      affectedTables := ← Json.defaulted [] (Json.asList? Json.asString?) affectedTables }
  | _ => none

def Catalog.toJson (a : Catalog) : Json :=
  .ofFields [("tables", .array (a.tables.map Table.toJson)),
    ("views", .array (a.views.map View.toJson)),
    ("relationships", .array (a.relationships.map Relationship.toJson)),
    ("triggers", .array (a.triggers.map Trigger.toJson)),
    ("storedProcedures", .array (a.procedures.map Procedure.toJson)),
    ("functions", .array (a.functions.map UserFunction.toJson))]

def Catalog.ofJson? (j : Json) : Option Catalog :=
  match j.fields? ["tables", "views", "relationships", "triggers", "storedProcedures",
      "functions"] with
  | some [tables, views, relationships, triggers, procedures, functions] => do
    return {
      tables := ← Json.defaulted [] (Json.asList? Table.ofJson?) tables
      views := ← Json.defaulted [] (Json.asList? View.ofJson?) views
      relationships := ← Json.defaulted [] (Json.asList? Relationship.ofJson?) relationships
      triggers := ← Json.defaulted [] (Json.asList? Trigger.ofJson?) triggers
      procedures := ← Json.defaulted [] (Json.asList? Procedure.ofJson?) procedures
      functions := ← Json.defaulted [] (Json.asList? UserFunction.ofJson?) functions }
  | _ => none

def Catalog.parse? (text : String) : Option Catalog := (Json.parse? text).bind Catalog.ofJson?

def Catalog.print (g : Catalog) : String := g.toJson.pretty

end Provenance
