import Provenance.Definition.Routine
import Provenance.Definition.View
import Provenance.Parts

/-!
# Analysing a catalog

Each definition in a catalog is read against the tables and views of that catalog. Views get
their columns and the tables they read; routines get the tables they read and write, and
parameters and a return type where they have none. An object without a definition stays as it
is. No object waits for another one, so many of them may be shared out.
-/

namespace Provenance

/-- A view with the columns and tables that its definition gives. Its own columns supply the
types that the definition does not. -/
def View.analyze (index : Index) (defaultSchema : Option String) (v : View) : View :=
  if Text.isBlankText v.definition then v
  else
    let known := if v.columns.isEmpty then none else some v.columns
    let found := readView index defaultSchema known v.definition
    { v with columns := found.columns, referencedTables := found.referencedTables }

/-- The parameters of a routine, read from its definition if none are known. -/
def knownParameters (parameters : List Parameter) (definition : String) : List Parameter :=
  if parameters.isEmpty then (Signature.parse definition).parameters else parameters

/-- A procedure with the tables and parameters that its definition gives. -/
def Procedure.analyze (index : Index) (defaultSchema : Option String) (p : Procedure) :
    Procedure :=
  if Text.isBlankText p.definition then p
  else
    let found := routineUsage index defaultSchema p.definition
    { p with
      parameters := knownParameters p.parameters p.definition
      referencedTables := found.referencedTables
      affectedTables := found.affectedTables }

/-- A function with the tables, parameters and return type that its definition gives. -/
def UserFunction.analyze (index : Index) (defaultSchema : Option String) (f : UserFunction) :
    UserFunction :=
  if Text.isBlankText f.definition then f
  else
    let found := routineUsage index defaultSchema f.definition
    { f with
      parameters := knownParameters f.parameters f.definition
      returnType :=
        if Text.isBlankText f.returnType then (returnType? f.definition).getD ""
        else f.returnType
      referencedTables := found.referencedTables
      affectedTables := found.affectedTables }

/-- A trigger with the tables that its definition gives. -/
def Trigger.analyze (index : Index) (defaultSchema : Option String) (t : Trigger) : Trigger :=
  if Text.isBlankText t.definition then t
  else
    let found := routineUsage index defaultSchema t.definition
    { t with
      referencedTables := found.referencedTables
      affectedTables := found.affectedTables }

namespace Catalog

/-- A catalog with what its definitions say about its objects. -/
def analyze (defaultSchema : Option String) (g : Catalog) : Catalog :=
  { g with
    views := g.views.map (View.analyze g.index defaultSchema)
    triggers := g.triggers.map (Trigger.analyze g.index defaultSchema)
    procedures := g.procedures.map (Procedure.analyze g.index defaultSchema)
    functions := g.functions.map (UserFunction.analyze g.index defaultSchema) }

/-- The objects of a catalog, shared out in parts by their kind. -/
structure Sharing (g : Catalog) where
  views : List (List View)
  triggers : List (List Trigger)
  procedures : List (List Procedure)
  functions : List (List UserFunction)
  flatten_views : views.flatten = g.views
  flatten_triggers : triggers.flatten = g.triggers
  flatten_procedures : procedures.flatten = g.procedures
  flatten_functions : functions.flatten = g.functions

/-- A catalog with what its definitions say about its objects, which are shared out. -/
def analyzeInParts (defaultSchema : Option String) (g : Catalog) (shared : g.Sharing) : Catalog :=
  { g with
    views := mapInParts (View.analyze g.index defaultSchema) shared.views g.views
    triggers := mapInParts (Trigger.analyze g.index defaultSchema) shared.triggers g.triggers
    procedures :=
      mapInParts (Procedure.analyze g.index defaultSchema) shared.procedures g.procedures
    functions :=
      mapInParts (UserFunction.analyze g.index defaultSchema) shared.functions g.functions }

/-- An analysis does not depend on how the objects are shared out. -/
theorem analyzeInParts_eq (defaultSchema : Option String) (g : Catalog) (shared : g.Sharing) :
    g.analyzeInParts defaultSchema shared = g.analyze defaultSchema := by
  rw [analyzeInParts, mapInParts_eq shared.flatten_views, mapInParts_eq shared.flatten_triggers,
    mapInParts_eq shared.flatten_procedures, mapInParts_eq shared.flatten_functions, analyze]

def attributedColumns (g : Catalog) : Nat :=
  (g.views.flatMap View.columns).countP fun c => c.origins.isSome

end Catalog

end Provenance
