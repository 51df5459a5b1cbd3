import Provenance.Catalog.Json
import Provenance.Definition.Object
import Provenance.Files.Survey

/-!
# Reports in JSON

What is read of a definition is reported as a record. The parts that an object of a kind does
not have are left out.
-/

namespace Provenance

def ViewSummary.toJson (v : ViewSummary) : Json :=
  .ofFields [("columns", .array (v.columns.map Column.toJson)),
    ("referencedTables", .ofStrings v.referencedTables)]

def Signature.fields (s : Signature) : List (String × Json) :=
  [("parameters", .array (s.parameters.map Parameter.toJson)),
    ("hasSignature", .bool s.hasSignature)]

def Signature.toJson (s : Signature) : Json := .ofFields s.fields

def RoutineUsage.fields (r : RoutineUsage) : List (String × Json) :=
  [("referencedTables", .ofStrings r.referencedTables),
    ("affectedTables", .ofStrings r.affectedTables)]

def RoutineUsage.toJson (r : RoutineUsage) : Json := .ofFields r.fields

def ObjectSummary.fields (a : ObjectSummary) : List (String × Json) :=
  [("kind", .ofString a.kind.label), ("name", .ofString a.name)] ++
    Json.optionalField "view" ViewSummary.toJson a.view ++
    Json.optionalField "signature" Signature.toJson a.signature ++
    Json.optionalField "returnType" .ofString a.returnType ++
    Json.optionalField "references" RoutineUsage.toJson a.references

def ObjectSummary.toJson (a : ObjectSummary) : Json := .ofFields a.fields

def Survey.toJson (r : Survey) : Json :=
  .ofFields [
    ("objects", .array (r.objects.map fun (path, analysis) =>
      .ofFields (("path", .ofString path) :: analysis.fields))),
    ("unrecognized", .ofStrings r.unrecognized)]

structure RoutineSummary where
  signature : Signature
  returnType : Option String
  references : RoutineUsage

def RoutineSummary.ofDefinition (index : Index) (defaultSchema : Option String) (sql : String) :
    RoutineSummary :=
  ⟨Signature.parse sql, returnType? sql, routineUsage index defaultSchema sql⟩

def RoutineSummary.toJson (r : RoutineSummary) : Json :=
  .ofFields (r.signature.fields ++ [("returnType", .ofOption .ofString r.returnType)] ++
    r.references.fields)

end Provenance
