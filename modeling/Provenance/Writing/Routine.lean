import Provenance.Catalog.Basic
import Provenance.Identifier
import Provenance.Text.Blank

/-!
# Writing routines

A procedure or function is written with its parameters, one on a line, and an empty body. A
type that is blank is written as `sql_variant`.
-/

namespace Provenance

def writeType (type : String) : String :=
  if Text.isBlankText type then "sql_variant" else Text.trim type

/-- The name of a parameter as it is written, with its `@`. -/
def parameterName (name : String) : String :=
  let trimmed := Text.trim name
  if trimmed.toList.head? = some '@' then trimmed else "@" ++ trimmed

def Parameter.line (p : Parameter) : String :=
  "    " ++ parameterName p.name ++ " " ++ writeType p.dataType ++
    (if p.isOutput then " OUTPUT" else "")

def parameterLines (ps : List Parameter) : String := ",\n".intercalate (ps.map Parameter.line)

/-- The definition of a procedure with the given parameters. -/
def writeProcedure (id : String) (ps : List Parameter) : String :=
  "CREATE PROCEDURE " ++ Identifier.writtenId id ++
    (if ps.isEmpty then "" else "\n" ++ parameterLines ps) ++
    "\nAS\nBEGIN\n    SET NOCOUNT ON;\nEND"

/-- The definition of a function with the given parameters and return type. -/
def writeFunction (id : String) (ps : List Parameter) (returnType : Option String) : String :=
  "CREATE FUNCTION " ++ Identifier.writtenId id ++ " (" ++
    (if ps.isEmpty then "" else "\n" ++ parameterLines ps ++ "\n") ++
    ")\nRETURNS " ++ writeType (returnType.getD "") ++ "\nAS\nBEGIN\n    RETURN NULL;\nEND"

end Provenance
