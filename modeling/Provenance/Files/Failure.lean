/-!
# Failures

Only the reading and writing of files can fail, and the search for an object by its id.
-/

namespace Provenance

/-- Why a command ends without a result. -/
inductive Failure where
  /-- The file of a catalog is missing, is a folder or is no UTF-8. -/
  | catalogUnreadable (path : String)
  | catalogMalformed (path : String)
  /-- The file of a definition is missing, is a folder or cannot be decoded. -/
  | definitionUnreadable (path : String)
  | directoryUnreadable (path : String)
  | outputUnwritable (path : String)
  | objectUnknown (id : String)
  deriving DecidableEq, Repr

def Failure.message : Failure → String
  | catalogUnreadable path => "Failed to read schema file: " ++ path
  | catalogMalformed path => "Failed to parse schema file: " ++ path
  | definitionUnreadable path => "Failed to read SQL file: " ++ path
  | directoryUnreadable path => "Failed to scan directory: " ++ path
  | outputUnwritable path => "Failed to write output to " ++ path
  | objectUnknown id => "Object not found in schema: " ++ id

end Provenance
