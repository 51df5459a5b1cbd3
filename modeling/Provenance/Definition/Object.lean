import Provenance.Definition.Header
import Provenance.Definition.Routine
import Provenance.Definition.View

/-!
# Definitions of objects

A definition of unknown kind is read by its first header. Only what its kind has is read: the
columns of a view, the signature of a procedure or function, the return type of a function, and
the tables that a routine reads and writes.
-/

namespace Provenance

/-- What a definition says about an object. -/
structure ObjectSummary where
  kind : ObjectKind
  name : String
  view : Option ViewSummary
  signature : Option Signature
  returnType : Option String
  references : Option RoutineUsage
  deriving DecidableEq, Repr

def readObject? (index : Index) (defaultSchema : Option String) (sql : String) :
    Option ObjectSummary :=
  (Header.parse? sql).map fun header =>
    let references := routineUsage index defaultSchema sql
    match header.kind with
    | .view =>
      ⟨.view, header.name, some (readView index defaultSchema none sql), none, none, none⟩
    | .procedure =>
      ⟨.procedure, header.name, none, some (Signature.parse sql), none, some references⟩
    | .function =>
      ⟨.function, header.name, none, some (Signature.parse sql), returnType? sql,
        some references⟩
    | .trigger => ⟨.trigger, header.name, none, none, none, some references⟩

end Provenance
