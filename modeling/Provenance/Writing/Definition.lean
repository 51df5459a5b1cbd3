import Provenance.Writing.Routine
import Provenance.Writing.View

/-!
# Writing definitions

The definition of an object of a catalog can be written from its columns or parameters, and it
can be replaced. Objects are found by their ids in any ASCII case.
-/

namespace Provenance

def sameId (a b : String) : Bool := Text.equalIgnoringCase a b

namespace Catalog

/-- The definition of the first view, else procedure, else function with an id. -/
def writeDefinition? (g : Catalog) (id : String) : Option String :=
  (((g.views.find? fun v => sameId v.id id).map fun v => writeView v.id v.columns).or
    ((g.procedures.find? fun p => sameId p.id id).map fun p =>
      writeProcedure p.id p.parameters)).or
    ((g.functions.find? fun f => sameId f.id id).map fun f =>
      writeFunction f.id f.parameters (some f.returnType))

/-- A catalog with another definition for the view with an id. -/
def defineView (id definition : String) (g : Catalog) : Catalog :=
  { g with views := g.views.map fun v => if sameId v.id id then { v with definition } else v }

/-- A catalog with the definition of every object with an id replaced. -/
def define (id definition : String) (g : Catalog) : Catalog :=
  { g.defineView id definition with
    triggers := g.triggers.map fun t => if sameId t.id id then { t with definition } else t
    procedures := g.procedures.map fun p => if sameId p.id id then { p with definition } else p
    functions := g.functions.map fun f => if sameId f.id id then { f with definition } else f }

def countId (id : String) (g : Catalog) : Nat :=
  g.views.countP (fun v => sameId v.id id) + g.triggers.countP (fun t => sameId t.id id) +
    g.procedures.countP (fun p => sameId p.id id) + g.functions.countP (fun f => sameId f.id id)

end Catalog

end Provenance
