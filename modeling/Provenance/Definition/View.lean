import Provenance.Definition.Header
import Provenance.Query.Attribution

/-!
# Definitions of views

The columns of a view are those of its select list. Names declared after the name of the view
replace theirs, and columns known from elsewhere supply the types that the origins do not.
-/

namespace Provenance

/-- The names declared for the columns of a view, `CREATE VIEW name (a, b)`. -/
def declaredColumns? (ts : List Token) : Option (List String) := do
  let (_, rest) ← findHeader? (Token.is .SELECT)
    (fun t => if t.is .VIEW then some () else none) ts
  let (_, rest) ← qualifiedName? rest
  let (inner, _) ← group? rest
  let names := ((splitCommas inner).filterMap fun piece => piece.find? Token.isWord).map fun t =>
    Identifier.bare t.text
  let named := names.filter fun name => !name.isEmpty
  if named.isEmpty then none else some named

/-- Columns with declared names in place of their own. Names without a column get one. -/
def rename : List Column → List String → List Column
  | columns, [] => columns
  | [], names => names.map Column.named
  | c :: columns, name :: names => { c with name } :: rename columns names

/-- A column with the type of the first known column of its name, if it has none of its own. -/
def fillType (known : List Column) (c : Column) : Column :=
  if c.lacksType then
    match known.find? fun k => Text.equalIgnoringCase k.name c.name && !k.lacksType with
    | some k => c.withTypeOf k
    | none => c
  else c

/-- Columns with the types of known columns where they have none. If there are no columns, they
are the known ones. -/
def fillTypes (known : List Column) : List Column → List Column
  | [] => known
  | columns => columns.map (fillType known)

structure ViewSummary where
  columns : List Column
  referencedTables : List String
  deriving DecidableEq, Repr

def readView (index : Index) (defaultSchema : Option String) (known : Option (List Column))
    (sql : String) : ViewSummary :=
  let ts := sqlTokens sql
  let usage := Usage.ofTokens index defaultSchema ts
  let resolved := Scope.outputColumns ⟨usage, index⟩ (outputItems ts)
  let named := rename resolved ((declaredColumns? ts).getD [])
  let typed := match known with
    | some known => fillTypes known named
    | none => named
  ⟨uniqueNames typed, usage.reads⟩

end Provenance
