import Provenance.Query.Chain
import Provenance.Query.SelectList
import Provenance.Query.UniqueNames
import Provenance.Query.Usage

/-!
# Attributing columns to their origins

A wildcard stands for the columns of the tables in scope. In any other expression every chain of
names that can be a column is resolved; one that does not belong to exactly one table is left
out. The output column takes its type from its first origin.
-/

namespace Provenance

/-- What the names of a statement stand for. -/
structure Scope where
  usage : Usage
  index : Index

namespace Scope

/-- The table that a qualifier stands for. Its last two names count. -/
def qualified? (scope : Scope) (qualifier : List String) : Option String :=
  scope.usage.bindings.lookup? (Identifier.joinId (Identifier.lastTwo qualifier))

/-- The origin in a known table, in the spelling of that table. -/
def originIn (scope : Scope) (column id : String) : Origin :=
  ⟨id, ((scope.index.columnOf? id column).map Column.name).getD column⟩

/-- The origin in a table that has the column. -/
def ownedBy? (scope : Scope) (column id : String) : Option Origin :=
  (scope.index.columnOf? id column).map fun c => ⟨id, c.name⟩

/-- The origin of a column without qualifier. If one table is read it is taken from there,
unless the columns of the table are known and it is none of them; otherwise exactly one table
must have it. -/
def unqualified? (scope : Scope) (column : String) : Option Origin :=
  match scope.usage.reads with
  | [id] =>
    match scope.index.columnsOf? id with
    | some (_ :: _) => scope.ownedBy? column id
    | _ => some ⟨id, column⟩
  | ids =>
    match ids.filterMap (scope.ownedBy? column) with
    | [origin] => some origin
    | _ => none

/-- The origin that a chain of names stands for. -/
def origin? (scope : Scope) (names : List String) : Option Origin :=
  match names.reverse with
  | [] => none
  | [column] => scope.unqualified? column
  | column :: qualifier => (scope.qualified? qualifier.reverse).map (scope.originIn column)

def origins (scope : Scope) (expr : List Token) : List Origin :=
  distinctBy Origin.key
    (((chains [] expr).filter Chain.isColumn).filterMap fun c => scope.origin? c.bareNames)

/-- The tables that a wildcard without qualifier stands for: those read outside parentheses, or
all that are read if there are none. -/
def starTables (scope : Scope) : List String :=
  if scope.usage.topLevelReads.isEmpty then scope.usage.reads else scope.usage.topLevelReads

/-- The tables whose columns an expression stands for, if it is a wildcard. -/
def wildcard? (scope : Scope) (expr : List Token) : Option (List String) :=
  match expr.reverse with
  | [] => none
  | star :: front =>
    if !star.isMark '*' then none
    else if front.isEmpty then some scope.starTables
    else
      (wildcardQualifier? front).map fun qualifier =>
        (scope.qualified? (qualifier.map fun t => Identifier.bare t.text)).toList

def expand (scope : Scope) (id : String) : List Column :=
  ((scope.index.columnsOf? id).getD []).map fun c =>
    ((Column.named c.name).withTypeOf c).withOrigins [⟨id, c.name⟩]

/-- The name of the output column at a position: its alias, its first origin, the name that the
expression implies, or else one made from the position. -/
def outputName (position : Nat) (item : SelectItem) (origins : List Origin) : String :=
  ((item.aliasName.or (origins.head?.map Origin.column)).or (impliedName? item.expr)).getD
    ("expr_" ++ (position + 1).repr)

/-- A column with the type of an origin, if that is known. -/
def typed (scope : Scope) (origin : Option Origin) (c : Column) : Column :=
  match origin.bind fun o => scope.index.columnOf? o.table o.column with
  | some known => c.withTypeOf known
  | none => c

def outputColumn (scope : Scope) (position : Nat) (item : SelectItem) : Column :=
  let origins := scope.origins item.expr
  (scope.typed origins.head? (.named (outputName position item origins))).withOrigins origins

def itemColumns (scope : Scope) (ts : List Token) (position : Nat) : List Column :=
  let item := SelectItem.ofTokens ts
  match scope.wildcard? item.expr with
  | some ids => ids.flatMap scope.expand
  | none => [scope.outputColumn position item]

/-- The output columns of the items of a select list, with unique names. -/
def outputColumns (scope : Scope) (items : List (List Token)) : List Column :=
  uniqueNames (items.zipIdx.flatMap fun (item, position) => scope.itemColumns item position)

end Scope

end Provenance
