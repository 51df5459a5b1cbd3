import Provenance.Catalog.Index
import Provenance.Query.Bindings
import Provenance.Query.Mention

/-!
# Tables read and written

The tables that a statement uses are resolved against an index. A single name that spells a
common table expression is no table; a single name without an alias that spells the alias of
another use is the table of that. The aliases and names of the tables are kept to resolve the
columns of the statement.
-/

namespace Provenance

/-- Whether a use names one of the common table expressions. -/
def TableUse.namesOneOf (commons : List String) (u : TableUse) : Bool :=
  u.isSimple && (commons.map Text.lowerCase).contains (Text.lowerCase u.lastPart)

/-- A use of a table and the id of the table. -/
structure ResolvedUse where
  use : TableUse
  id : String

namespace ResolvedUse

def declare (b : Bindings) (u : ResolvedUse) : Bindings :=
  match u.use.aliasName with
  | some name => b.bindAlias name u.id
  | none => b

def name (b : Bindings) (u : ResolvedUse) : Bindings :=
  (b.bindName u.id u.id).bindName (Identifier.lastPart u.id) u.id

/-- A use by a single name that is a declared alias, resolved to the table of that alias. -/
def followAlias (b : Bindings) (u : ResolvedUse) : ResolvedUse :=
  if u.use.isSimple && u.use.aliasName.isNone then
    { u with id := (b.aliases.find? u.use.lastPart).getD u.id }
  else u

end ResolvedUse

/-- The tables that a statement reads and writes. -/
structure Usage where
  /-- The ids of the tables it reads, in order of first appearance. -/
  reads : List String
  /-- The ids of the tables it reads outside parentheses. -/
  topLevelReads : List String
  writes : List String
  /-- What the aliases and names of the tables stand for. -/
  bindings : Bindings

namespace Usage

/-- The uses that are no common table expressions, resolved by their names. -/
def byName (index : Index) (defaultSchema : Option String) (ms : List Mention) :
    List ResolvedUse :=
  ((tableUses ms).filter fun u => !u.namesOneOf (commonNames ms)).map fun u =>
    ⟨u, index.tableId defaultSchema u.parts⟩

def declared (uses : List ResolvedUse) : Bindings := uses.foldl ResolvedUse.declare .empty

/-- The uses that have an id once aliases are followed. -/
def resolved (uses : List ResolvedUse) : List ResolvedUse :=
  (uses.map (ResolvedUse.followAlias (declared uses))).filter fun u => !u.id.isEmpty

/-- The ids of the uses that satisfy `p`, each once. -/
def idsOf (p : TableUse → Bool) (uses : List ResolvedUse) : List String :=
  distinctBy Text.lowerCase ((uses.filter fun u => p u.use).map ResolvedUse.id)

def ofMentions (index : Index) (defaultSchema : Option String) (ms : List Mention) : Usage :=
  let uses := byName index defaultSchema ms
  let tables := resolved uses
  { reads := idsOf (fun u => u.access == .read) tables
    topLevelReads := idsOf (fun u => u.access == .read && u.depth == 0) tables
    writes := idsOf (fun u => u.access == .write) tables
    bindings := tables.foldl ResolvedUse.name (declared uses) }

def ofTokens (index : Index) (defaultSchema : Option String) (ts : List Token) : Usage :=
  ofMentions index defaultSchema (mentions 0 ts)

end Usage

end Provenance
