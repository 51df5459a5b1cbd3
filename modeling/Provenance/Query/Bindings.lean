import Provenance.NameTable

/-!
# Aliases and names in a statement

Columns are qualified by an alias, by the short name of a table or by its id. An alias that is
declared again stands for the later table; a name stands for the first table that has it; and
an alias goes before a name.
-/

namespace Provenance

/-- The tables that the aliases and names of a statement stand for. -/
structure Bindings where
  aliases : NameTable String
  names : NameTable String

namespace Bindings

def empty : Bindings := ⟨.empty, .empty⟩

def bindAlias (name id : String) (b : Bindings) : Bindings :=
  { b with aliases := b.aliases.replace name id }

/-- Enters a name of the table with an id, unless another table has it. -/
def bindName (name id : String) (b : Bindings) : Bindings :=
  { b with names := b.names.enter name id }

/-- The id of the table that an alias or name stands for. -/
def lookup? (name : String) (b : Bindings) : Option String :=
  (b.aliases.find? name).or (b.names.find? name)

end Bindings

end Provenance
