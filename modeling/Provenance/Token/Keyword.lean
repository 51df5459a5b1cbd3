import Provenance.Text.Ascii

/-!
# Keywords

The SQL keywords that structure a statement. A word spells a keyword in any case, and letters
outside ASCII count as their upper case (`ſelect` spells `SELECT`).
-/

namespace Provenance

inductive Keyword where
  | ALL | ALTER | APPLY | AS | BEGIN | CREATE | DELETE | DISTINCT | EXCEPT | FOR | FROM
  | FUNCTION | GROUP | HAVING | INSERT | INTERSECT | INTO | JOIN | MERGE | OR | ORDER
  | PERCENT | PROCEDURE | RETURNS | SELECT | TOP | TRIGGER | UNION | UPDATE | USING | VIEW
  | WHERE | WITH
  deriving DecidableEq, Repr

namespace Keyword

def spelling : Keyword → String
  | ALL => "ALL" | ALTER => "ALTER" | APPLY => "APPLY" | AS => "AS" | BEGIN => "BEGIN"
  | CREATE => "CREATE" | DELETE => "DELETE" | DISTINCT => "DISTINCT" | EXCEPT => "EXCEPT"
  | FOR => "FOR" | FROM => "FROM" | FUNCTION => "FUNCTION" | GROUP => "GROUP"
  | HAVING => "HAVING" | INSERT => "INSERT" | INTERSECT => "INTERSECT" | INTO => "INTO"
  | JOIN => "JOIN" | MERGE => "MERGE" | OR => "OR" | ORDER => "ORDER" | PERCENT => "PERCENT"
  | PROCEDURE => "PROCEDURE" | RETURNS => "RETURNS" | SELECT => "SELECT" | TOP => "TOP"
  | TRIGGER => "TRIGGER" | UNION => "UNION" | UPDATE => "UPDATE" | USING => "USING"
  | VIEW => "VIEW" | WHERE => "WHERE" | WITH => "WITH"

def every : List Keyword :=
  [ALL, ALTER, APPLY, AS, BEGIN, CREATE, DELETE, DISTINCT, EXCEPT, FOR, FROM, FUNCTION, GROUP,
   HAVING, INSERT, INTERSECT, INTO, JOIN, MERGE, OR, ORDER, PERCENT, PROCEDURE, RETURNS, SELECT,
   TOP, TRIGGER, UNION, UPDATE, USING, VIEW, WHERE, WITH]

def ofWord? (word : String) : Option Keyword :=
  let capitals := Text.capitalised word
  every.find? fun k => k.spelling == capitals

end Keyword

end Provenance
