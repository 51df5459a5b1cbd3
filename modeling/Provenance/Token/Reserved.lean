import Provenance.Text.Ascii

/-!
# Reserved words

Words that end or structure a clause and so never name a table, a column or an alias when they
stand without delimiters. Common column names (`name`, `status`, `date`) are not among them.
-/

namespace Provenance

def reservedSpellings : List String :=
  ["ADD", "ALL", "ALTER", "AND", "ANY", "APPLY", "AS", "ASC", "BEGIN", "BETWEEN", "BREAK", "BY",
   "CASE", "CATCH", "CHECK", "CLOSE", "COLLATE", "COMMIT", "CONSTRAINT", "CONTINUE", "CREATE",
   "CROSS", "CURRENT", "CURRENT_TIMESTAMP", "CURRENT_USER", "CURSOR", "DEALLOCATE", "DECLARE",
   "DEFAULT", "DELETE", "DESC", "DISTINCT", "DROP", "ELSE", "END", "ESCAPE", "EXCEPT", "EXEC",
   "EXECUTE", "EXISTS", "FETCH", "FOLLOWING", "FOR", "FOREIGN", "FROM", "FULL", "FUNCTION", "GO",
   "GOTO", "GRANT", "GROUP", "HAVING", "IF", "IN", "INNER", "INSERT", "INTERSECT", "INTO", "IS",
   "JOIN", "KEY", "LEFT", "LIKE", "MERGE", "NOT", "NULL", "OF", "OFF", "ON", "OPEN", "OPTION",
   "OR", "ORDER", "OUTER", "OUTPUT", "OVER", "PARTITION", "PERCENT", "PIVOT", "PRECEDING",
   "PRIMARY", "PRINT", "PROC", "PROCEDURE", "RAISERROR", "RANGE", "READONLY", "REFERENCES",
   "RETURN", "RETURNS", "REVOKE", "RIGHT", "ROLLBACK", "ROWS", "SELECT", "SESSION_USER", "SET",
   "SYSTEM_USER", "TABLE", "TABLESAMPLE", "THEN", "THROW", "TOP", "TRAN", "TRANSACTION",
   "TRIGGER", "TRUNCATE", "TRY", "UNBOUNDED", "UNION", "UNIQUE", "UNPIVOT", "UPDATE", "USE",
   "USING", "VALUES", "VIEW", "WAITFOR", "WHEN", "WHERE", "WHILE", "WITH", "WITHIN"]

/-- Whether a word is reserved, in any ASCII case. -/
def spellsReserved (word : String) : Bool := reservedSpellings.contains (Text.asciiUpper word)

end Provenance
