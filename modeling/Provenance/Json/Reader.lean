import Provenance.Json.Lexer

/-!
# Reading JSON

Lexemes are taken one by one while the arrays and objects that are still open wait on a stack.
A text is read if it holds exactly one value, however deeply that is nested.
-/

namespace Provenance

namespace Json

/-- An array or object that is still open. -/
inductive Frame where
  /-- An array with the items before the next one, latest first. -/
  | array (items : List Json)
  /-- An object with the members before the next one, latest first, and the next key. -/
  | object (members : List (Literal × Json)) (key : Literal)

/-- What has been read of a text. -/
inductive Progress where
  | value (stack : List Frame)
  /-- The first item of an array comes next, or its end. -/
  | firstItem (stack : List Frame)
  /-- The first key of an object comes next, or its end. -/
  | firstKey (stack : List Frame)
  | key (members : List (Literal × Json)) (stack : List Frame)
  | colon (members : List (Literal × Json)) (key : Literal) (stack : List Frame)
  | complete (value : Json) (stack : List Frame)

namespace Progress

def beginValue (stack : List Frame) : Lexeme → Option Progress
  | .mark '[' => some (.firstItem stack)
  | .mark '{' => some (.firstKey stack)
  | .mark _ => none
  | .string literal => some (.complete (.string literal) stack)
  | .scalar j => some (.complete j stack)

def step : Progress → Lexeme → Option Progress
  | .value stack, l => beginValue stack l
  | .firstItem stack, .mark ']' => some (.complete (.array []) stack)
  | .firstItem stack, l => beginValue (.array [] :: stack) l
  | .firstKey stack, .mark '}' => some (.complete (.object []) stack)
  | .firstKey stack, .string k => some (.colon [] k stack)
  | .firstKey _, _ => none
  | .key members stack, .string k => some (.colon members k stack)
  | .key _ _, _ => none
  | .colon members k stack, .mark ':' => some (.value (.object members k :: stack))
  | .colon _ _ _, _ => none
  | .complete v (.array items :: stack), .mark ',' => some (.value (.array (v :: items) :: stack))
  | .complete v (.array items :: stack), .mark ']' =>
    some (.complete (.array (v :: items).reverse) stack)
  | .complete v (.object members k :: stack), .mark ',' => some (.key ((k, v) :: members) stack)
  | .complete v (.object members k :: stack), .mark '}' =>
    some (.complete (.object ((k, v) :: members).reverse) stack)
  | .complete _ _, _ => none

end Progress

def ofLexemes? (ls : List Lexeme) : Option Json :=
  match ls.foldlM Progress.step (.value []) with
  | some (.complete value []) => some value
  | _ => none

/-- The value that a text holds. -/
def parse? (s : String) : Option Json := (lex s.toList).bind ofLexemes?

end Json

end Provenance
