import Provenance.Token.Basic

/-!
# Writing tokens

Tokens are written with single spaces between them, save that brackets, commas and full stops
close up: nothing stands after `(`, `.` or `,` and nothing before `(`, `)`, `,` or `.`.
-/

namespace Provenance

namespace Token

/-- Whether the token after this one closes up to it. -/
def gluesNext (t : Token) : Bool := t.isMark '(' || t.isMark '.' || t.isMark ','

/-- Whether this token closes up to the one before it. -/
def gluesBack (t : Token) : Bool := t.gluesNext || t.isMark ')'

end Token

def gap (left right : Token) : List Char :=
  if left.gluesNext || right.gluesBack then [] else [' ']

def renderChars : List Token → List Char
  | [] => []
  | [t] => t.text.toList
  | t :: u :: rest => t.text.toList ++ gap t u ++ renderChars (u :: rest)

def render (ts : List Token) : String := String.ofList (renderChars ts)

end Provenance
