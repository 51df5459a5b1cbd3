/-!
# Lines

A line feed ends a line, and so does a carriage return with a line feed after it. A carriage
return by itself is a character like any other.
-/

namespace Provenance.Text

def untilLineBreak : List Char → List Char
  | [] => []
  | '\n' :: _ => []
  | '\r' :: '\n' :: _ => []
  | c :: rest => c :: untilLineBreak rest

def firstLine (s : String) : String := String.ofList (untilLineBreak s.toList)

end Provenance.Text
