import Provenance.Json.Basic

/-!
# Writing JSON

A value is written on one line without spaces, or indented by two spaces for each level with
every item and member on a line of its own. Strings escape what they must and leave every other
character as it is.
-/

namespace Provenance

namespace Json

/-- How a value is laid out: on one line, or indented with the value itself at a depth. -/
inductive Layout where
  | line
  | indented (depth : Nat)

namespace Layout

def deeper : Layout → Layout
  | line => line
  | indented depth => indented (depth + 1)

/-- What stands before an item. -/
def lineBreak : Layout → List Char
  | line => []
  | indented depth => '\n' :: List.replicate (2 * depth) ' '

/-- What stands before the closing bracket of a value with or without items. -/
def closing (layout : Layout) (isEmpty : Bool) : List Char :=
  if isEmpty then [] else layout.lineBreak

def colon : Layout → List Char
  | line => [':']
  | indented _ => [':', ' ']

end Layout

def controlDigits (c : Char) : List Char :=
  [Nat.digitChar (c.toNat / 16), Nat.digitChar (c.toNat % 16)]

/-- A character as it is written in a string literal. -/
def escape (c : Char) : List Char :=
  match c with
  | '"' => ['\\', '"']
  | '\\' => ['\\', '\\']
  | '\x08' => ['\\', 'b']
  | '\x0C' => ['\\', 'f']
  | '\n' => ['\\', 'n']
  | '\r' => ['\\', 'r']
  | '\t' => ['\\', 't']
  | c => if c < ' ' then ['\\', 'u', '0', '0'] ++ controlDigits c else [c]

/-- A string literal. One that denotes nothing is written as a lone surrogate. -/
def writeLiteral : Literal → List Char
  | some s => '"' :: s.toList.flatMap escape ++ ['"']
  | none => ['"', '\\', 'u', 'd', '8', '0', '0', '"']

mutual

def write (layout : Layout) : Json → List Char
  | .null => ['n', 'u', 'l', 'l']
  | .bool true => ['t', 'r', 'u', 'e']
  | .bool false => ['f', 'a', 'l', 's', 'e']
  | .number text => text.toList
  | .string literal => writeLiteral literal
  | .array items =>
    '[' :: writeItems layout.deeper [] items ++ layout.closing items.isEmpty ++ [']']
  | .object members =>
    '{' :: writeMembers layout.deeper [] members ++ layout.closing members.isEmpty ++ ['}']
termination_by structural j => j

/-- The items of an array, of which `separator` stands before the first. -/
def writeItems (layout : Layout) (separator : List Char) : List Json → List Char
  | [] => []
  | item :: items =>
    separator ++ layout.lineBreak ++ write layout item ++ writeItems layout [','] items

/-- The members of an object, of which `separator` stands before the first. -/
def writeMembers (layout : Layout) (separator : List Char) : List (Literal × Json) → List Char
  | [] => []
  | (key, value) :: members =>
    separator ++ layout.lineBreak ++ writeLiteral key ++ layout.colon ++ write layout value ++
      writeMembers layout [','] members

end

def compact (j : Json) : String := String.ofList (write .line j)

def pretty (j : Json) : String := String.ofList (write (.indented 0) j)

end Json

end Provenance
