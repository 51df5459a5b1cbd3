import Provenance.Token.Lex

/-!
# Identifiers

A name is written plain, in brackets or in double quotes. Its bare form is what it stands for;
writing a bare name puts it in brackets unless it is a regular identifier that is not reserved.
An id such as `sales.orders` is a bare schema and a bare name joined by a full stop.
-/

namespace Provenance

namespace Identifier

/-- Replaces every pair of the character `c` by one. -/
def undouble (c : Char) : List Char → List Char
  | [] => []
  | [d] => [d]
  | d :: e :: rest => if d = c && e = c then c :: undouble c rest else d :: undouble c (e :: rest)

/-- The name between delimiters, of which the opening one has been taken off. The closing one
may be missing. -/
def unwrap (close : Char) (cs : List Char) : List Char :=
  let inner := if cs.getLast? = some close then cs.dropLast else cs
  Text.trimChars (undouble close inner)

/-- The characters of the name that a written identifier stands for. -/
def bareChars (cs : List Char) : List Char :=
  match Text.trimChars cs with
  | '[' :: rest => unwrap ']' rest
  | '"' :: rest => unwrap '"' rest
  | cs => cs

/-- The name that a written identifier stands for: without blanks around it and without its
delimiters, if it has any. -/
def bare (written : String) : String := String.ofList (bareChars written.toList)

def isRegularFirst (c : Char) : Bool := c.isAlpha || c == '_'

def isRegularNext (c : Char) : Bool := c.isAlphanum || c == '_' || c == '@' || c == '#' || c == '$'

/-- Whether a name needs no delimiters because of its characters. -/
def isRegular (name : String) : Bool :=
  match name.toList with
  | [] => false
  | c :: rest => isRegularFirst c && rest.all isRegularNext

/-- Writes every occurrence of the character `c` twice. -/
def double (c : Char) (cs : List Char) : List Char :=
  cs.flatMap fun d => if d = c then [c, c] else [d]

/-- A name as it is written in generated SQL, in brackets if it needs them. -/
def written (name : String) : String :=
  if isRegular name && !spellsReserved name then name
  else String.ofList ('[' :: double ']' name.toList ++ [']'])

/-- Splits an id at its first full stop. -/
def splitId? (id : String) : Option (String × String) :=
  match id.toList.dropWhile (· != '.') with
  | [] => none
  | _ :: name => some (String.ofList (id.toList.takeWhile (· != '.')), String.ofList name)

def joinId (parts : List String) : String := ".".intercalate parts

/-- An id as it is written in generated SQL: the parts before and after its first full stop
are written one by one. -/
def writtenId (id : String) : String :=
  match splitId? id with
  | some (schema, name) => joinId [written schema, written name]
  | none => written id

def lastPart (id : String) : String :=
  String.ofList (id.toList.reverse.takeWhile (· != '.')).reverse

/-- The last two entries of a list, or all of them if there are fewer. -/
def lastTwo {α : Type} (xs : List α) : List α := xs.drop (xs.length - 2)

end Identifier

end Provenance
