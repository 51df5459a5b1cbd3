/-!
# JSON values

A JSON value as it is written: numbers keep their text, objects keep the order of their members
and every repetition of a key.
-/

namespace Provenance

/-- What a string literal denotes: a text, or nothing if an escaped surrogate has no partner. -/
abbrev Literal := Option String

inductive Json where
  | null
  | bool (b : Bool)
  /-- A number as it is written. -/
  | number (text : String)
  | string (literal : Literal)
  | array (items : List Json)
  | object (members : List (Literal × Json))
  deriving Repr, Inhabited

namespace Json

def ofString (s : String) : Json := .string (some s)

def ofNat (n : Nat) : Json := .number n.repr

def ofStrings (ss : List String) : Json := .array (ss.map ofString)

/-- A value that may be absent, written as `null` if it is. -/
def ofOption {α : Type} (toJson : α → Json) (value : Option α) : Json :=
  (value.map toJson).getD .null

/-- An object with well-formed keys. -/
def ofFields (fields : List (String × Json)) : Json :=
  .object (fields.map fun field => (some field.1, field.2))

/-- A field that is left out if it has no value. -/
def optionalField {α : Type} (name : String) (toJson : α → Json) (value : Option α) :
    List (String × Json) :=
  (value.map fun a => (name, toJson a)).toList

end Json

end Provenance
