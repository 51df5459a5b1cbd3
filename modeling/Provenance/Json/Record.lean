import Provenance.Json.Basic

/-!
# Records in JSON

A record is written as an object. It is read from an object, whose unknown members are passed
over, or from an array of its fields in their order, of which the last may be missing.
-/

namespace Provenance

namespace Json

/-- The values of the fields of a record, absent where a field is not given. A key that denotes
nothing, a field given twice and an array with more items than fields are refused. -/
def fields? (names : List String) : Json → Option (List (Option Json))
  | .object members =>
    if members.all (fun m => m.1.isSome) &&
        names.all (fun name => members.countP (fun m => m.1 == some name) ≤ 1) then
      some (names.map fun name => (members.find? fun m => m.1 == some name).map Prod.snd)
    else none
  | .array items =>
    if items.length ≤ names.length then
      some (items.map some ++ List.replicate (names.length - items.length) none)
    else none
  | _ => none

def asString? : Json → Option String
  | .string literal => literal
  | _ => none

def asBool? : Json → Option Bool
  | .bool b => some b
  | _ => none

/-- The items of an array, each of which must be readable. -/
def asList? {α : Type} (read : Json → Option α) : Json → Option (List α)
  | .array items => items.mapM read
  | _ => none

/-- The value of a field that must be given. -/
def required {α : Type} (read : Json → Option α) (field : Option Json) : Option α :=
  field.bind read

/-- The value of a field that stands for `missing` when it is not given. -/
def defaulted {α : Type} (missing : α) (read : Json → Option α) (field : Option Json) : Option α :=
  match field with
  | none => some missing
  | some j => read j

/-- The value of a field that may be left out or be `null`. -/
def optional {α : Type} (read : Json → Option α) (field : Option Json) : Option (Option α) :=
  match field with
  | none => some none
  | some .null => some none
  | some j => (read j).map some

end Json

end Provenance
