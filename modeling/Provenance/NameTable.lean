import Provenance.Text.LowerCase

/-!
# Tables of names

A table of names finds an entry by its name in any case. Entries are kept under the lower case
of their names, one for each. An entry stays when its name is entered again, unless it is
replaced.
-/

namespace Provenance

/-- Entries under the lower case of their names. -/
structure NameTable (α : Type) where
  /-- The entries with their keys, which are distinct. -/
  entries : List (String × α)

namespace NameTable

variable {α : Type}

def empty : NameTable α := ⟨[]⟩

def find? (name : String) (t : NameTable α) : Option α :=
  let key := Text.lowerCase name
  (t.entries.find? fun entry => entry.1 == key).map Prod.snd

def contains (name : String) (t : NameTable α) : Bool := (t.find? name).isSome

/-- Enters a value under a name unless the name has an entry. -/
def enter (name : String) (value : α) (t : NameTable α) : NameTable α :=
  if t.contains name then t else ⟨t.entries ++ [(Text.lowerCase name, value)]⟩

/-- Enters a value under a name in place of any entry it has. -/
def replace (name : String) (value : α) (t : NameTable α) : NameTable α :=
  let key := Text.lowerCase name
  ⟨(key, value) :: t.entries.filter fun entry => entry.1 != key⟩

def size (t : NameTable α) : Nat := t.entries.length

@[simp] theorem find?_empty (name : String) : (empty : NameTable α).find? name = none := rfl

/-- An entered name is found with its value unless the table already has it; no other name is
affected. -/
theorem find?_enter (name other : String) (value : α) (t : NameTable α) :
    (t.enter name value).find? other =
      (t.find? other).or
        (if Text.lowerCase name = Text.lowerCase other then some value else none) := by
  by_cases h : Text.lowerCase name = Text.lowerCase other
  · have same : t.find? name = t.find? other := by simp [find?, h]
    cases found : t.find? other with
    | some a => simp [enter, contains, same, found]
    | none =>
      have missing := found
      simp only [find?, Option.map_eq_none_iff] at missing
      simp [enter, contains, find?, List.find?_append, missing, h]
  · by_cases known : t.contains name
    · simp [enter, known, h]
    · simp [enter, known, find?, List.find?_append, h]

/-- A replaced name is found with its new value; no other name is affected. -/
theorem find?_replace (name other : String) (value : α) (t : NameTable α) :
    (t.replace name value).find? other =
      if Text.lowerCase name = Text.lowerCase other then some value else t.find? other := by
  by_cases h : Text.lowerCase name = Text.lowerCase other
  · simp [replace, find?, h]
  · simp only [replace, find?, h, if_false]
    rw [List.find?_cons_of_neg (by simpa using h), List.find?_filter]
    congr 2
    funext entry
    by_cases he : entry.1 = Text.lowerCase other
    · simp [he, Ne.symm h]
    · simp [he]

end NameTable

end Provenance
