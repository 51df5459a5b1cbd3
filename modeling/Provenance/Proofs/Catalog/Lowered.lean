import Provenance.Catalog.Index
import Provenance.Proofs.Token.LoweredReaders

/-!
# Catalogs in small letters

An index finds relations and columns in any case. So an index in small letters finds for a name in
small letters what the index finds for the name.
-/

namespace Provenance

/-! ## Ids -/

namespace Identifier

theorem joinId_cons_cons (first second : String) (rest : List String) :
    joinId (first :: second :: rest) = first ++ "." ++ joinId (second :: rest) := by
  rw [joinId, String.intercalate_cons_cons]
  rfl

@[simp] theorem joinId_asciiLower (parts : List String) :
    joinId (parts.map Text.asciiLower) = Text.asciiLower (joinId parts) := by
  match parts with
  | [] => rfl
  | [part] => simp [joinId]
  | first :: second :: rest =>
    have hdot : Text.asciiLower "." = "." := by decide
    have htail := joinId_asciiLower (second :: rest)
    rw [List.map_cons] at htail
    rw [List.map_cons, List.map_cons, joinId_cons_cons, htail, joinId_cons_cons,
      Text.asciiLower_append, Text.asciiLower_append, hdot]

@[simp] theorem lastPart_asciiLower (id : String) :
    lastPart (Text.asciiLower id) = Text.asciiLower (lastPart id) := by
  have hdot : (fun c : Char => c != '.') ∘ Char.toLower = fun c => c != '.' := by
    funext c
    simp [bne]
  rw [lastPart, Text.toList_asciiLower, ← List.map_reverse, List.takeWhile_map, hdot,
    ← List.map_reverse, lastPart, Text.asciiLower_ofList]

@[simp] theorem lastTwo_map {α β : Type} (f : α → β) (xs : List α) :
    lastTwo (xs.map f) = (lastTwo xs).map f := by
  rw [lastTwo, List.length_map, ← List.map_drop, lastTwo]

end Identifier

/-! ## Tables of names -/

namespace NameTable

variable {α β : Type}

def map (f : α → β) (t : NameTable α) : NameTable β :=
  ⟨t.entries.map fun entry => (entry.1, f entry.2)⟩

@[simp] theorem find?_map (f : α → β) (name : String) (t : NameTable α) :
    (t.map f).find? name = (t.find? name).map f := by
  simp [find?, map, List.find?_map, Function.comp_def]

@[simp] theorem find?_asciiLower (name : String) (t : NameTable α) :
    t.find? (Text.asciiLower name) = t.find? name := by
  simp [find?]

theorem enter_asciiLower (f : α → β) (name : String) (value : α) (t : NameTable α) :
    (t.map f).enter (Text.asciiLower name) (f value) = (t.enter name value).map f := by
  have hcontains : (t.map f).contains (Text.asciiLower name) = t.contains name := by
    simp [contains]
  rw [enter, hcontains, enter]
  split
  · rfl
  · simp [map]

theorem replace_asciiLower (f : α → β) (name : String) (value : α) (t : NameTable α) :
    (t.map f).replace (Text.asciiLower name) (f value) = (t.replace name value).map f := by
  simp [replace, map, List.filter_map, Function.comp_def]

end NameTable

/-! ## Columns -/

def Origin.lowered (o : Origin) : Origin := ⟨Text.asciiLower o.table, Text.asciiLower o.column⟩

@[simp] theorem Origin.key_lowered (o : Origin) : o.lowered.key = o.key := by
  simp [key, lowered]

namespace Column

/-- A column whose name and origins are in small letters. Its type stays as it is. -/
def lowered (c : Column) : Column :=
  { c with
    name := Text.asciiLower c.name
    origins := c.origins.map (List.map Origin.lowered)
    originTable := c.originTable.map Text.asciiLower
    originColumn := c.originColumn.map Text.asciiLower }

@[simp] theorem named_asciiLower (name : String) :
    named (Text.asciiLower name) = (named name).lowered := rfl

@[simp] theorem withOrigins_lowered (origins : List Origin) (c : Column) :
    c.lowered.withOrigins (origins.map Origin.lowered) = (c.withOrigins origins).lowered := by
  cases origins <;> rfl

@[simp] theorem lacksType_lowered (c : Column) : c.lowered.lacksType = c.lacksType := rfl

end Column

/-! ## Indexes -/

namespace Index

def lowered (index : Index) : Index :=
  ⟨index.ids.map Text.asciiLower, index.columnLists.map (List.map Column.lowered)⟩

variable (index : Index)

@[simp] theorem idOf?_lowered (name : String) :
    index.lowered.idOf? (Text.asciiLower name) = (index.idOf? name).map Text.asciiLower := by
  simp [idOf?, lowered]

@[simp] theorem columnsOf?_lowered (id : String) :
    index.lowered.columnsOf? (Text.asciiLower id) =
      (index.columnsOf? id).map (List.map Column.lowered) := by
  simp [columnsOf?, lowered]

@[simp] theorem columnOf?_lowered (id column : String) :
    index.lowered.columnOf? (Text.asciiLower id) (Text.asciiLower column) =
      (index.columnOf? id column).map Column.lowered := by
  have hname : (fun c : Column => Text.equalIgnoringCase c.name (Text.asciiLower column)) ∘
      Column.lowered = fun c => Text.equalIgnoringCase c.name column := by
    funext c
    simp [Column.lowered]
  unfold columnOf?
  rw [columnsOf?_lowered]
  cases index.columnsOf? id with
  | none => rfl
  | some columns =>
    simp only [Option.map_some, Option.bind_eq_bind, Option.bind_some, List.find?_map, hname]

@[simp] theorem tableId_lowered (defaultSchema : Option String) (parts : List String) :
    index.lowered.tableId (defaultSchema.map Text.asciiLower) (parts.map Text.asciiLower) =
      Text.asciiLower (index.tableId defaultSchema parts) := by
  have hschema : (defaultSchema.map Text.asciiLower).filter (fun s => !Text.isBlankText s) =
      (defaultSchema.filter fun s => !Text.isBlankText s).map Text.asciiLower := by
    cases defaultSchema with
    | none => rfl
    | some schema => simp [Option.filter]
  unfold tableId
  simp only [Identifier.map_bare_asciiLower, Text.filter_not_isEmpty_asciiLower, hschema,
    Identifier.lastTwo_map]
  generalize Identifier.lastTwo _ = names
  match names with
  | [] => rfl
  | [name] =>
    cases defaultSchema.filter fun schema => !Text.isBlankText schema with
    | none =>
      simp only [List.map_cons, List.map_nil, idOf?_lowered, Option.map_none]
      cases index.idOf? name <;> rfl
    | some schema =>
      have hid := Identifier.joinId_asciiLower [Identifier.bare schema, name]
      simp only [List.map_cons, List.map_nil] at hid
      simp only [List.map_cons, List.map_nil, Option.map_some, Identifier.bare_asciiLower, hid,
        idOf?_lowered, ← Option.map_or]
      cases (index.idOf? (Identifier.joinId [Identifier.bare schema, name])).or
        (index.idOf? name) <;> rfl
  | first :: second :: rest =>
    have hid := Identifier.joinId_asciiLower (first :: second :: rest)
    simp only [List.map_cons] at hid ⊢
    simp only [hid, idOf?_lowered]
    cases index.idOf? (Identifier.joinId (first :: second :: rest)) <;> rfl

end Index

end Provenance
