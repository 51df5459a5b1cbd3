import Mathlib.Data.List.Nodup
import Provenance.Proofs.Catalog.Index
import Provenance.Proofs.Identifier
import Provenance.Proofs.Text.LowerCase
import Provenance.Writing.Definition

/-!
# Catalogs with qualified ids

Where every id is made of a schema and a name without full stops, no name of a relation is the id
of another, so a relation is found by its id.
-/

namespace Provenance

namespace Identifier

/-- Whether a name can be a part of an id: it is not empty and has no blanks at its ends and no
full stop. -/
structure IsPart (name : String) : Prop where
  nonempty : name ≠ ""
  trimmed : Text.trim name = name
  undotted : '.' ∉ name.toList

instance (name : String) : Decidable (IsPart name) :=
  decidable_of_iff (name ≠ "" ∧ Text.trim name = name ∧ '.' ∉ name.toList)
    ⟨fun ⟨nonempty, trimmed, undotted⟩ => ⟨nonempty, trimmed, undotted⟩,
      fun h => ⟨h.nonempty, h.trimmed, h.undotted⟩⟩

theorem toList_joinId (schema name : String) :
    (joinId [schema, name]).toList = schema.toList ++ '.' :: name.toList := by
  have hdot : ".".toList = ['.'] := by decide
  rw [joinId, String.toList_intercalate, hdot]
  simp [List.intercalate]

theorem idParts_joinId {schema : String} (h : '.' ∉ schema.toList) (name : String) :
    idParts (joinId [schema, name]) = [schema, name] := by
  have hschema := ne_dot_of_undotted h
  have hdrop : (joinId [schema, name]).toList.dropWhile (· != '.') = '.' :: name.toList := by
    rw [toList_joinId, List.dropWhile_append_of_pos hschema]
    rfl
  have htake : (joinId [schema, name]).toList.takeWhile (· != '.') = schema.toList := by
    rw [toList_joinId, List.takeWhile_append_of_pos hschema]
    simp
  unfold idParts splitId?
  rw [hdrop, htake]
  simp

theorem isReadable_joinId {schema name : String} (hschema : IsPart schema) (hname : IsPart name) :
    IsReadable (joinId [schema, name]) := by
  intro part hpart
  rw [idParts_joinId hschema.undotted name] at hpart
  rcases (by simpa using hpart) with rfl | rfl
  · exact ⟨hschema.nonempty, hschema.trimmed⟩
  · exact ⟨hname.nonempty, hname.trimmed⟩

theorem lastPart_joinId (schema : String) {name : String} (h : '.' ∉ name.toList) :
    lastPart (joinId [schema, name]) = name := by
  have hname : ∀ c ∈ name.toList.reverse, (c != '.') = true :=
    ne_dot_of_undotted fun hmem => h (List.mem_reverse.mp hmem)
  have hreverse : (joinId [schema, name]).toList.reverse =
      name.toList.reverse ++ '.' :: schema.toList.reverse := by
    simp [toList_joinId]
  rw [lastPart, hreverse, List.takeWhile_append_of_pos hname]
  simp

end Identifier

theorem find?_eq_some_of_unique {α : Type} {p : α → Bool} {l : List α} {a : α} (ha : a ∈ l)
    (hp : p a = true) (hunique : ∀ b ∈ l, p b = true → b = a) : l.find? p = some a := by
  cases hfind : l.find? p with
  | none => exact absurd hp (List.find?_eq_none.mp hfind a ha)
  | some b => rw [hunique b (List.mem_of_find?_eq_some hfind) (List.find?_some hfind)]

/-- Whether an index finds a relation by a name. -/
def Table.answersTo (name : String) (t : Table) : Bool :=
  [t.id, Identifier.joinId [t.schema, t.name], t.name].any fun known =>
    Text.lowerCase known == Text.lowerCase name

namespace Index

theorem idOf?_foldl_enter (relations : List Table) (index : Index) (name : String) :
    (relations.foldl enter index).idOf? name = (index.idOf? name).or
      ((relations.find? (Table.answersTo name)).map Table.id) := by
  induction relations generalizing index with
  | nil => exact Option.or_none.symm
  | cons t relations ih =>
    have henter : (index.enter t).idOf? name = (index.idOf? name).or
        (if t.answersTo name then some t.id else none) := by
      simp only [idOf?, enter, NameTable.find?_enter, Option.or_assoc, Table.answersTo]
      congr 1
      by_cases hid : Text.lowerCase t.id = Text.lowerCase name
      · simp [hid]
      by_cases hjoined : Text.lowerCase (Identifier.joinId [t.schema, t.name]) =
          Text.lowerCase name
      · simp [hid, hjoined]
      · simp [hid, hjoined]
    rw [List.foldl_cons, ih, henter, Option.or_assoc, List.find?_cons]
    cases t.answersTo name <;> simp

theorem idOf?_ofRelations (relations : List Table) (name : String) :
    (ofRelations relations).idOf? name =
      (relations.find? (Table.answersTo name)).map Table.id := by
  rw [ofRelations, idOf?_foldl_enter]
  exact Option.none_or

end Index

def Table.names (t : Table) : String × String × String := (t.id, t.schema, t.name)

/-- The keys under which the ids of relations are compared. -/
def idKeys (relations : List Table) : List String := relations.map fun t => Text.lowerCase t.id

section Distinct

variable {relations : List Table} {t u : Table} (hdistinct : (idKeys relations).Nodup)

include hdistinct

theorem eq_of_nodup_idKeys (ht : t ∈ relations) (hu : u ∈ relations)
    (hid : Text.lowerCase t.id = Text.lowerCase u.id) : t = u :=
  List.inj_on_of_nodup_map hdistinct ht hu hid

theorem eq_of_answersTo
    (hids : ∀ t ∈ relations, t.id = Identifier.joinId [t.schema, t.name] ∧ '.' ∉ t.name.toList)
    (ht : t ∈ relations) (hu : u ∈ relations) (hanswers : u.answersTo t.id = true) : u = t := by
  obtain ⟨hid, -⟩ := hids t ht
  obtain ⟨huid, hname⟩ := hids u hu
  simp only [Table.answersTo, List.any_cons, List.any_nil, Bool.or_false, Bool.or_eq_true,
    beq_iff_eq] at hanswers
  rcases hanswers with hsame | hsame | hsame
  · exact eq_of_nodup_idKeys hdistinct hu ht hsame
  · rw [← huid] at hsame
    exact eq_of_nodup_idKeys hdistinct hu ht hsame
  · -- An id has a full stop and the name of a relation has none.
    have hdot : '.' ∈ t.id.toList := by
      rw [hid, Identifier.toList_joinId]
      simp
    rw [← Text.dot_mem_lowerCase, ← hsame, Text.dot_mem_lowerCase] at hdot
    exact absurd hdot hname

namespace Index

/-- An id that is made of a schema and a name stands for itself. -/
theorem idOf?_ofRelations_id
    (hids : ∀ t ∈ relations, t.id = Identifier.joinId [t.schema, t.name] ∧ '.' ∉ t.name.toList)
    (ht : t ∈ relations) : (ofRelations relations).idOf? t.id = some t.id := by
  have hself : t.answersTo t.id = true := by simp [Table.answersTo]
  have hfind := find?_eq_some_of_unique ht hself fun u hu =>
    eq_of_answersTo hdistinct hids ht hu
  rw [idOf?_ofRelations, hfind]
  rfl

theorem columnsOf?_ofRelations_id (ht : t ∈ relations) :
    (ofRelations relations).columnsOf? t.id = some t.columns := by
  have hfind : relations.find? (fun u => Text.lowerCase u.id == Text.lowerCase t.id) = some t := by
    apply find?_eq_some_of_unique ht (by simp)
    intro u hu hid
    exact eq_of_nodup_idKeys hdistinct hu ht (beq_iff_eq.mp hid)
  rw [columnsOf?_ofRelations, hfind]
  rfl

end Index

end Distinct

namespace Catalog

/-- Catalogs whose relations are known by a schema and a name, with ids that differ in any case. -/
structure IsQualified (g : Catalog) : Prop where
  ids : ∀ t ∈ g.relations, t.id = Identifier.joinId [t.schema, t.name] ∧
    Identifier.IsPart t.schema ∧ Identifier.IsPart t.name
  distinct : (idKeys g.relations).Nodup

instance (g : Catalog) : Decidable g.IsQualified :=
  decidable_of_iff
    ((∀ t ∈ g.relations, t.id = Identifier.joinId [t.schema, t.name] ∧
        Identifier.IsPart t.schema ∧ Identifier.IsPart t.name) ∧
      (idKeys g.relations).Nodup)
    ⟨fun ⟨ids, distinct⟩ => ⟨ids, distinct⟩, fun h => ⟨h.ids, h.distinct⟩⟩

namespace IsQualified

variable {g : Catalog} {t : Table}

theorem eq_of_lowerCase_id (h : g.IsQualified) {u : Table} (ht : t ∈ g.relations)
    (hu : u ∈ g.relations) (hid : Text.lowerCase t.id = Text.lowerCase u.id) : t = u :=
  eq_of_nodup_idKeys h.distinct ht hu hid

theorem idOf?_id (h : g.IsQualified) (ht : t ∈ g.relations) :
    g.index.idOf? t.id = some t.id := by
  have hids : ∀ t ∈ g.relations, t.id = Identifier.joinId [t.schema, t.name] ∧
      '.' ∉ t.name.toList := by
    intro t ht
    obtain ⟨hid, -, hname⟩ := h.ids t ht
    exact ⟨hid, hname.undotted⟩
  exact Index.idOf?_ofRelations_id h.distinct hids ht

theorem columnsOf?_id (h : g.IsQualified) (ht : t ∈ g.relations) :
    g.index.columnsOf? t.id = some t.columns :=
  Index.columnsOf?_ofRelations_id h.distinct ht

theorem idParts_id (h : g.IsQualified) (ht : t ∈ g.relations) :
    Identifier.idParts t.id = [t.schema, t.name] := by
  obtain ⟨hid, hschema, -⟩ := h.ids t ht
  rw [hid, Identifier.idParts_joinId hschema.undotted]

theorem isReadable_id (h : g.IsQualified) (ht : t ∈ g.relations) :
    Identifier.IsReadable t.id := by
  obtain ⟨hid, hschema, hname⟩ := h.ids t ht
  rw [hid]
  exact Identifier.isReadable_joinId hschema hname

theorem lastPart_id (h : g.IsQualified) (ht : t ∈ g.relations) :
    Identifier.lastPart t.id = t.name := by
  obtain ⟨hid, -, hname⟩ := h.ids t ht
  rw [hid, Identifier.lastPart_joinId t.schema hname.undotted]

theorem answersTo_eq (h : g.IsQualified) (ht : t ∈ g.relations) (name : String) :
    t.answersTo name = (Text.lowerCase t.id == Text.lowerCase name ||
      Text.lowerCase t.name == Text.lowerCase name) := by
  obtain ⟨hid, -, -⟩ := h.ids t ht
  simp only [Table.answersTo, ← hid, List.any_cons, List.any_nil, Bool.or_false, ← Bool.or_assoc,
    Bool.or_self]

theorem lowerCase_id_ne_name (h : g.IsQualified) {u : Table} (ht : t ∈ g.relations)
    (hu : u ∈ g.relations) : Text.lowerCase t.id ≠ Text.lowerCase u.name := by
  obtain ⟨hid, -, -⟩ := h.ids t ht
  obtain ⟨-, -, hname⟩ := h.ids u hu
  intro hsame
  have hdot : '.' ∈ t.id.toList := by
    rw [hid, Identifier.toList_joinId]
    simp
  rw [← Text.dot_mem_lowerCase, hsame, Text.dot_mem_lowerCase] at hdot
  exact hname.undotted hdot

theorem find?_views (h : g.IsQualified) {v : View} (hv : v ∈ g.views) :
    g.views.find? (fun w => sameId w.id v.id) = some v := by
  have hviews : (g.views.map fun w => Text.lowerCase w.id).Nodup := by
    have hdistinct := h.distinct
    rw [idKeys, relations, List.map_append] at hdistinct
    simpa [View.toTable, Function.comp_def] using (List.nodup_append.mp hdistinct).2.1
  apply find?_eq_some_of_unique hv (Text.equalIgnoringCase_refl v.id)
  intro w hw hid
  exact List.inj_on_of_nodup_map hviews hw hv (Text.lowerCase_eq_of_equalIgnoringCase hid)

/-- Whether a catalog is qualified depends on what its relations are called. -/
theorem of_names (h : g.IsQualified) {b : Catalog}
    (hnames : b.relations.map Table.names = g.relations.map Table.names) : b.IsQualified where
  ids := by
    intro t ht
    have hmem : t.names ∈ g.relations.map Table.names := hnames ▸ List.mem_map_of_mem ht
    obtain ⟨u, hu, hsame⟩ := List.mem_map.mp hmem
    obtain ⟨hid, hschema, hname⟩ : u.id = t.id ∧ u.schema = t.schema ∧ u.name = t.name := by
      simpa [Table.names] using hsame
    rw [← hid, ← hschema, ← hname]
    exact h.ids u hu
  distinct := by
    have hkeys : ∀ relations : List Table,
        idKeys relations = (relations.map Table.names).map fun names => Text.lowerCase names.1 := by
      intro relations
      simp [idKeys, Table.names, Function.comp_def]
    rw [hkeys, hnames, ← hkeys]
    exact h.distinct

end IsQualified

end Catalog

end Provenance
