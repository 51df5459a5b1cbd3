import Provenance.Proofs.Catalog.Named
import Provenance.Proofs.Writing.ViewRoundTrip

/-!
# Resolved names

A name stands for the first relation that answers to it. Whatever the parts of a name stand for is
found again under its id as that is written, and parts in front of a schema and a name make no
difference.
-/

namespace Provenance

/-! ## The first relation -/

/-- A name stands for the first relation that answers to it, whose columns are those under its id.
Where every id is made of a schema and a name without full stops it stands for itself, however many
relations have the name. -/
theorem Catalog.idOf?_eq_find? (g : Catalog) (hdistinct : (idKeys g.relations).Nodup) :
    (∀ name, g.index.idOf? name = (g.relations.find? (Table.answersTo name)).map Table.id ∧
      (g.index.idOf? name = none ↔ ∀ t ∈ g.relations, t.answersTo name = false) ∧
      ∀ t ∈ g.relations.find? (Table.answersTo name),
        g.index.columnsOf? t.id = some t.columns) ∧
    ((∀ t ∈ g.relations,
        t.id = Identifier.joinId [t.schema, t.name] ∧ '.' ∉ t.name.toList) →
      ∀ t ∈ g.relations, g.index.idOf? t.id = some t.id) := by
  constructor
  · intro name
    have hfirst : g.index.idOf? name =
        (g.relations.find? (Table.answersTo name)).map Table.id :=
      Index.idOf?_ofRelations g.relations name
    refine ⟨hfirst, ?_, ?_⟩
    · rw [hfirst, Option.map_eq_none_iff, List.find?_eq_none]
      simp
    · intro t ht
      exact Index.columnsOf?_ofRelations_id hdistinct (List.mem_of_find?_eq_some ht)
  · intro hids t ht
    exact Index.idOf?_ofRelations_id hdistinct hids ht

/-- Two tables and a view that share a short name. -/
theorem Catalog.idOf?_eq_find?_orders :
    let orders : Table := ⟨"dbo.orders", "orders", "dbo", [.named "id"]⟩
    let sold : Table := ⟨"sales.Orders", "Orders", "sales", [.named "total"]⟩
    let report : View := ⟨"rpt.ORDERS", "ORDERS", "rpt", [], "", []⟩
    let g : Catalog := { Catalog.empty with tables := [orders, sold], views := [report] }
    (idKeys g.relations).Nodup ∧
      (∀ t ∈ g.relations, t.id = Identifier.joinId [t.schema, t.name] ∧ '.' ∉ t.name.toList) ∧
      g.index.idOf? "Orders" = some "dbo.orders" ∧
      g.index.columnsOf? "dbo.orders" = some [.named "id"] ∧
      g.index.idOf? "rpt.ORDERS" = some "rpt.ORDERS" := by
  intro orders sold report g
  have hdistinct : (idKeys g.relations).Nodup := by decide +kernel
  have hids : ∀ t ∈ g.relations,
      t.id = Identifier.joinId [t.schema, t.name] ∧ '.' ∉ t.name.toList := by decide +kernel
  have hfind : g.relations.find? (Table.answersTo "Orders") = some orders := by decide +kernel
  obtain ⟨hnames, hself⟩ := g.idOf?_eq_find? hdistinct
  obtain ⟨hfirst, -, hcolumns⟩ := hnames "Orders"
  rw [hfind] at hfirst
  exact ⟨hdistinct, hids, hfirst, hcolumns orders hfind, hself hids report.toTable (by simp [g,
    Catalog.relations])⟩

/-! ## Names that are resolved again -/

namespace Index

variable (index : Index) {defaultSchema : Option String} {id : String}

theorem tableId_append {parts : List String}
    (h : 2 ≤ (parts.filter fun part => !(Identifier.bare part).isEmpty).length)
    (front : List String) :
    index.tableId defaultSchema (front ++ parts) = index.tableId defaultSchema parts := by
  have hnames : 2 ≤ ((parts.map Identifier.bare).filter fun name => !name.isEmpty).length := by
    rw [List.filter_map, List.length_map]
    exact h
  rw [tableId, tableId, List.map_append, List.filter_append, Identifier.lastTwo_append _ hnames]

theorem tableId_filter (defaultSchema : Option String) (parts : List String) :
    index.tableId (defaultSchema.filter fun schema => !Text.isBlankText schema) parts =
      index.tableId defaultSchema parts := by
  simp only [tableId, Option.filter_filter, Bool.and_self]

/-- Whether an id is found again as it is written. -/
def FindsWritten (defaultSchema : Option String) (id : String) : Prop :=
  index.tableIdOfText defaultSchema (Identifier.writtenId id) = id

theorem findsWritten_of_self (hreadable : Identifier.IsReadable id)
    (hdefault : (defaultSchema.filter fun schema => !Text.isBlankText schema) = none ∨
      (Identifier.idParts id).length = 2)
    (hself : (index.idOf? id).getD id = id) : index.FindsWritten defaultSchema id := by
  rw [FindsWritten, tableIdOfText, Identifier.lex_writtenId, Identifier.words_idTokens,
    ← tableId_filter, tableId_written index hreadable hdefault, hself]

theorem findsWritten_joinId {schema name : String} (hschema : Identifier.IsPart schema)
    (hname : Identifier.IsPart name)
    (h : index.idOf? (Identifier.joinId [schema, name]) = none) :
    index.FindsWritten defaultSchema (Identifier.joinId [schema, name]) := by
  apply index.findsWritten_of_self (Identifier.isReadable_joinId hschema hname)
  · rw [Identifier.idParts_joinId hschema.undotted name]
    exact .inr rfl
  · rw [h, Option.getD_none]

theorem findsWritten_name {name : String} (hname : Identifier.IsPart name)
    (hdefault : (defaultSchema.filter fun schema => !Text.isBlankText schema) = none)
    (h : index.idOf? name = none) : index.FindsWritten defaultSchema name := by
  apply index.findsWritten_of_self
  · intro part hpart
    rw [Identifier.idParts_of_undotted hname.undotted] at hpart
    obtain rfl := List.mem_singleton.mp hpart
    exact ⟨hname.nonempty, hname.trimmed⟩
  · exact .inl hdefault
  · rw [h, Option.getD_none]

end Index

/-- Default schemas that count for nothing or are a part of an id. -/
def IsSchemaPart (schema : String) : Prop :=
  Text.isBlankText schema = true ∨
    Identifier.bare schema ≠ "" ∧ '.' ∉ (Identifier.bare schema).toList

instance (schema : String) : Decidable (IsSchemaPart schema) :=
  inferInstanceAs (Decidable (_ ∨ _))

namespace Catalog.IsQualified

variable {g : Catalog} {defaultSchema : Option String} {parts : List String}

/-- The id of a relation is found again, and another one if it is so when nothing is found. -/
theorem findsWritten_getD (hg : g.IsQualified) {found : Option String} {id : String}
    (hfound : ∀ other ∈ found, ∃ name, g.index.idOf? name = some other)
    (hnone : found = none → g.index.FindsWritten defaultSchema id) :
    g.index.FindsWritten defaultSchema (found.getD id) := by
  cases found with
  | none => exact hnone rfl
  | some other =>
    obtain ⟨name, hname⟩ := hfound other rfl
    rw [index, Index.idOf?_ofRelations] at hname
    obtain ⟨t, hfind, rfl⟩ := Option.map_eq_some_iff.mp hname
    have ht := List.mem_of_find?_eq_some hfind
    apply g.index.findsWritten_of_self (hg.isReadable_id ht)
    · rw [hg.idParts_id ht]
      exact .inr rfl
    · rw [hg.idOf?_id ht, Option.getD_some]

theorem findsWritten_tableId (hg : g.IsQualified)
    (hdefault : ∀ schema ∈ defaultSchema, IsSchemaPart schema)
    (hparts : ∀ part ∈ parts, '.' ∉ (Identifier.bare part).toList)
    (hid : g.index.tableId defaultSchema parts ≠ "") :
    g.index.FindsWritten defaultSchema (g.index.tableId defaultSchema parts) := by
  have hnames : ∀ name ∈ Identifier.lastTwo
      ((parts.map Identifier.bare).filter fun name => !name.isEmpty), Identifier.IsPart name := by
    intro name hname
    obtain ⟨hmem, hnonempty⟩ := List.mem_filter.mp (List.mem_of_mem_drop hname)
    obtain ⟨part, hpart, rfl⟩ := List.mem_map.mp hmem
    exact ⟨by simpa using hnonempty, Identifier.trim_bare part, hparts part hpart⟩
  have htwo := Identifier.length_lastTwo_le
    ((parts.map Identifier.bare).filter fun name => !name.isEmpty)
  unfold Index.tableId at hid ⊢
  simp only at hid ⊢
  generalize Identifier.lastTwo
    ((parts.map Identifier.bare).filter fun name => !name.isEmpty) = names at hnames htwo hid ⊢
  match names with
  | [] => exact absurd rfl hid
  | [name] =>
    have hname : Identifier.IsPart name := hnames name (by simp)
    simp only
    split
    · rename_i schema hschema
      -- The default schema is tried before the name by itself.
      obtain ⟨hmem, hblank⟩ := Option.filter_eq_some_iff.mp hschema
      obtain ⟨hnonempty, hundotted⟩ := (hdefault schema hmem).resolve_left (by simpa using hblank)
      apply hg.findsWritten_getD
      · intro other hother
        rcases Option.or_eq_some_iff.mp hother with hqualified | ⟨-, hshort⟩
        · exact ⟨_, hqualified⟩
        · exact ⟨_, hshort⟩
      · intro hnone
        exact g.index.findsWritten_joinId ⟨hnonempty, Identifier.trim_bare schema, hundotted⟩ hname
          (Option.or_eq_none_iff.mp hnone).1
    · rename_i hschema
      exact hg.findsWritten_getD (fun other hother => ⟨name, hother⟩)
        (g.index.findsWritten_name hname hschema)
  | [schema, name] =>
    exact hg.findsWritten_getD (fun other hother => ⟨_, hother⟩)
      (g.index.findsWritten_joinId (hnames schema (by simp)) (hnames name (by simp)))
  | _ :: _ :: _ :: _ => simp at htwo

/-- The id of a name is found again as it is written, and stays the same whatever stands in front of
a name with a schema. -/
theorem tableIdOfText_tableId (hg : g.IsQualified)
    (hdefault : ∀ schema ∈ defaultSchema, IsSchemaPart schema)
    (hparts : ∀ part ∈ parts, '.' ∉ (Identifier.bare part).toList) :
    let id := g.index.tableId defaultSchema parts
    (id ≠ "" → g.index.tableIdOfText defaultSchema (Identifier.writtenId id) = id) ∧
      (2 ≤ (parts.filter fun part => !(Identifier.bare part).isEmpty).length →
        ∀ front, g.index.tableId defaultSchema (front ++ parts) = id) :=
  ⟨hg.findsWritten_tableId hdefault hparts, g.index.tableId_append⟩

/-- A reserved word in the default schema and a name with a blank that the catalog spells
otherwise. -/
theorem tableIdOfText_tableId_reserved :
    let lines : Table := ⟨"sales.Order Lines", "Order Lines", "sales", []⟩
    let g : Catalog := { Catalog.empty with tables := [lines] }
    g.IsQualified ∧ (∀ schema ∈ some "[hr]", IsSchemaPart schema) ∧
      (g.index.tableId (some "[hr]") ["[from]"] = "hr.from" ∧
        g.index.tableIdOfText (some "[hr]") (Identifier.writtenId "hr.from") = "hr.from") ∧
      g.index.tableId (some "[hr]") ["SALES", "\"order lines\""] = "sales.Order Lines" ∧
      g.index.tableId (some "[hr]") ["shop", "[]", "SALES", "\"order lines\""] =
        "sales.Order Lines" := by
  intro lines g
  have hg : g.IsQualified := by decide +kernel
  have hdefault : ∀ schema ∈ some "[hr]", IsSchemaPart schema := by decide +kernel
  have hmissed : g.index.tableId (some "[hr]") ["[from]"] = "hr.from" := by decide +kernel
  have hfound : g.index.tableId (some "[hr]") ["SALES", "\"order lines\""] =
      "sales.Order Lines" := by decide +kernel
  have hreserved : ∀ part ∈ ["[from]"], '.' ∉ (Identifier.bare part).toList := by
    decide +kernel
  have hblank : ∀ part ∈ ["SALES", "\"order lines\""],
      '.' ∉ (Identifier.bare part).toList := by
    decide +kernel
  obtain ⟨hwritten, -⟩ := hg.tableIdOfText_tableId hdefault hreserved
  obtain ⟨-, hfront⟩ := hg.tableIdOfText_tableId hdefault hblank
  rw [hmissed] at hwritten
  exact ⟨hg, hdefault, ⟨hmissed, hwritten (by decide)⟩, hfound,
    (hfront (by decide +kernel) ["shop", "[]"]).trans hfound⟩

end Catalog.IsQualified

end Provenance
