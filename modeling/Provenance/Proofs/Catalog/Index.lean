import Provenance.Catalog.Index
import Provenance.Proofs.Text.Case

/-!
# Columns that an index knows

An id has the columns of the first relation with that id in any case. Where the columns of a
relation differ in name, every column is found under its own name.
-/

namespace Provenance

/-- Whether no two columns differ only in the ASCII case of their names. -/
def HaveDistinctNames (columns : List Column) : Prop :=
  columns.Pairwise fun a b => Text.equalIgnoringCase a.name b.name = false

instance (columns : List Column) : Decidable (HaveDistinctNames columns) :=
  inferInstanceAs (Decidable (columns.Pairwise _))

theorem find?_of_haveDistinctNames {columns : List Column} (h : HaveDistinctNames columns)
    {c : Column} (hc : c ∈ columns) :
    columns.find? (fun d => Text.equalIgnoringCase d.name c.name) = some c := by
  induction columns with
  | nil => simp at hc
  | cons d columns ih =>
    obtain ⟨hd, htail⟩ := List.pairwise_cons.mp h
    rcases List.mem_cons.mp hc with rfl | hc
    · rw [List.find?_cons, Text.equalIgnoringCase_refl]
    · rw [List.find?_cons_of_neg (by simp [hd c hc])]
      exact ih htail hc

namespace Index

def Has (index : Index) (id : String) (c : Column) : Prop :=
  ∃ columns, index.columnsOf? id = some columns ∧ c ∈ columns

/-- Whether the columns of every id differ in name. -/
def HasDistinctNames (index : Index) : Prop :=
  ∀ id columns, index.columnsOf? id = some columns → HaveDistinctNames columns

theorem columnsOf?_foldl_enter (relations : List Table) (index : Index) (id : String) :
    (relations.foldl enter index).columnsOf? id = (index.columnsOf? id).or
      ((relations.find? fun t => Text.lowerCase t.id == Text.lowerCase id).map Table.columns) := by
  induction relations generalizing index with
  | nil => exact Option.or_none.symm
  | cons t relations ih =>
    have henter : (index.enter t).columnsOf? id = (index.columnsOf? id).or
        (if Text.lowerCase t.id = Text.lowerCase id then some t.columns else none) :=
      NameTable.find?_enter ..
    rw [List.foldl_cons, ih, henter, Option.or_assoc]
    congr 1
    by_cases hid : Text.lowerCase t.id = Text.lowerCase id <;> simp [hid]

theorem columnsOf?_ofRelations (relations : List Table) (id : String) :
    (ofRelations relations).columnsOf? id =
      (relations.find? fun t => Text.lowerCase t.id == Text.lowerCase id).map Table.columns := by
  rw [ofRelations, columnsOf?_foldl_enter]
  exact Option.none_or

theorem hasDistinctNames_ofRelations {relations : List Table}
    (h : ∀ t ∈ relations, HaveDistinctNames t.columns) :
    (ofRelations relations).HasDistinctNames := by
  intro id columns hcolumns
  rw [columnsOf?_ofRelations] at hcolumns
  obtain ⟨t, ht, rfl⟩ := Option.map_eq_some_iff.mp hcolumns
  exact h t (List.mem_of_find?_eq_some ht)

variable {index : Index} {id column : String} {c : Column}

theorem columnOf?_eq_some_iff : index.columnOf? id column = some c ↔
    ∃ columns, index.columnsOf? id = some columns ∧
      columns.find? (fun d => Text.equalIgnoringCase d.name column) = some c := by
  unfold columnOf?
  exact Option.bind_eq_some_iff

theorem columnOf?_congr (index : Index) (id : String) {a b : String}
    (h : Text.equalIgnoringCase a b = true) : index.columnOf? id a = index.columnOf? id b := by
  have hnames : ∀ c : Column,
      Text.equalIgnoringCase c.name a = Text.equalIgnoringCase c.name b := by
    intro c
    rw [Bool.eq_iff_iff]
    constructor
    · exact fun hc => Text.equalIgnoringCase_trans hc h
    · exact fun hc => Text.equalIgnoringCase_trans hc (Text.equalIgnoringCase_symm h)
  simp only [columnOf?, hnames]

theorem equalIgnoringCase_of_columnOf? (h : index.columnOf? id column = some c) :
    Text.equalIgnoringCase c.name column = true := by
  obtain ⟨columns, -, hfind⟩ := columnOf?_eq_some_iff.mp h
  have hname := List.find?_some hfind
  exact hname

theorem columnOf?_name (h : index.columnOf? id column = some c) :
    index.columnOf? id c.name = some c := by
  rw [← h]
  exact columnOf?_congr index id (equalIgnoringCase_of_columnOf? h)

theorem columnOf?_of_has (hdistinct : index.HasDistinctNames) (h : index.Has id c) :
    index.columnOf? id c.name = some c := by
  obtain ⟨columns, hcolumns, hc⟩ := h
  exact columnOf?_eq_some_iff.mpr
    ⟨columns, hcolumns, find?_of_haveDistinctNames (hdistinct id columns hcolumns) hc⟩

end Index

end Provenance
