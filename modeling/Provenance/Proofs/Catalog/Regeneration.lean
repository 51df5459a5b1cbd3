import Mathlib.Data.List.Forall2
import Provenance.Proofs.Catalog.Analysis
import Provenance.Proofs.Catalog.Named
import Provenance.Proofs.Definition.Types
import Provenance.Proofs.Writing.ViewRoundTrip

/-!
# Views that are written and analysed again

A view whose columns come from one table can take the definition that is written for it. Another
analysis finds the same columns, and the same definition is written for them.
-/

namespace Provenance

/-! ## Columns that are written alike -/

/-- Whether columns agree in name, type and first origin. -/
structure Column.Agrees (c d : Column) : Prop where
  name : d.name = c.name
  dataType : d.dataType = c.dataType
  isNullable : d.isNullable = c.isNullable
  firstOrigin? : d.firstOrigin? = c.firstOrigin?

theorem Column.Agrees.written {c d : Column} (h : c.Agrees d) (qualified : Bool) :
    d.written qualified = c.written qualified := by
  rw [Column.written, h.firstOrigin?, h.name, Column.written]

theorem writeView_congr {columns others : List Column}
    (h : List.Forall₂ Column.Agrees columns others) (id : String) :
    writeView id others = writeView id columns := by
  have hempty : others.isEmpty = columns.isEmpty := by
    cases h <;> rfl
  have horigins : others.filterMap Column.firstOrigin? =
      columns.filterMap Column.firstOrigin? := by
    clear hempty
    induction h with
    | nil => rfl
    | cons hc _ ih => simp only [List.filterMap_cons, hc.firstOrigin?, ih]
  have hwritten : ∀ qualified, (others.map fun c => "    " ++ c.written qualified) =
      columns.map fun c => "    " ++ c.written qualified := by
    intro qualified
    clear hempty horigins
    induction h with
    | nil => rfl
    | cons hc _ ih => simp only [List.map_cons, ih, hc.written]
  simp only [writeView, writeQuery, hempty, horigins, hwritten]

theorem not_isBlankText_writeView (id : String) (columns : List Column) :
    Text.isBlankText (writeView id columns) = false := by
  have hcreate : "CREATE VIEW ".toList = 'C' :: "REATE VIEW ".toList := by decide
  have hc : Text.isBlank 'C' = false := by decide
  simp [Text.isBlankText, writeView, String.toList_append, hcreate, hc]

/-! ## Columns from one table -/

namespace Catalog

theorem IsQualified.writeDefinition?_id {g : Catalog} (h : g.IsQualified) {v : View}
    (hv : v ∈ g.views) : g.writeDefinition? v.id = some (writeView v.id v.columns) := by
  rw [writeDefinition?, h.find?_views hv]
  rfl

/-- Whether the columns of every table have names that differ and are read as they are. -/
def HasNamedColumns (g : Catalog) : Prop :=
  ∀ t ∈ g.tables, HaveDistinctNames t.columns ∧
    ∀ c ∈ t.columns, c.name ≠ "" ∧ Text.trim c.name = c.name

instance (g : Catalog) : Decidable g.HasNamedColumns :=
  inferInstanceAs (Decidable (∀ t ∈ g.tables, _))

/-- Whether all first origins of columns, if there are any, are columns of one table in its
spelling. -/
def HasOneSource (g : Catalog) (columns : List Column) : Prop :=
  (∀ c ∈ columns, c.firstOrigin? = none) ∨
    ∃ t ∈ g.tables, ∀ c ∈ columns, ∀ o ∈ c.firstOrigin?,
      o.table = t.id ∧ o.column ∈ t.columns.map Column.name

instance (g : Catalog) (columns : List Column) : Decidable (g.HasOneSource columns) :=
  inferInstanceAs (Decidable ((∀ c ∈ columns, _) ∨ ∃ t ∈ g.tables, _))

namespace HasOneSource

variable {g : Catalog} {columns : List Column}

theorem exists_table (h : g.HasOneSource columns) {c : Column} (hc : c ∈ columns) {o : Origin}
    (ho : c.firstOrigin? = some o) :
    ∃ t ∈ g.tables, sourceTable? columns = some t.id ∧ o.table = t.id ∧
      o.column ∈ t.columns.map Column.name := by
  rcases h with hnone | ⟨t, ht, hsource⟩
  · rw [hnone c hc] at ho
    simp at ho
  · obtain ⟨htable, hcolumn⟩ := hsource c hc o ho
    refine ⟨t, ht, ?_, htable, hcolumn⟩
    unfold sourceTable?
    cases horigins : columns.filterMap Column.firstOrigin? with
    | nil =>
      rw [List.filterMap_eq_nil_iff] at horigins
      rw [horigins c hc] at ho
      simp at ho
    | cons first rest =>
      have hfirst : first ∈ columns.filterMap Column.firstOrigin? := by simp [horigins]
      obtain ⟨d, hd, hdfirst⟩ := List.mem_filterMap.mp hfirst
      simp [(hsource d hd first hdfirst).1]

theorem exists_sourceTable? (h : g.HasOneSource columns) {table : String}
    (htable : table ∈ sourceTable? columns) : ∃ t ∈ g.tables, table = t.id := by
  unfold sourceTable? at htable
  obtain ⟨o, ho, rfl⟩ := Option.map_eq_some_iff.mp htable
  obtain ⟨c, hc, hfirst⟩ := List.mem_filterMap.mp (List.mem_of_mem_head? ho)
  obtain ⟨t, ht, -, hid, -⟩ := h.exists_table hc hfirst
  exact ⟨t, ht, hid⟩

theorem head?_originsIn (h : g.HasOneSource columns) {c : Column} (hc : c ∈ columns) :
    (c.originsIn (sourceTable? columns)).head? = c.firstOrigin? := by
  unfold Column.originsIn
  cases ho : c.firstOrigin? with
  | none => cases sourceTable? columns <;> rfl
  | some o =>
    obtain ⟨t, -, htable, hid, -⟩ := h.exists_table hc ho
    rw [htable]
    simp [← hid]

theorem completes (h : g.HasOneSource columns) {b : Catalog} (hg : g.IsQualified)
    (hb : b.IsQualified) (htables : b.tables = g.tables)
    (htypes : ∀ c ∈ columns, (b.index.source c.firstOrigin?).Completes c) :
    ∀ c ∈ columns, (g.index.source c.firstOrigin?).Completes c := by
  intro c hc
  have htype := htypes c hc
  cases ho : c.firstOrigin? with
  | none =>
    rw [ho] at htype
    exact htype
  | some o =>
    obtain ⟨t, ht, -, hid, -⟩ := h.exists_table hc ho
    have hgcolumns := hg.columnsOf?_id (List.mem_append_left _ ht)
    have hbcolumns := hb.columnsOf?_id (List.mem_append_left _ (htables ▸ ht))
    have hsource : g.index.source (some o) = b.index.source (some o) := by
      simp [Index.source, Index.columnOf?, hid, hgcolumns, hbcolumns]
    rwa [hsource, ← ho]

theorem keptByView (h : g.HasOneSource columns) (hg : g.IsQualified) (hcolumns : g.HasNamedColumns)
    (hne : columns ≠ []) (hnamed : ∀ c ∈ columns, c.name ≠ "" ∧ Text.trim c.name = c.name)
    (hdistinct : (nameKeys columns).Nodup) : KeptByView g.index columns where
  nonempty := hne
  named := hnamed
  distinct := hdistinct
  sourced := by
    intro table htable
    obtain ⟨t, ht, rfl⟩ := h.exists_sourceTable? htable
    have hrelation : t ∈ g.relations := List.mem_append_left _ ht
    exact ⟨hg.isReadable_id hrelation, .inr (hg.idOf?_id hrelation)⟩
  spelled := by
    intro c hc o ho table htable
    obtain ⟨t, ht, hsource, hid, hcolumn⟩ := h.exists_table hc ho
    obtain rfl : t.id = table := Option.some.inj (hsource.symm.trans htable)
    obtain ⟨known, hknown, hname⟩ := List.mem_map.mp hcolumn
    obtain ⟨hnames, htrimmed⟩ := hcolumns t ht
    have hfind : g.index.columnOf? t.id known.name = some known :=
      Index.columnOf?_eq_some_iff.mpr ⟨t.columns, hg.columnsOf?_id (List.mem_append_left _ ht),
        find?_of_haveDistinctNames hnames hknown⟩
    refine ⟨hid ▸ Text.equalIgnoringCase_refl _, ?_, .inr (.inr ?_)⟩
    · rw [← hname]
      exact (htrimmed known hknown).2
    · rw [← hname, hfind]
      rfl

end HasOneSource

/-! ## The second analysis -/

theorem names_analyze (defaultSchema : Option String) (g : Catalog) :
    (g.analyze defaultSchema).relations.map Table.names = g.relations.map Table.names := by
  simp [relations, analyze, Table.names, View.toTable, Function.comp_def]

theorem names_defineView (id definition : String) (g : Catalog) :
    (g.defineView id definition).relations.map Table.names = g.relations.map Table.names := by
  have hview : ∀ v : View, (if sameId v.id id then { v with definition } else v).toTable.names =
      v.toTable.names := by
    intro v
    split <;> rfl
  simp only [relations, defineView, List.map_append, List.map_map, Function.comp_def, hview]

end Catalog

theorem Scope.completes_readBack {scope : Scope} {table : Option String} {c : Column}
    (h : (scope.index.source (c.originsIn table).head?).Completes c) :
    (scope.readBack table c).Completes c := by
  unfold Column.Completes Column.lacksType at h ⊢
  rw [readBack, typed_named]
  simpa [Column.withTypeOf] using h

namespace KeptByView

variable {index : Index} {columns : List Column}

/-- The definition that is written for columns gives them again, with their own types where their
sources have none. -/
theorem agrees_readView (h : KeptByView index columns) {defaultSchema : Option String}
    (hdefault : ∀ table ∈ sourceTable? columns,
      defaultSchema = none ∨ (Identifier.idParts table).length = 2)
    (hsources : ∀ c ∈ columns, (c.originsIn (sourceTable? columns)).head? = c.firstOrigin?)
    (htypes : ∀ c ∈ columns, (index.source c.firstOrigin?).Completes c) (id : String) :
    List.Forall₂ Column.Agrees columns
      (readView index defaultSchema (some columns) (writeView id columns)).columns := by
  let usage := Usage.ofTokens index defaultSchema (viewTokens id columns)
  let readBack := Scope.readBack ⟨usage, index⟩ (sourceTable? columns)
  have hresolved : namedColumns index defaultSchema (viewTokens id columns) =
      columns.map readBack := by
    unfold namedColumns
    rw [declaredColumns?_viewTokens, Option.getD_none, rename_nil]
    exact h.outputColumns_of_reads (h.reads_of_default hdefault id) id
  have hfilled : ∀ c ∈ columns, fillType columns (readBack c) = (readBack c).withTypeOf c := by
    intro c hc
    apply fillType_of_completes h.distinct hc (Scope.readBack_name _ _ c)
    apply Scope.completes_readBack
    rw [hsources c hc]
    exact htypes c hc
  have hread := columns_readView index defaultSchema columns (writeView id columns)
  have hknown : (if columns.isEmpty then none else some columns) = some columns := by
    simp [h.nonempty]
  have hcolumns : columns.map (fillType columns ∘ readBack) =
      columns.map fun c => (readBack c).withTypeOf c := List.map_congr_left hfilled
  rw [hknown, sqlTokens_writeView id h.nonempty, hresolved,
    fillTypes_of_ne_nil (by simpa using h.nonempty), List.map_map, hcolumns] at hread
  have hnodup : (nameKeys (columns.map fun c => (readBack c).withTypeOf c)).Nodup := by
    have hkeys : nameKeys (columns.map fun c => (readBack c).withTypeOf c) = nameKeys columns := by
      simp [nameKeys, readBack, Scope.readBack_name]
    rw [hkeys]
    exact h.distinct
  rw [hread, uniqueNames_of_nodup hnodup, List.forall₂_map_right_iff]
  apply List.forall₂_same.mpr
  intro c hc
  refine ⟨Scope.readBack_name _ _ c, rfl, rfl, ?_⟩
  rw [Column.firstOrigin?_withTypeOf, ← hsources c hc]
  exact Column.firstOrigin?_withOrigins _ _

end KeptByView

namespace View

variable (index : Index) (defaultSchema : Option String) (v : View)

@[simp] theorem analyze_definition :
    (v.analyze index defaultSchema).definition = v.definition := by
  unfold analyze
  split <;> rfl

theorem columns_analyze (h : Text.isBlankText v.definition = false) :
    (v.analyze index defaultSchema).columns =
      (readView index defaultSchema (if v.columns.isEmpty then none else some v.columns)
        v.definition).columns := by
  simp [analyze, h]

end View

namespace Catalog

variable {g : Catalog} {defaultSchema : Option String} {v : View}

/-- Views whose definitions give columns, with names that are read as they are and from one table
if from any. -/
structure IsRewritable (g : Catalog) (defaultSchema : Option String) (v : View) : Prop where
  defined : Text.isBlankText v.definition = false
  resolved : Scope.outputColumns
    ⟨Usage.ofTokens g.index defaultSchema (sqlTokens v.definition), g.index⟩
    (outputItems (sqlTokens v.definition)) ≠ []
  named : ∀ c ∈ v.columns, c.name ≠ "" ∧ Text.trim c.name = c.name
  sourced : g.HasOneSource v.columns

instance (g : Catalog) (defaultSchema : Option String) (v : View) :
    Decidable (g.IsRewritable defaultSchema v) :=
  decidable_of_iff
    (Text.isBlankText v.definition = false ∧
      Scope.outputColumns ⟨Usage.ofTokens g.index defaultSchema (sqlTokens v.definition), g.index⟩
        (outputItems (sqlTokens v.definition)) ≠ [] ∧
      (∀ c ∈ v.columns, c.name ≠ "" ∧ Text.trim c.name = c.name) ∧ g.HasOneSource v.columns)
    ⟨fun ⟨defined, resolved, named, sourced⟩ => ⟨defined, resolved, named, sourced⟩,
      fun h => ⟨h.defined, h.resolved, h.named, h.sourced⟩⟩

theorem completes_of_mem_columns (hg : g.IsQualified) (hcolumns : g.HasNamedColumns)
    (hv : v ∈ (g.analyze defaultSchema).views) (h : g.IsRewritable defaultSchema v) :
    v.columns ≠ [] ∧ (nameKeys v.columns).Nodup ∧
      ∀ c ∈ v.columns, (g.index.source c.firstOrigin?).Completes c := by
  obtain ⟨u, -, rfl⟩ := List.mem_map.mp hv
  have hdefined := h.defined
  have hresolved := h.resolved
  have hsourced := h.sourced
  rw [View.analyze_definition] at hdefined hresolved
  have hread := u.columns_analyze g.index defaultSchema hdefined
  rw [hread] at hsourced ⊢
  refine ⟨columns_readView_ne_nil hresolved _, nodup_nameKeys_uniqueNames _, ?_⟩
  intro c hc
  apply types_readView hresolved _ c hc
  intro o ho columns hknown
  obtain ⟨t, ht, -, hid, -⟩ := hsourced.exists_table hc ho
  have hown := hg.columnsOf?_id (List.mem_append_left _ ht)
  rw [hid, hown] at hknown
  obtain rfl := Option.some.inj hknown
  exact (hcolumns t ht).1

/-- The definition that is written for the columns of a view gives it these columns again. -/
theorem agrees_analyze (hg : g.IsQualified) (hkept : KeptByView g.index v.columns)
    (hsourced : g.HasOneSource v.columns)
    (htypes : ∀ c ∈ v.columns, (g.index.source c.firstOrigin?).Completes c) :
    List.Forall₂ Column.Agrees v.columns
      (View.analyze g.index defaultSchema
        { v with definition := writeView v.id v.columns }).columns := by
  have hdefault : ∀ table ∈ sourceTable? v.columns,
      defaultSchema = none ∨ (Identifier.idParts table).length = 2 := by
    intro table htable
    obtain ⟨t, ht, rfl⟩ := hsourced.exists_sourceTable? htable
    right
    rw [hg.idParts_id (List.mem_append_left _ ht)]
    rfl
  have hread := View.columns_analyze g.index defaultSchema
    { v with definition := writeView v.id v.columns } (not_isBlankText_writeView v.id v.columns)
  have hknown : (if v.columns.isEmpty then none else some v.columns) = some v.columns := by
    simp [hkept.nonempty]
  rw [hread, hknown]
  exact hkept.agrees_readView hdefault (fun c hc => hsourced.head?_originsIn hc) htypes v.id

/-- The definition that is written for a view of an analysed catalog gives it the same columns in
another analysis, for which the same definition is written. -/
theorem analyze_defineView_written (hg : g.IsQualified) (hcolumns : g.HasNamedColumns)
    (hv : v ∈ (g.analyze defaultSchema).views) (h : g.IsRewritable defaultSchema v) :
    ∃ definition, (g.analyze defaultSchema).writeDefinition? v.id = some definition ∧
      ∃ w ∈ (((g.analyze defaultSchema).defineView v.id definition).analyze defaultSchema).views,
        w.id = v.id ∧ List.Forall₂ Column.Agrees v.columns w.columns ∧
          (((g.analyze defaultSchema).defineView v.id definition).analyze
            defaultSchema).writeDefinition? v.id = some definition := by
  let a := g.analyze defaultSchema
  let definition := writeView v.id v.columns
  let b := a.defineView v.id definition
  have ha : a.IsQualified := hg.of_names (names_analyze defaultSchema g)
  have hb : b.IsQualified := ha.of_names (names_defineView v.id definition a)
  have hanalysed : (b.analyze defaultSchema).IsQualified :=
    hb.of_names (names_analyze defaultSchema b)
  obtain ⟨hne, hdistinct, htypes⟩ := completes_of_mem_columns hg hcolumns hv h
  have hsourced : b.HasOneSource v.columns := h.sourced
  have hkept : KeptByView b.index v.columns :=
    hsourced.keptByView hb hcolumns hne h.named hdistinct
  let w := ({ v with definition } : View).analyze b.index defaultSchema
  have hw : w ∈ (b.analyze defaultSchema).views := by
    apply List.mem_map_of_mem
    exact List.mem_map.mpr ⟨v, hv, if_pos (Text.equalIgnoringCase_refl v.id)⟩
  have hid : w.id = v.id := View.analyze_id ..
  have hagrees : List.Forall₂ Column.Agrees v.columns w.columns :=
    agrees_analyze hb hkept hsourced (hsourced.completes hb hg rfl htypes)
  have hwritten := hanalysed.writeDefinition?_id hw
  rw [hid, writeView_congr hagrees] at hwritten
  exact ⟨definition, ha.writeDefinition?_id hv, w, hw, hid, hagrees, hwritten⟩

/-- A renamed column, a column whose type is known from before, an expression and a numbered
name. -/
theorem analyze_defineView_written_numbered :
    let orders : Table := ⟨"dbo.Orders", "Orders", "dbo",
      [{ Column.named "Id" with dataType := "int", isNullable := false }, .named "Note"]⟩
    let sums : View := ⟨"dbo.Sums", "Sums", "dbo",
      [{ Column.named "n" with dataType := "text" }, { Column.named "Sum" with dataType := "int" }],
      "SELECT Id, Note AS n, 1 AS Sum, id FROM Orders", []⟩
    let g : Catalog := { Catalog.empty with tables := [orders], views := [sums] }
    let a := g.analyze (some "dbo")
    let v := sums.analyze g.index (some "dbo")
    let definition := "CREATE VIEW dbo.Sums AS\nSELECT\n" ++
      "    Id,\n    Note AS n,\n    NULL AS Sum,\n    Id AS Id_2\nFROM dbo.Orders"
    g.IsQualified ∧ g.HasNamedColumns ∧ v ∈ a.views ∧ g.IsRewritable (some "dbo") v ∧
      v.columns.map (fun c => (c.name, c.dataType)) =
        [("Id", "int"), ("n", "text"), ("Sum", "int"), ("Id_2", "int")] ∧
      a.writeDefinition? v.id = some definition ∧
      ∃ w ∈ ((a.defineView v.id definition).analyze (some "dbo")).views,
        w.id = v.id ∧ List.Forall₂ Column.Agrees v.columns w.columns ∧
          ((a.defineView v.id definition).analyze (some "dbo")).writeDefinition? v.id =
            some definition := by
  intro orders sums g a v definition
  have hg : g.IsQualified := by decide +kernel
  have hcolumns : g.HasNamedColumns := by decide +kernel
  have hv : v ∈ a.views := List.mem_map_of_mem (List.mem_singleton_self sums)
  have h : g.IsRewritable (some "dbo") v := by decide +kernel
  have htypes : v.columns.map (fun c => (c.name, c.dataType)) =
      [("Id", "int"), ("n", "text"), ("Sum", "int"), ("Id_2", "int")] := by decide +kernel
  have hwritten : a.writeDefinition? v.id = some definition := by decide +kernel
  obtain ⟨found, hfound, hread⟩ := analyze_defineView_written hg hcolumns hv h
  obtain rfl : definition = found := Option.some.inj (hwritten.symm.trans hfound)
  exact ⟨hg, hcolumns, hv, h, htypes, hwritten, hread⟩

end Catalog

end Provenance
