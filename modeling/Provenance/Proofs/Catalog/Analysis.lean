import Provenance.Catalog.Analysis
import Provenance.Proofs.Catalog.Index
import Provenance.Proofs.Definition.View
import Provenance.Proofs.Query.Reaches

/-!
# Analysing a catalog twice

Analysing a catalog changes the columns of its views, and with them what the catalog knows. Where
no view reads from a view, a second analysis finds what the first one found.
-/

namespace Provenance

/-! ## The index of an analysed catalog -/

namespace View

variable (index : Index) (defaultSchema : Option String) (v : View)

@[simp] theorem analyze_id : (v.analyze index defaultSchema).id = v.id := by
  unfold analyze
  split <;> rfl

@[simp] theorem analyze_name : (v.analyze index defaultSchema).name = v.name := by
  unfold analyze
  split <;> rfl

@[simp] theorem analyze_schema : (v.analyze index defaultSchema).schema = v.schema := by
  unfold analyze
  split <;> rfl

end View

namespace Catalog

variable {defaultSchema : Option String} {g : Catalog}

theorem ids_foldl_enter_analyze (index : Index) (views : List View) {i j : Index}
    (h : i.ids = j.ids) :
    (((views.map (View.analyze index defaultSchema)).map View.toTable).foldl Index.enter i).ids =
      ((views.map View.toTable).foldl Index.enter j).ids := by
  induction views generalizing i j with
  | nil => exact h
  | cons v views ih =>
    apply ih
    simp [Index.enter, View.toTable, h]

theorem ids_index_analyze (defaultSchema : Option String) (g : Catalog) :
    (g.analyze defaultSchema).index.ids = g.index.ids := by
  simp only [index, Index.ofRelations, relations, List.foldl_append]
  exact ids_foldl_enter_analyze g.index g.views rfl

theorem find?_toTable_of_ne (views : List View) {id : String}
    (h : ∀ w ∈ views, Text.lowerCase id ≠ Text.lowerCase w.id) :
    (views.map View.toTable).find? (fun t => Text.lowerCase t.id == Text.lowerCase id) = none := by
  rw [List.find?_eq_none]
  intro t ht
  obtain ⟨w, hw, rfl⟩ := List.mem_map.mp ht
  simpa [View.toTable] using Ne.symm (h w hw)

theorem columnsOf?_index_analyze {id : String}
    (h : ∀ w ∈ g.views, Text.lowerCase id ≠ Text.lowerCase w.id) :
    (g.analyze defaultSchema).index.columnsOf? id = g.index.columnsOf? id := by
  have hanalysed : ∀ w ∈ g.views.map (View.analyze g.index defaultSchema),
      Text.lowerCase id ≠ Text.lowerCase w.id := by
    intro w hw
    obtain ⟨v, hv, rfl⟩ := List.mem_map.mp hw
    rw [View.analyze_id]
    exact h v hv
  simp only [index, Index.columnsOf?_ofRelations, relations, List.find?_append]
  rw [find?_toTable_of_ne _ h]
  simp only [analyze]
  rw [find?_toTable_of_ne _ hanalysed]

/-! ## The second reading of a definition -/

/-- Whether no table that a statement refers to is a view of the catalog. -/
def RefersToNoView (g : Catalog) (defaultSchema : Option String) (ms : List Mention) : Prop :=
  ∀ u ∈ tableUses ms, u.namesOneOf (commonNames ms) = false → ∀ w ∈ g.views,
    Text.lowerCase (Usage.referenceId g.index defaultSchema ms u) ≠ Text.lowerCase w.id

instance (g : Catalog) (defaultSchema : Option String) (ms : List Mention) :
    Decidable (g.RefersToNoView defaultSchema ms) :=
  inferInstanceAs (Decidable (∀ u ∈ tableUses ms, _ → ∀ w ∈ g.views, _))

theorem usage_index_analyze (defaultSchema : Option String) (g : Catalog) (ts : List Token) :
    Usage.ofTokens (g.analyze defaultSchema).index defaultSchema ts =
      Usage.ofTokens g.index defaultSchema ts :=
  Usage.ofTokens_congr (ids_index_analyze defaultSchema g) defaultSchema ts

/-- A statement that refers to no view gives the same columns in the analysed catalog. -/
theorem namedColumns_index_analyze {ts : List Token}
    (h : g.RefersToNoView defaultSchema (mentions 0 ts)) :
    namedColumns (g.analyze defaultSchema).index defaultSchema ts =
      namedColumns g.index defaultSchema ts := by
  have hcolumns : ∀ id, (Usage.ofTokens g.index defaultSchema ts).Reaches id →
      (g.analyze defaultSchema).index.columnsOf? id = g.index.columnsOf? id := by
    intro id hid
    obtain ⟨u, hu, hcommon, rfl⟩ := Usage.isReferred_of_reaches hid
    exact columnsOf?_index_analyze (h u hu hcommon)
  unfold namedColumns
  rw [usage_index_analyze, Scope.outputColumns_congr hcolumns]

theorem routineUsage_index_analyze (defaultSchema : Option String) (g : Catalog) (sql : String) :
    routineUsage (g.analyze defaultSchema).index defaultSchema sql =
      routineUsage g.index defaultSchema sql := by
  simp only [routineUsage, usage_index_analyze]

theorem analyze_view {v : View}
    (h : Text.isBlankText v.definition = false →
      g.RefersToNoView defaultSchema (mentions 0 (sqlTokens v.definition)) ∧
        NamesAllColumns g.index defaultSchema (sqlTokens v.definition)) :
    (v.analyze g.index defaultSchema).analyze (g.analyze defaultSchema).index defaultSchema =
      v.analyze g.index defaultSchema := by
  cases hblank : Text.isBlankText v.definition with
  | true => simp [View.analyze, hblank]
  | false =>
    obtain ⟨hviews, hnames⟩ := h hblank
    have hstable := uniqueNames_fillTypes v.columns (nodup_nameKeys_namedColumns hnames)
    have hreads : ∀ index known,
        (readView index defaultSchema known v.definition).referencedTables =
          (Usage.ofTokens index defaultSchema (sqlTokens v.definition)).reads := fun _ _ => rfl
    simp only [View.analyze, hblank, Bool.false_eq_true, if_false, hreads, columns_readView,
      namedColumns_index_analyze hviews, usage_index_analyze, hstable]

end Catalog

theorem knownParameters_knownParameters (parameters : List Parameter) (definition : String) :
    knownParameters (knownParameters parameters definition) definition =
      knownParameters parameters definition := by
  cases parameters with
  | nil =>
    simp only [knownParameters, List.isEmpty_nil, if_true]
    split <;> rfl
  | cons p parameters => rfl

theorem returnType_returnType (type definition : String) :
    (if Text.isBlankText (if Text.isBlankText type then (returnType? definition).getD "" else type)
      then (returnType? definition).getD ""
      else if Text.isBlankText type then (returnType? definition).getD "" else type) =
    if Text.isBlankText type then (returnType? definition).getD "" else type := by
  cases hblank : Text.isBlankText type <;> simp [hblank]

namespace Catalog

variable {defaultSchema : Option String} {g : Catalog}

theorem analyze_procedure (p : Procedure) :
    (p.analyze g.index defaultSchema).analyze (g.analyze defaultSchema).index defaultSchema =
      p.analyze g.index defaultSchema := by
  cases hblank : Text.isBlankText p.definition <;>
    simp [Procedure.analyze, hblank, routineUsage_index_analyze, knownParameters_knownParameters]

theorem analyze_function (f : UserFunction) :
    (f.analyze g.index defaultSchema).analyze (g.analyze defaultSchema).index defaultSchema =
      f.analyze g.index defaultSchema := by
  cases hblank : Text.isBlankText f.definition with
  | true => simp [UserFunction.analyze, hblank]
  | false =>
    simp only [UserFunction.analyze, hblank, Bool.false_eq_true, if_false,
      routineUsage_index_analyze, knownParameters_knownParameters, returnType_returnType]

theorem analyze_trigger (t : Trigger) :
    (t.analyze g.index defaultSchema).analyze (g.analyze defaultSchema).index defaultSchema =
      t.analyze g.index defaultSchema := by
  cases hblank : Text.isBlankText t.definition <;>
    simp [Trigger.analyze, hblank, routineUsage_index_analyze]

/-- Where no view refers to a view and declared names name all columns, a second analysis changes
nothing. -/
theorem analyze_analyze
    (h : ∀ v ∈ g.views, Text.isBlankText v.definition = false →
      g.RefersToNoView defaultSchema (mentions 0 (sqlTokens v.definition)) ∧
        NamesAllColumns g.index defaultSchema (sqlTokens v.definition)) :
    (g.analyze defaultSchema).analyze defaultSchema = g.analyze defaultSchema := by
  let index := (g.analyze defaultSchema).index
  have hviews : (g.views.map (View.analyze g.index defaultSchema)).map
      (View.analyze index defaultSchema) = g.views.map (View.analyze g.index defaultSchema) := by
    rw [List.map_map]
    exact List.map_congr_left fun v hv => analyze_view (h v hv)
  have htriggers : (g.triggers.map (Trigger.analyze g.index defaultSchema)).map
      (Trigger.analyze index defaultSchema) =
        g.triggers.map (Trigger.analyze g.index defaultSchema) := by
    rw [List.map_map]
    exact List.map_congr_left fun t _ => analyze_trigger t
  have hprocedures : (g.procedures.map (Procedure.analyze g.index defaultSchema)).map
      (Procedure.analyze index defaultSchema) =
        g.procedures.map (Procedure.analyze g.index defaultSchema) := by
    rw [List.map_map]
    exact List.map_congr_left fun p _ => analyze_procedure p
  have hfunctions : (g.functions.map (UserFunction.analyze g.index defaultSchema)).map
      (UserFunction.analyze index defaultSchema) =
        g.functions.map (UserFunction.analyze g.index defaultSchema) := by
    rw [List.map_map]
    exact List.map_congr_left fun f _ => analyze_function f
  calc (g.analyze defaultSchema).analyze defaultSchema
      = { g.analyze defaultSchema with
          views := (g.analyze defaultSchema).views.map (View.analyze index defaultSchema)
          triggers := (g.analyze defaultSchema).triggers.map (Trigger.analyze index defaultSchema)
          procedures :=
            (g.analyze defaultSchema).procedures.map (Procedure.analyze index defaultSchema)
          functions :=
            (g.analyze defaultSchema).functions.map (UserFunction.analyze index defaultSchema) } :=
        rfl
    _ = g.analyze defaultSchema := by
      rw [analyze, hviews, htriggers, hprocedures, hfunctions]

/-- Views whose columns get types from known columns, by declared names and by numbered ones. -/
theorem analyze_analyze_known :
    let orders : Table := ⟨"dbo.Orders", "Orders", "dbo",
      [{ Column.named "Id" with dataType := "int" }, .named "Total"]⟩
    let sums : View := ⟨"dbo.Sums", "Sums", "dbo",
      [{ Column.named "SUM" with dataType := "money" }],
      "CREATE VIEW Sums (Id, Sum) AS SELECT o.id, SUM(o.Total) FROM Orders o GROUP BY o.id", []⟩
    let twice : View := ⟨"dbo.Twice", "Twice", "dbo",
      [{ Column.named "Total_2" with dataType := "money" }],
      "CREATE VIEW Twice AS SELECT Total, total FROM dbo.Orders", []⟩
    let g : Catalog := { Catalog.empty with tables := [orders], views := [sums, twice] }
    (∀ v ∈ g.views, Text.isBlankText v.definition = false →
      g.RefersToNoView (some "dbo") (mentions 0 (sqlTokens v.definition)) ∧
        NamesAllColumns g.index (some "dbo") (sqlTokens v.definition)) ∧
      (g.analyze (some "dbo")).views.map (fun v => v.columns.map fun c => (c.name, c.dataType)) =
        [[("Id", "int"), ("Sum", "money")], [("Total", "unknown"), ("Total_2", "money")]] ∧
      (g.analyze (some "dbo")).analyze (some "dbo") = g.analyze (some "dbo") := by
  intro orders sums twice g
  have h : ∀ v ∈ g.views, Text.isBlankText v.definition = false →
      g.RefersToNoView (some "dbo") (mentions 0 (sqlTokens v.definition)) ∧
        NamesAllColumns g.index (some "dbo") (sqlTokens v.definition) := by decide +kernel
  exact ⟨h, by decide +kernel, analyze_analyze h⟩

end Catalog

end Provenance
