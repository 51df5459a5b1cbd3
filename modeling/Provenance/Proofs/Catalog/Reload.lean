import Provenance.Catalog.Json
import Provenance.Command.Run
import Provenance.Proofs.Json.Records

/-!
# Loading written catalogs

Every record of a catalog is read from the object that it is written as, so that a catalog is
loaded from its text as it was, whether it was saved or printed.
-/

namespace Provenance

open Json

theorem Origin.ofJson?_toJson (a : Origin) : Origin.ofJson? a.toJson = some a := by
  rw [Origin.ofJson?, Origin.toJson, fields?_ofFields (by rfl) (by decide)]
  rfl

/-- The fields of a column, of which those for its origins may be left out. -/
def Column.fields (a : Column) : List (String × Option Json) :=
  [("name", some (.ofString a.name)), ("dataType", some (.ofString a.dataType)),
    ("isNullable", some (.bool a.isNullable)), ("isPrimaryKey", some (.bool a.isPrimaryKey)),
    ("sourceColumns", a.origins.map fun origins => .array (origins.map Origin.toJson)),
    ("sourceTable", a.originTable.map .ofString), ("sourceColumn", a.originColumn.map .ofString)]

theorem Column.toJson_eq (a : Column) : a.toJson = .ofFields (given a.fields) := by
  rcases a with ⟨name, dataType, isNullable, isPrimaryKey, origins, originTable, originColumn⟩
  cases origins <;> cases originTable <;> cases originColumn <;> rfl

theorem Column.ofJson?_toJson (a : Column) : Column.ofJson? a.toJson = some a := by
  have horigins := optional_map (asList?_map Origin.ofJson?_toJson) (by simp) a.origins
  have htable := optional_map asString?_ofString (by simp [Json.ofString]) a.originTable
  have hcolumn := optional_map asString?_ofString (by simp [Json.ofString]) a.originColumn
  rw [Column.ofJson?, Column.toJson_eq, fields?_given (by rfl) (by decide)]
  simp [Column.fields, horigins, htable, hcolumn]

theorem Parameter.ofJson?_toJson (a : Parameter) : Parameter.ofJson? a.toJson = some a := by
  rw [Parameter.ofJson?, Parameter.toJson, fields?_ofFields (by rfl) (by decide)]
  rfl

theorem Table.ofJson?_toJson (a : Table) : Table.ofJson? a.toJson = some a := by
  rw [Table.ofJson?, Table.toJson, fields?_ofFields (by rfl) (by decide)]
  simp [asList?_map Column.ofJson?_toJson]

theorem View.ofJson?_toJson (a : View) : View.ofJson? a.toJson = some a := by
  rw [View.ofJson?, View.toJson, fields?_ofFields (by rfl) (by decide)]
  simp [asList?_map Column.ofJson?_toJson]

theorem Relationship.ofJson?_toJson (a : Relationship) :
    Relationship.ofJson? a.toJson = some a := by
  rw [Relationship.ofJson?, Relationship.toJson, fields?_ofFields (by rfl) (by decide)]
  rfl

theorem Trigger.ofJson?_toJson (a : Trigger) : Trigger.ofJson? a.toJson = some a := by
  rw [Trigger.ofJson?, Trigger.toJson, fields?_ofFields (by rfl) (by decide)]
  simp

theorem Procedure.ofJson?_toJson (a : Procedure) : Procedure.ofJson? a.toJson = some a := by
  rw [Procedure.ofJson?, Procedure.toJson, fields?_ofFields (by rfl) (by decide)]
  simp [asList?_map Parameter.ofJson?_toJson]

theorem UserFunction.ofJson?_toJson (a : UserFunction) :
    UserFunction.ofJson? a.toJson = some a := by
  rw [UserFunction.ofJson?, UserFunction.toJson, fields?_ofFields (by rfl) (by decide)]
  simp [asList?_map Parameter.ofJson?_toJson]

theorem Catalog.ofJson?_toJson (g : Catalog) : Catalog.ofJson? g.toJson = some g := by
  rw [Catalog.ofJson?, Catalog.toJson, fields?_ofFields (by rfl) (by decide)]
  simp [asList?_map Table.ofJson?_toJson, asList?_map View.ofJson?_toJson,
    asList?_map Relationship.ofJson?_toJson, asList?_map Trigger.ofJson?_toJson,
    asList?_map Procedure.ofJson?_toJson, asList?_map UserFunction.ofJson?_toJson]

/-! ## The text of a catalog -/

theorem Origin.isReadBack_toJson (a : Origin) : IsReadBack a.toJson :=
  isReadBack_ofFields (by simp)

theorem Column.isReadBack_toJson (a : Column) : IsReadBack a.toJson := by
  apply isReadBack_ofFields
  intro field hfield
  simp only [List.mem_append] at hfield
  rcases hfield with ((hplain | horigins) | htable) | hcolumn
  · revert field
    simp
  · exact isReadBack_optionalField (isReadBack_map Origin.isReadBack_toJson) horigins
  · exact isReadBack_optionalField isReadBack_ofString htable
  · exact isReadBack_optionalField isReadBack_ofString hcolumn

theorem Parameter.isReadBack_toJson (a : Parameter) : IsReadBack a.toJson :=
  isReadBack_ofFields (by simp)

theorem Table.isReadBack_toJson (a : Table) : IsReadBack a.toJson :=
  isReadBack_ofFields (by simp [isReadBack_map Column.isReadBack_toJson])

theorem View.isReadBack_toJson (a : View) : IsReadBack a.toJson :=
  isReadBack_ofFields (by simp [isReadBack_map Column.isReadBack_toJson])

theorem Relationship.isReadBack_toJson (a : Relationship) : IsReadBack a.toJson :=
  isReadBack_ofFields (by simp)

theorem Trigger.isReadBack_toJson (a : Trigger) : IsReadBack a.toJson :=
  isReadBack_ofFields (by simp)

theorem Procedure.isReadBack_toJson (a : Procedure) : IsReadBack a.toJson :=
  isReadBack_ofFields (by simp [isReadBack_map Parameter.isReadBack_toJson])

theorem UserFunction.isReadBack_toJson (a : UserFunction) : IsReadBack a.toJson :=
  isReadBack_ofFields (by simp [isReadBack_map Parameter.isReadBack_toJson])

theorem Catalog.isReadBack_toJson (g : Catalog) : IsReadBack g.toJson :=
  isReadBack_ofFields (by
    simp [isReadBack_map Table.isReadBack_toJson, isReadBack_map View.isReadBack_toJson,
      isReadBack_map Relationship.isReadBack_toJson, isReadBack_map Trigger.isReadBack_toJson,
      isReadBack_map Procedure.isReadBack_toJson, isReadBack_map UserFunction.isReadBack_toJson])

/-- A catalog is read from its text, with spaces or line breaks behind it or not. -/
theorem Catalog.parse?_print (g : Catalog) (spaces : List Char)
    (hspaces : spaces.all Json.isSpace = true) :
    Catalog.parse? (g.print ++ String.ofList spaces) = some g := by
  have hread := g.isReadBack_toJson.parse?_write (.indented 0) hspaces
  rw [String.ofList_append] at hread
  rw [Catalog.parse?, Catalog.print, pretty, hread, Option.bind_some, Catalog.ofJson?_toJson]

theorem loadCatalog_text {text : String} {g : Catalog} (h : Catalog.parse? text = some g)
    (path : String) : loadCatalog path (some (.file text.toUTF8)) = .ok g := by
  have hutf8 : String.fromUTF8? text.toUTF8 = some text := dif_pos text.isValidUTF8
  rw [loadCatalog, Option.bind_some, FileTree.bytes?, Option.bind_some, hutf8]
  simp only [h]

/-- A catalog is loaded as it was from its text, with a line break behind it or not. These are
what an analysis prints and what it saves of the catalog that it leads to. -/
theorem Catalog.loadCatalog_print (g : Catalog) (path output : String)
    (defaultSchema : Option String) (verbose : Bool) :
    loadCatalog path (some (.file g.print.toUTF8)) = .ok g ∧
    loadCatalog path (some (.file (line g.print).toUTF8)) = .ok g ∧
    (runAnalyze g none defaultSchema false).printed = line (g.analyze defaultSchema).print ∧
    ∃ save, (runAnalyze g (some output) defaultSchema verbose).result = .ok (some save) ∧
      save.content = (g.analyze defaultSchema).print := by
  refine ⟨loadCatalog_text ?_ path, loadCatalog_text ?_ path, ?_, ⟨_, rfl, rfl⟩⟩
  · simpa using g.parse?_print [] rfl
  · exact g.parse?_print ['\n'] rfl
  · simp [runAnalyze, Outcome.printing, remark]

end Provenance
