import Provenance.Proofs.Catalog.Column
import Provenance.Proofs.Catalog.Index
import Provenance.Proofs.Distinct
import Provenance.Proofs.Query.Bindings
import Provenance.Proofs.Query.UniqueNames
import Provenance.Query.Attribution

/-!
# Soundness of attribution

An origin enters through a name without qualifier, through a qualified one or through a wildcard.
In each way its table is one that the statement reads or writes, and its column is spelled as the
catalog spells it. The columns that are put out keep these origins and the type of the first.
-/

namespace Provenance

namespace Scope

/-- The type and nullability of the column from which an origin takes its value. -/
def typeOf (scope : Scope) (origin : Option Origin) : String × Bool :=
  match origin.bind fun o => scope.index.columnOf? o.table o.column with
  | some known => (known.dataType, known.isNullable)
  | none => (unknownType, true)

/-- Whether an origin lies in a table of the statement, in the spelling of the catalog. -/
structure IsOrigin (scope : Scope) (o : Origin) : Prop where
  used : scope.usage.Has o.table
  spelled : ∀ known, scope.index.Has o.table known →
    Text.equalIgnoringCase known.name o.column = true → known.name = o.column

/-- Whether a column agrees with its origins and these with the statement. -/
structure IsAttributed (scope : Scope) (c : Column) : Prop where
  origins : ∀ o ∈ c.sources, scope.IsOrigin o
  distinct : (c.sources.map Origin.key).Nodup
  nonempty : c.origins ≠ some []
  table : c.originTable = c.sources.head?.map Origin.table
  column : c.originColumn = c.sources.head?.map Origin.column
  typed : (c.dataType, c.isNullable) = scope.typeOf c.sources.head?

/-- What makes a scope attribute soundly: it binds names to tables of its statement only, and its
index knows no column twice. -/
structure IsSound (scope : Scope) : Prop where
  bound : ∀ name id, scope.usage.bindings.lookup? name = some id → scope.usage.Has id
  topLevel : ∀ id ∈ scope.usage.topLevelReads, scope.usage.Has id
  distinct : scope.index.HasDistinctNames

variable {scope : Scope} {id column : String} {o : Origin}

theorem isOrigin_of_spelled (hscope : scope.IsSound) (hid : scope.usage.Has id)
    (h : ∀ known, scope.index.columnOf? id column = some known → known.name = column) :
    scope.IsOrigin ⟨id, column⟩ := by
  refine ⟨hid, ?_⟩
  intro known hknown hname
  apply h
  rw [← Index.columnOf?_congr scope.index id hname]
  exact Index.columnOf?_of_has hscope.distinct hknown

theorem isOrigin_name (hscope : scope.IsSound) (hid : scope.usage.Has id) {c : Column}
    (h : scope.index.columnOf? id column = some c) : scope.IsOrigin ⟨id, c.name⟩ := by
  apply isOrigin_of_spelled hscope hid
  intro known hknown
  rw [Index.columnOf?_name h] at hknown
  rw [Option.some.inj hknown]

theorem isOrigin_unknown (hscope : scope.IsSound) (hid : scope.usage.Has id)
    (h : scope.index.columnOf? id column = none) : scope.IsOrigin ⟨id, column⟩ := by
  apply isOrigin_of_spelled hscope hid
  intro known hknown
  simp [h] at hknown

theorem isOrigin_originIn (hscope : scope.IsSound) (hid : scope.usage.Has id) :
    scope.IsOrigin (scope.originIn column id) := by
  unfold originIn
  cases hcolumn : scope.index.columnOf? id column with
  | some c => exact isOrigin_name hscope hid hcolumn
  | none => exact isOrigin_unknown hscope hid hcolumn

theorem isOrigin_ownedBy? (hscope : scope.IsSound) (hid : scope.usage.Has id)
    (h : scope.ownedBy? column id = some o) : scope.IsOrigin o := by
  obtain ⟨c, hcolumn, rfl⟩ := Option.map_eq_some_iff.mp h
  exact isOrigin_name hscope hid hcolumn

theorem columnOf?_of_columnsOf? (h : ∀ c rest, scope.index.columnsOf? id ≠ some (c :: rest)) :
    scope.index.columnOf? id column = none := by
  cases hcolumn : scope.index.columnOf? id column with
  | none => rfl
  | some c =>
    obtain ⟨columns, hcolumns, hfind⟩ := Index.columnOf?_eq_some_iff.mp hcolumn
    cases columns with
    | nil => simp at hfind
    | cons d rest => exact absurd hcolumns (h d rest)

/-- A column without qualifier is taken from the one table that is read, or from the one among
several that has it. -/
theorem isOrigin_unqualified? (hscope : scope.IsSound)
    (h : scope.unqualified? column = some o) : scope.IsOrigin o := by
  unfold unqualified? at h
  split at h
  · rename_i id hreads
    have hid : scope.usage.Has id := Usage.has_of_mem_reads (by simp [hreads])
    split at h
    · exact isOrigin_ownedBy? hscope hid h
    · rename_i hcolumns
      obtain rfl := Option.some.inj h
      exact isOrigin_unknown hscope hid (columnOf?_of_columnsOf? fun c rest => hcolumns c rest)
  · split at h
    · rename_i origin howned
      obtain rfl := Option.some.inj h
      have hmem : origin ∈ scope.usage.reads.filterMap (scope.ownedBy? column) := by
        rw [howned]
        exact List.mem_singleton_self _
      obtain ⟨id, hid, horigin⟩ := List.mem_filterMap.mp hmem
      exact isOrigin_ownedBy? hscope (Usage.has_of_mem_reads hid) horigin
    · simp at h

theorem isOrigin_origin? (hscope : scope.IsSound) {names : List String}
    (h : scope.origin? names = some o) : scope.IsOrigin o := by
  unfold origin? at h
  split at h
  · simp at h
  · exact isOrigin_unqualified? hscope h
  · obtain ⟨id, hid, rfl⟩ := Option.map_eq_some_iff.mp h
    exact isOrigin_originIn hscope (hscope.bound _ _ hid)

theorem isOrigin_of_mem_origins (hscope : scope.IsSound) {expr : List Token}
    (h : o ∈ scope.origins expr) : scope.IsOrigin o := by
  obtain ⟨chain, -, horigin⟩ := List.mem_filterMap.mp (distinctBy_subset _ h)
  exact isOrigin_origin? hscope horigin

theorem has_of_wildcard? (hscope : scope.IsSound) {expr : List Token} {ids : List String}
    (h : scope.wildcard? expr = some ids) (hid : id ∈ ids) : scope.usage.Has id := by
  unfold wildcard? at h
  split at h
  · simp at h
  · split at h
    · simp at h
    · split at h
      · obtain rfl := Option.some.inj h
        unfold starTables at hid
        split at hid
        · exact Usage.has_of_mem_reads hid
        · exact hscope.topLevel id hid
      · obtain ⟨qualifier, -, rfl⟩ := Option.map_eq_some_iff.mp h
        exact hscope.bound _ _ (Option.mem_toList.mp hid)

theorem isAttributed_withOrigins {origins : List Origin} {c : Column}
    (horigins : ∀ o ∈ origins, scope.IsOrigin o) (hdistinct : (origins.map Origin.key).Nodup)
    (htype : (c.dataType, c.isNullable) = scope.typeOf origins.head?) :
    scope.IsAttributed (c.withOrigins origins) where
  origins := by simpa using horigins
  distinct := by simpa using hdistinct
  nonempty := Column.withOrigins_origins_ne origins c
  table := by rw [Column.withOrigins_originTable, Column.withOrigins_sources]
  column := by rw [Column.withOrigins_originColumn, Column.withOrigins_sources]
  typed := by simpa using htype

theorem isAttributed_of_mem_expand (hscope : scope.IsSound) (hid : scope.usage.Has id)
    {c : Column} (h : c ∈ scope.expand id) : scope.IsAttributed c := by
  obtain ⟨known, hknown, rfl⟩ := List.mem_map.mp h
  have hhas : scope.index.Has id known := by
    cases hcolumns : scope.index.columnsOf? id with
    | none => simp [hcolumns] at hknown
    | some columns => exact ⟨columns, hcolumns, by simpa [hcolumns] using hknown⟩
  have hcolumn := Index.columnOf?_of_has hscope.distinct hhas
  apply isAttributed_withOrigins
  · intro o ho
    obtain rfl := List.mem_singleton.mp ho
    exact isOrigin_name hscope hid hcolumn
  · simp
  · simp [typeOf, hcolumn, Column.withTypeOf]

theorem isAttributed_outputColumn (hscope : scope.IsSound) (position : Nat) (item : SelectItem) :
    scope.IsAttributed (scope.outputColumn position item) := by
  apply isAttributed_withOrigins
  · intro o ho
    exact isOrigin_of_mem_origins hscope ho
  · exact nodup_map_distinctBy _
  · unfold typed typeOf
    cases (scope.origins item.expr).head?.bind fun o => scope.index.columnOf? o.table o.column with
    | none => rfl
    | some known => rfl

theorem isAttributed_of_mem_itemColumns (hscope : scope.IsSound) {ts : List Token}
    {position : Nat} {c : Column} (h : c ∈ scope.itemColumns ts position) :
    scope.IsAttributed c := by
  unfold itemColumns at h
  dsimp only at h
  split at h
  · rename_i ids hids
    obtain ⟨id, hid, hc⟩ := List.mem_flatMap.mp h
    exact isAttributed_of_mem_expand hscope (has_of_wildcard? hscope hids hid) hc
  · obtain rfl := List.mem_singleton.mp h
    exact isAttributed_outputColumn hscope position _

/-- A sound scope attributes every column soundly, whatever the select list is. -/
theorem isAttributed_of_mem_outputColumns (hscope : scope.IsSound) {items : List (List Token)}
    {c : Column} (h : c ∈ scope.outputColumns items) : scope.IsAttributed c := by
  obtain ⟨d, hd, name, rfl⟩ := exists_of_mem_uniqueNamesFrom h
  obtain ⟨⟨item, position⟩, -, hitem⟩ := List.mem_flatMap.mp hd
  have hattributed := isAttributed_of_mem_itemColumns hscope hitem
  exact ⟨hattributed.origins, hattributed.distinct, hattributed.nonempty, hattributed.table,
    hattributed.column, hattributed.typed⟩

/-- Where every table has an id, the aliases and names of a statement stand for its tables. -/
theorem isSound_ofTokens {index : Index} (hdistinct : index.HasDistinctNames)
    {defaultSchema : Option String} {ts : List Token}
    (hid : ∀ r ∈ Usage.byName index defaultSchema (mentions 0 ts), r.id ≠ "") :
    (Scope.mk (Usage.ofTokens index defaultSchema ts) index).IsSound where
  bound _ _ h := Usage.has_of_lookup? hid h
  topLevel _ h := Usage.has_of_mem_topLevelReads h
  distinct := hdistinct

/-- The columns of a query are attributed to tables that it reads or writes, in the spelling of
the catalog and with the types that it gives, and they have different names. -/
theorem outputColumns_sound {g : Catalog} (hnames : ∀ t ∈ g.relations, HaveDistinctNames t.columns)
    {defaultSchema : Option String} {ts : List Token}
    (hid : ∀ r ∈ Usage.byName g.index defaultSchema (mentions 0 ts), r.id ≠ "") :
    let scope : Scope := ⟨Usage.ofTokens g.index defaultSchema ts, g.index⟩
    (∀ c ∈ scope.outputColumns (outputItems ts), scope.IsAttributed c) ∧
      ((scope.outputColumns (outputItems ts)).map fun c => Text.lowerCase c.name).Nodup := by
  intro scope
  have hscope : scope.IsSound := isSound_ofTokens (Index.hasDistinctNames_ofRelations hnames) hid
  constructor
  · intro c hc
    exact isAttributed_of_mem_outputColumns hscope hc
  · exact nodup_nameKeys_uniqueNames _

/-- A qualified column, one without qualifier and a wildcard, whose `ID` is numbered since an `Id`
stands before it. -/
theorem outputColumns_sound_join :
    let orders : Table := ⟨"dbo.Orders", "Orders", "dbo",
      [{ Column.named "Id" with dataType := "int" }, .named "CustomerId"]⟩
    let customers : Table := ⟨"dbo.Customers", "Customers", "dbo", [.named "ID", .named "Name"]⟩
    let g : Catalog := { Catalog.empty with tables := [orders, customers] }
    let ts := sqlTokens
      "SELECT o.id, UPPER(name) AS n, C.* FROM Orders o JOIN customers c ON o.CustomerId = c.ID"
    let scope : Scope := ⟨Usage.ofTokens g.index (some "dbo") ts, g.index⟩
    (∀ t ∈ g.relations, HaveDistinctNames t.columns) ∧
    (∀ r ∈ Usage.byName g.index (some "dbo") (mentions 0 ts), r.id ≠ "") ∧
      (scope.outputColumns (outputItems ts)).map (fun c => (c.name, c.sources)) =
        [("Id", [⟨"dbo.Orders", "Id"⟩]), ("n", [⟨"dbo.Customers", "Name"⟩]),
          ("ID_2", [⟨"dbo.Customers", "ID"⟩]), ("Name", [⟨"dbo.Customers", "Name"⟩])] ∧
      ∀ c ∈ scope.outputColumns (outputItems ts), scope.IsAttributed c := by
  intro orders customers g ts scope
  have hnames : ∀ t ∈ g.relations, HaveDistinctNames t.columns := by decide +kernel
  have hid : ∀ r ∈ Usage.byName g.index (some "dbo") (mentions 0 ts), r.id ≠ "" := by
    decide +kernel
  exact ⟨hnames, hid, by decide +kernel, (outputColumns_sound hnames hid).1⟩

end Scope

end Provenance
