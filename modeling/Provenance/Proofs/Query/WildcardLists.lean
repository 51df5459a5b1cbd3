import Provenance.Proofs.Query.FromClause
import Provenance.Proofs.Query.Subqueries
import Provenance.Proofs.Query.UniqueNames

/-!
# Lists of wildcards

A wildcard stands for all columns of the tables of a statement, and one with a qualifier for those
of the table with this alias. The columns come in the order of the tables, each with its type and
with itself as the only origin. Making their names unique changes nothing else.
-/

namespace Provenance

/-- The columns that a wildcard makes of those of a table. -/
def Table.wildcardColumns (t : Table) : List Column :=
  t.columns.map fun c =>
    { name := c.name
      dataType := c.dataType
      isNullable := c.isNullable
      isPrimaryKey := false
      origins := some [⟨t.id, c.name⟩]
      originTable := some t.id
      originColumn := some c.name }

def FromTable.aliasKey? (r : FromTable) : Option String := r.use.aliasName.map Text.lowerCase

def FromTable.isCalled (q : Token) (r : FromTable) : Bool :=
  r.aliasKey? == some (Text.lowerCase (Identifier.bare q.text))

/-- A statement that selects all columns of tables. -/
structure WildcardQuery where
  items : List QualifiedItem
  clause : FromClause

namespace WildcardQuery

def tokens (x : WildcardQuery) : List Token :=
  .word "SELECT" :: ([Token.mark ','].intercalate (x.items.map QualifiedItem.tokens) ++
    .word "FROM" :: (x.clause.first.tokens ++ x.clause.steps.flatMap FromStep.tokens))

/-- The tables that an item stands for. -/
def tablesOf (x : WildcardQuery) : QualifiedItem → List FromTable
  | .star => x.clause.sources
  | .all q => (x.clause.sources.find? (FromTable.isCalled q)).toList
  | .column _ _ => []

/-- The columns of all items, before their names are made unique. -/
def columns (x : WildcardQuery) : List Column :=
  x.items.flatMap fun item => (x.tablesOf item).flatMap fun r => r.table.wildcardColumns

/-- The items are wildcards, each for some of the tables. The tables are different relations of a
catalog with different aliases, and no comma follows a hint or a join. -/
structure IsProper (g : Catalog) (x : WildcardQuery) : Prop where
  items : ∀ item ∈ x.items, item.isProper = true ∧ x.tablesOf item ≠ []
  clause : x.clause.IsProper g
  listed : x.clause.listsCommasFirst = true
  tables : (x.clause.sources.map FromTable.table).Nodup
  aliases : (x.clause.sources.map FromTable.aliasKey?).Nodup

instance (g : Catalog) (x : WildcardQuery) : Decidable (x.IsProper g) :=
  decidable_of_iff
    ((∀ item ∈ x.items, item.isProper = true ∧ (x.tablesOf item).isEmpty = false) ∧
      x.clause.IsProper g ∧ x.clause.listsCommasFirst = true ∧
      (x.clause.sources.map FromTable.table).Nodup ∧
      (x.clause.sources.map FromTable.aliasKey?).Nodup)
    ⟨fun ⟨items, clause, listed, tables, aliases⟩ =>
        ⟨by simpa using items, clause, listed, tables, aliases⟩,
      fun h => ⟨by simpa using h.items, h.clause, h.listed, h.tables, h.aliases⟩⟩

variable {g : Catalog} {x : WildcardQuery}

theorem IsProper.mentions_tokens (hx : x.IsProper g) :
    mentions 0 x.tokens = x.clause.sources.map fun r => .table r.use := by
  have hitems : ∀ item ∈ x.items, item.isProper = true := fun item hitem => (hx.items item hitem).1
  have hread : x.clause.readSources = x.clause.sources := by
    rw [FromClause.readSources, FromClause.sources, (readTables_eq_map_iff _ _).mpr hx.listed]
  rw [tokens, mentions_of_listTokens (QualifiedItem.isListToken_of_mem_joined hitems),
    mentions_tables hx.clause.first hx.clause.steps, ← hread]
  rfl

section Usage

variable (hg : g.IsQualified) (hx : x.IsProper g) (defaultSchema : Option String)

include hg hx

theorem IsProper.topLevelReads_tokens :
    (Usage.ofTokens g.index defaultSchema x.tokens).topLevelReads =
      x.clause.sources.map fun r => r.table.id := by
  have hresolved := resolved_tables hg defaultSchema hx.clause.known
  have hids : ((x.clause.sources.map fun r => r.table.id).map Text.lowerCase).Nodup := by
    have hknown : ∀ t ∈ x.clause.sources.map FromTable.table, t ∈ g.relations := by
      intro t ht
      obtain ⟨r, hr, rfl⟩ := List.mem_map.mp ht
      exact hx.clause.known r hr
    have hkeys := hx.tables.map_on fun t ht u hu =>
      hg.eq_of_lowerCase_id (hknown t ht) (hknown u hu)
    rw [List.map_map] at hkeys ⊢
    exact hkeys
  rw [Usage.ofTokens, hx.mentions_tokens, Usage.ofMentions]
  simp only [hresolved]
  rw [idsOf_tables (fun _ => rfl), distinctBy_of_nodup hids]

theorem IsProper.starTables_tokens :
    (Scope.mk (Usage.ofTokens g.index defaultSchema x.tokens) g.index).starTables =
      x.clause.sources.map fun r => r.table.id := by
  rw [Scope.starTables, hx.topLevelReads_tokens hg defaultSchema]
  rfl

theorem IsProper.lookup?_alias {r : FromTable} (hr : r ∈ x.clause.sources) {q : Token}
    (hq : r.isCalled q = true) :
    (Usage.ofTokens g.index defaultSchema x.tokens).bindings.lookup? (Identifier.bare q.text) =
      some r.table.id := by
  have hlast : Usage.lastDeclaring? (Identifier.bare q.text)
      (x.clause.sources.map fun r => ⟨r.use, r.table.id⟩) = some ⟨r.use, r.table.id⟩ := by
    have hcalled : ∀ s : FromTable, (s.use.aliasName.any fun name =>
        Text.lowerCase name == Text.lowerCase (Identifier.bare q.text)) = s.isCalled q := by
      intro s
      unfold FromTable.isCalled FromTable.aliasKey?
      cases s.use.aliasName <;> simp
    apply find?_eq_some_of_unique
    · exact List.mem_reverse.mpr (List.mem_map_of_mem hr)
    · rw [hcalled, hq]
    · intro u hu hdeclares
      obtain ⟨s, hs, rfl⟩ := List.mem_map.mp (List.mem_reverse.mp hu)
      rw [hcalled] at hdeclares
      have hkey : s.aliasKey? = r.aliasKey? :=
        (beq_iff_eq.mp hdeclares).trans (beq_iff_eq.mp hq).symm
      rw [List.inj_on_of_nodup_map hx.aliases hs hr hkey]
  rw [Usage.ofTokens, hx.mentions_tokens, Usage.lookup?_ofMentions,
    byName_sources hg defaultSchema hx.clause.known, hlast]
  rfl

end Usage

theorem expand_id (hg : g.IsQualified) (usage : Usage) {t : Table} (ht : t ∈ g.relations) :
    Scope.expand ⟨usage, g.index⟩ t.id = t.wildcardColumns := by
  rw [Scope.expand, hg.columnsOf?_id ht, Option.getD_some]
  rfl

theorem IsProper.itemColumns_tokens (hg : g.IsQualified) (hx : x.IsProper g)
    (defaultSchema : Option String) {item : QualifiedItem} (hitem : item ∈ x.items)
    (position : Nat) :
    Scope.itemColumns ⟨Usage.ofTokens g.index defaultSchema x.tokens, g.index⟩ item.tokens
        position = (x.tablesOf item).flatMap fun r => r.table.wildcardColumns := by
  obtain ⟨hproper, htables⟩ := hx.items item hitem
  have hexpand : ∀ r ∈ x.clause.sources,
      Scope.expand ⟨Usage.ofTokens g.index defaultSchema x.tokens, g.index⟩ r.table.id =
        r.table.wildcardColumns := fun r hr => expand_id hg _ (hx.clause.known r hr)
  unfold Scope.itemColumns
  rw [item.ofTokens_tokens]
  cases item with
  | star =>
    have hwildcard : ∀ scope : Scope, scope.wildcard? QualifiedItem.star.tokens =
        some scope.starTables := fun _ => rfl
    simp only [hwildcard, hx.starTables_tokens hg, tablesOf, List.flatMap_map]
    exact List.flatMap_congr hexpand
  | all q =>
    cases hfind : x.clause.sources.find? (FromTable.isCalled q) with
    | none => simp [tablesOf, hfind] at htables
    | some r =>
      have hr := List.mem_of_find?_eq_some hfind
      have hlookup := hx.lookup?_alias hg defaultSchema hr (List.find?_some hfind)
      simp only [Scope.wildcard?_all _ hproper, hlookup, tablesOf, hfind, Option.toList_some,
        List.flatMap_singleton, hexpand r hr]
  | column q c => simp [tablesOf] at htables

/-- The columns of a list of wildcards are those of the tables of each item, with names that are
made unique and nothing else changed. -/
theorem selectedColumns_wildcards (hg : g.IsQualified) (hx : x.IsProper g)
    (defaultSchema : Option String) {sql : String} (hsql : sqlTokens sql = x.tokens) :
    selectedColumns g.index defaultSchema sql = uniqueNames x.columns ∧
      List.Forall₂ (fun c d => d = { c with name := d.name }) x.columns
        (uniqueNames x.columns) := by
  have hitems : ∀ item ∈ x.items, item.isProper = true := fun item hitem => (hx.items item hitem).1
  have hlist : outputItems x.tokens = x.items.map QualifiedItem.tokens :=
    QualifiedItem.outputItems_joined hitems _
  have hcolumns := Scope.flatMap_itemColumns _ _ _ fun item hitem position =>
    hx.itemColumns_tokens hg defaultSchema hitem position
  refine ⟨?_, forall₂_uniqueNamesFrom [] x.columns⟩
  rw [selectedColumns, hsql, hlist, Scope.outputColumns, hcolumns]
  rfl

/-- Two tables of a comma list and a joined one, with a wildcard for all of them between two for
one. A column of the joined table has the name of one before it. -/
theorem selectedColumns_wildcards_join :
    let orders : Table := ⟨"dbo.Orders", "Orders", "dbo",
      [{ Column.named "Id" with dataType := "int", isNullable := false }, .named "Note"]⟩
    let lines : Table := ⟨"dbo.Lines", "Lines", "dbo", [.named "Sku"]⟩
    let regions : Table := ⟨"sales.Regions", "Regions", "sales", [.named "id"]⟩
    let g : Catalog := { Catalog.empty with tables := [orders, regions, lines] }
    let x : WildcardQuery :=
      { items := [.all (.word "L"), .star, .all (.word "r")]
        clause := ⟨⟨orders, some (.word "o"), none⟩,
          [.comma ⟨lines, some (.word "l"), none⟩,
            .join ⟨regions, some (.word "r"), none⟩ (sqlTokens "r.id = (o.Id)")]⟩ }
    let sql :=
      "SELECT L.*, *, r.* FROM dbo.Orders o, dbo.Lines l JOIN sales.Regions r ON r.id = (o.Id)"
    g.IsQualified ∧ x.IsProper g ∧ sqlTokens sql = x.tokens ∧
      (selectedColumns g.index none sql).map (fun c => (c.name, c.dataType, c.sources)) =
        [("Sku", "unknown", [⟨"dbo.Lines", "Sku"⟩]), ("Id", "int", [⟨"dbo.Orders", "Id"⟩]),
          ("Note", "unknown", [⟨"dbo.Orders", "Note"⟩]),
          ("Sku_2", "unknown", [⟨"dbo.Lines", "Sku"⟩]),
          ("id_2", "unknown", [⟨"sales.Regions", "id"⟩]),
          ("id_3", "unknown", [⟨"sales.Regions", "id"⟩])] := by
  intro orders lines regions g x sql
  have hcond : sqlTokens "r.id = (o.Id)" =
      [.word "r", .mark '.', .word "id", .mark '=', .mark '(', .word "o", .mark '.', .word "Id",
        .mark ')'] := (sqlTokens_ofList _).trans (by decide +kernel)
  have hg : g.IsQualified := by decide +kernel
  have hx : x.IsProper g := by
    simp only [x, hcond]
    decide +kernel
  have hsql : sqlTokens sql = x.tokens := by
    simp only [x, hcond]
    exact (sqlTokens_ofList _).trans (by decide +kernel)
  refine ⟨hg, hx, hsql, ?_⟩
  rw [(selectedColumns_wildcards hg hx none hsql).1]
  decide +kernel

end WildcardQuery

end Provenance
