import Mathlib.Data.List.Forall2
import Provenance.Definition.View
import Provenance.Proofs.Catalog.Column
import Provenance.Proofs.Definition.Header
import Provenance.Proofs.Query.UniqueNames
import Provenance.Proofs.Writing.ViewItems

/-!
# Views that are written and read back

The columns of a written view that all come from one table are the columns that are read from it,
with the same names and origins, and the view reads that table.
-/

namespace Provenance

/-- A written id stands for the relation that it names in the index, or for itself. A default schema
makes no difference to an id that has one. -/
theorem Index.tableId_written (index : Index) {defaultSchema : Option String} {id : String}
    (h : Identifier.IsReadable id)
    (hdefault : defaultSchema = none ∨ (Identifier.idParts id).length = 2) :
    index.tableId defaultSchema ((Identifier.idParts id).map Identifier.written) =
      (index.idOf? id).getD id := by
  have hnames : ((Identifier.idParts id).map Identifier.written).map Identifier.bare =
      Identifier.idParts id := Identifier.map_bare_written fun p hp => (h p hp).2
  have hnonempty : (Identifier.idParts id).filter (fun name => !name.isEmpty) =
      Identifier.idParts id := by
    apply List.filter_eq_self.mpr
    intro p hp
    simpa using (h p hp).1
  have hjoin := Identifier.joinId_idParts id
  unfold Index.tableId
  simp only [hnames, hnonempty, Identifier.lastTwo_idParts]
  rcases Identifier.idParts_cases id with hparts | ⟨schema, name, hparts⟩
  · rw [hparts] at hdefault
    obtain rfl := hdefault.resolve_right (by simp)
    simp only [hparts]
    rfl
  · rw [hparts] at hjoin
    simp only [hparts, hjoin]

/-! ## The table that is read -/

theorem mentions_sourceTokens (table : Option String) :
    mentions 0 (sourceTokens table) = table.toList.map fun id =>
      .table ⟨(Identifier.idParts id).map Identifier.written, none, .read, 0⟩ := by
  cases table with
  | none => rw [sourceTokens, mentions]; rfl
  | some id =>
    have hfrom : (Token.word "FROM").keyword? = some .FROM := by decide
    have hname := Identifier.qualifiedName?_idTokens id [] (by simp)
    rw [List.append_nil] at hname
    have huse : tableUse? .read 0 (Identifier.idTokens id) =
        some (⟨(Identifier.idParts id).map Identifier.written, none, .read, 0⟩, []) := by
      rw [tableUse?, hname]
      rfl
    have hlist : tableList .read 0 (Identifier.idTokens id) =
        ([.table ⟨(Identifier.idParts id).map Identifier.written, none, .read, 0⟩], []) := by
      rw [tableList]
      split
      · rename_i h
        rw [huse] at h
        simp at h
      · rename_i use rest h
        rw [huse] at h
        obtain ⟨rfl, rfl⟩ := Prod.mk.inj (Option.some.inj h)
        rfl
    rw [sourceTokens, mentions, mentionsAt, hfrom]
    simp only [hlist]
    rw [mentions]
    rfl

theorem mentions_viewTokens (id : String) (columns : List Column) :
    mentions 0 (viewTokens id columns) = mentions 0 (sourceTokens (writtenTable? columns)) := by
  have hview : viewTokens id columns =
      (headerTokens id ++ .word "SELECT" :: listTokens columns) ++
        sourceTokens (writtenTable? columns) := by
    simp [viewTokens]
  have hquiet : ∀ {t}, isListToken t = true → t.isQuiet = true ∧ t.isFlat = true := by
    intro t ht
    obtain ⟨hflat, hquiet, -⟩ := isListToken_iff.mp ht
    exact ⟨hquiet, hflat⟩
  rw [hview, mentions_append]
  intro t ht
  rcases List.mem_append.mp ht with ht | ht
  · exact hquiet (isListToken_of_mem_headerTokens id t ht)
  · rcases List.mem_cons.mp ht with rfl | ht
    · decide
    · exact hquiet (isListToken_of_mem_listTokens columns t ht)

theorem reads_viewTokens {index : Index} {defaultSchema : Option String} (id : String)
    {columns : List Column}
    (htable : ∀ table ∈ writtenTable? columns, Identifier.IsReadable table ∧
      (defaultSchema = none ∨ (Identifier.idParts table).length = 2) ∧
        (index.idOf? table).getD table = table) :
    (Usage.ofTokens index defaultSchema (viewTokens id columns)).reads =
      (writtenTable? columns).toList := by
  rw [Usage.ofTokens, mentions_viewTokens, mentions_sourceTokens]
  cases h : writtenTable? columns with
  | none => rfl
  | some table =>
    obtain ⟨hreadable, hdefault, hid⟩ := htable table h
    have hne := hreadable.ne_empty
    simp [Usage.ofMentions, Usage.byName, Usage.resolved, Usage.idsOf, Usage.declared, tableUses,
      commonNames, TableUse.namesOneOf, ResolvedUse.followAlias, ResolvedUse.declare,
      Bindings.empty, Index.tableId_written index hreadable hdefault, hid, hne, distinctBy]

/-! ## The columns that are read -/

/-- Whether a column name is the spelling of an index that knows the columns of the table. -/
def Index.Spells (index : Index) (table column : String) : Prop :=
  index.columnsOf? table = none ∨ index.columnsOf? table = some [] ∨
    (index.columnOf? table column).map Column.name = some column

instance (index : Index) (table column : String) : Decidable (index.Spells table column) :=
  inferInstanceAs (Decidable (index.columnsOf? table = none ∨ index.columnsOf? table = some [] ∨
    (index.columnOf? table column).map Column.name = some column))

namespace Scope

variable {scope : Scope} {table column : String}

theorem unqualified?_of_reads (hreads : scope.usage.reads = [table])
    (hspells : scope.index.Spells table column) :
    scope.unqualified? column = some ⟨table, column⟩ := by
  unfold unqualified?
  rw [hreads]
  simp only
  split
  · rename_i hknown
    rcases hspells with hnone | hempty | hname
    · rw [hnone] at hknown
      simp at hknown
    · rw [hempty] at hknown
      simp at hknown
    · obtain ⟨c, hc, rfl⟩ := Option.map_eq_some_iff.mp hname
      rw [ownedBy?, hc]
      rfl
  · rfl

theorem origins_null : scope.origins [.word "NULL"] = [] := by
  have hcolumn : Chain.isColumn ⟨[], .word "NULL", []⟩ = false := by decide
  simp [origins, chains, Token.isWord, Chain.after, chainTail, hcolumn, distinctBy]

theorem isColumn_token (name : String) : Chain.isColumn ⟨[], Identifier.token name, []⟩ = true := by
  have hdollar : (Identifier.token name).beginsWith (· == '$') = false :=
    Identifier.token_beginsWith (by decide +kernel) name
  simp [Chain.isColumn, Identifier.token_isVariable, Identifier.token_isNumber,
    Identifier.token_isReserved, hdollar, isPhraseWord, beginsWithWords, Chain.isContinued,
    Chain.after, chainTail, Chain.excludedBy]

theorem origins_token (hreads : scope.usage.reads = [table])
    (hspells : scope.index.Spells table column) (htrim : Text.trim column = column) :
    scope.origins [Identifier.token column] = [⟨table, column⟩] := by
  have hnames : Chain.bareNames ⟨[], Identifier.token column, []⟩ = [column] := by
    simp [Chain.bareNames, Chain.further, chainTail, Identifier.bare_token_text htrim]
  have horigin : scope.origin? [column] = some ⟨table, column⟩ :=
    unqualified?_of_reads hreads hspells
  simp [origins, chains, Identifier.token_isWord, Chain.after, chainTail, isColumn_token, hnames,
    horigin, distinctBy]

theorem wildcard?_of_isWord {t : Token} (h : t.isWord = true) : scope.wildcard? [t] = none := by
  simp [wildcard?, Token.not_isMark_of_isWord h]

theorem typed_name (scope : Scope) (o : Option Origin) (c : Column) :
    (scope.typed o c).name = c.name := by
  unfold typed
  split <;> rfl

/-- The column of an expression under a given name. -/
def columnAs (scope : Scope) (name : String) (expr : List Token) : Column :=
  (scope.typed (scope.origins expr).head? (.named name)).withOrigins (scope.origins expr)

theorem columnAs_name (scope : Scope) (name : String) (expr : List Token) :
    (scope.columnAs name expr).name = name := by
  rw [columnAs, Column.withOrigins_name, typed_name, Column.named]

theorem itemColumns_aliased {expr : List Token} {name : String}
    (hexpr : scope.wildcard? expr = none) (hne : name ≠ "") (htrim : Text.trim name = name)
    (position : Nat) :
    scope.itemColumns (expr ++ [.word "AS", Identifier.token name]) position =
      [scope.columnAs name expr] := by
  have has : (Token.word "AS").is .AS = true := by decide
  have hitem : SelectItem.ofTokens (expr ++ [.word "AS", Identifier.token name]) =
      ⟨some name, expr⟩ := by
    simp [SelectItem.ofTokens, SelectItem.marked?, has, Identifier.token_isWord,
      Identifier.token_isVariable, SelectItem.aliased, unlessEmpty,
      Identifier.bare_token_text htrim, hne]
  unfold itemColumns
  rw [hitem]
  simp [hexpr, outputColumn, outputName, columnAs]

theorem itemColumns_marked {t : Token} {name : String} (hword : t.isWord = true)
    (hne : name ≠ "") (htrim : Text.trim name = name) (position : Nat) :
    scope.itemColumns [t, .word "AS", Identifier.token name] position =
      [scope.columnAs name [t]] :=
  itemColumns_aliased (wildcard?_of_isWord hword) hne htrim position

theorem itemColumns_single {t : Token} {o : Origin} (hword : t.isWord = true)
    (horigins : scope.origins [t] = [o]) (position : Nat) :
    scope.itemColumns [t] position =
      [(scope.typed (some o) (.named o.column)).withOrigins [o]] := by
  have hitem : SelectItem.ofTokens [t] = ⟨none, [t]⟩ := rfl
  unfold itemColumns
  rw [hitem]
  simp [wildcard?_of_isWord hword, outputColumn, outputName, horigins]

end Scope

/-- The origins of a column whose first origin is taken to be in a table. -/
def Column.originsIn (table : Option String) (c : Column) : List Origin :=
  match table, c.firstOrigin? with
  | some id, some o => [⟨id, o.column⟩]
  | _, _ => []

/-- A column as it is read back, with the type that is known in its table. -/
def Scope.readBack (scope : Scope) (table : Option String) (c : Column) : Column :=
  (scope.typed (c.originsIn table).head? (.named c.name)).withOrigins (c.originsIn table)

theorem Scope.itemColumns_itemTokens {scope : Scope} {table : Option String} {c : Column}
    (hreads : scope.usage.reads = table.toList) (hne : c.name ≠ "")
    (htrim : Text.trim c.name = c.name)
    (horigin : ∀ o, c.firstOrigin? = some o → ∃ id, table = some id ∧
      scope.index.Spells id o.column ∧ Text.trim o.column = o.column) (position : Nat) :
    scope.itemColumns (c.itemTokens table.isNone) position = [scope.readBack table c] := by
  unfold Column.itemTokens readBack Column.originsIn
  cases hfirst : c.firstOrigin? with
  | none =>
    have hword : (Token.word "NULL").isWord = true := rfl
    simp only
    rw [itemColumns_marked hword hne htrim, columnAs, origins_null]
  | some o =>
    obtain ⟨id, rfl, hspells, hcolumn⟩ := horigin o hfirst
    have horigins := origins_token hreads hspells hcolumn
    have hword := Identifier.token_isWord o.column
    simp only [Option.isNone_some, Origin.tokens, Bool.false_eq_true, if_false]
    split
    · rename_i hname
      rw [itemColumns_single hword horigins, eq_of_beq hname]
      rfl
    · rw [List.singleton_append, itemColumns_marked hword hne htrim, columnAs, horigins]

theorem Scope.readBack_name (scope : Scope) (table : Option String) (c : Column) :
    (scope.readBack table c).name = c.name := by
  rw [readBack, Column.withOrigins_name, typed_name, Column.named]

theorem Scope.nameKeys_readBack (scope : Scope) (table : Option String) (columns : List Column) :
    nameKeys (columns.map (scope.readBack table)) = nameKeys columns := by
  simp [nameKeys, Scope.readBack_name]

theorem Scope.flatMap_itemColumns {α : Type} (scope : Scope) {l : List α}
    (item : α → List Token) (read : α → List Column)
    (h : ∀ a ∈ l, ∀ position, scope.itemColumns (item a) position = read a) :
    ((l.map item).zipIdx.flatMap fun (ts, position) => scope.itemColumns ts position) =
      l.flatMap read := by
  generalize 0 = start
  induction l generalizing start with
  | nil => rfl
  | cons a l ih =>
    have ha := h a (by simp) start
    have htail := ih (fun b hb => h b (List.mem_cons_of_mem a hb)) (start + 1)
    rw [List.map_cons, List.zipIdx_cons, List.flatMap_cons, htail]
    simp only [ha, List.flatMap_cons]

theorem declaredColumns?_viewTokens (id : String) (columns : List Column) :
    declaredColumns? (viewTokens id columns) = none := by
  have hdot : (Token.word "AS").isMark '.' = false := by decide
  have hname := Identifier.qualifiedName?_idTokens id
    (.word "AS" :: .word "SELECT" ::
      (listTokens columns ++ sourceTokens (writtenTable? columns)))
    (by
      intro t ht
      obtain rfl := Option.some.inj ht
      exact hdot)
  have hgroup : ∀ rest, group? (.word "AS" :: rest) = none := fun _ => rfl
  have hview : viewTokens id columns = .word "CREATE" :: .word "VIEW" ::
      (Identifier.idTokens id ++ .word "AS" :: .word "SELECT" ::
        (listTokens columns ++ sourceTokens (writtenTable? columns))) := by
    simp [viewTokens, headerTokens]
  have hheader : findHeader? (Token.is .SELECT) (fun t => if t.is .VIEW then some () else none)
      (viewTokens id columns) = some ((), Identifier.idTokens id ++ .word "AS" ::
        .word "SELECT" :: (listTokens columns ++ sourceTokens (writtenTable? columns))) := by
    rw [hview]
    exact findHeader?_create (by decide) (by decide) (by decide) _
  unfold declaredColumns?
  rw [hheader]
  simp [hname, hgroup]

/-! ## The round trip -/

/-- The table of the first column that has an origin. -/
def sourceTable? (columns : List Column) : Option String :=
  (columns.filterMap Column.firstOrigin?).head?.map Origin.table

/-- Columns that a written view keeps: their names are distinct and read as they are, and their
origins are columns of one table that the index spells as they do, if it knows them. -/
structure KeptByView (index : Index) (columns : List Column) : Prop where
  nonempty : columns ≠ []
  named : ∀ c ∈ columns, c.name ≠ "" ∧ Text.trim c.name = c.name
  distinct : (nameKeys columns).Nodup
  sourced : ∀ table ∈ sourceTable? columns, Identifier.IsReadable table ∧
    (index.idOf? table = none ∨ index.idOf? table = some table)
  spelled : ∀ c ∈ columns, ∀ o ∈ c.firstOrigin?, ∀ table ∈ sourceTable? columns,
    Text.equalIgnoringCase o.table table = true ∧ Text.trim o.column = o.column ∧
      index.Spells table o.column

instance (index : Index) (columns : List Column) : Decidable (KeptByView index columns) :=
  decidable_of_iff
    (columns ≠ [] ∧ (∀ c ∈ columns, c.name ≠ "" ∧ Text.trim c.name = c.name) ∧
      (nameKeys columns).Nodup ∧
      (∀ table ∈ sourceTable? columns, Identifier.IsReadable table ∧
        (index.idOf? table = none ∨ index.idOf? table = some table)) ∧
      ∀ c ∈ columns, ∀ o ∈ c.firstOrigin?, ∀ table ∈ sourceTable? columns,
        Text.equalIgnoringCase o.table table = true ∧ Text.trim o.column = o.column ∧
          index.Spells table o.column)
    ⟨fun ⟨nonempty, named, distinct, sourced, spelled⟩ =>
        ⟨nonempty, named, distinct, sourced, spelled⟩,
      fun h => ⟨h.nonempty, h.named, h.distinct, h.sourced, h.spelled⟩⟩

namespace KeptByView

variable {index : Index} {columns : List Column}

theorem sourceTable?_of_firstOrigin? {c : Column} {o : Origin} (hc : c ∈ columns)
    (ho : c.firstOrigin? = some o) : ∃ table, sourceTable? columns = some table := by
  have hmem : o ∈ columns.filterMap Column.firstOrigin? := List.mem_filterMap.mpr ⟨c, hc, ho⟩
  unfold sourceTable?
  cases h : columns.filterMap Column.firstOrigin? with
  | nil => simp [h] at hmem
  | cons first rest => exact ⟨first.table, rfl⟩

theorem writtenTable?_eq (h : KeptByView index columns) :
    writtenTable? columns = sourceTable? columns := by
  have hspelled := h.spelled
  unfold writtenTable?
  unfold sourceTable? at hspelled ⊢
  cases horigins : columns.filterMap Column.firstOrigin? with
  | nil => rfl
  | cons first rest =>
    rw [horigins] at hspelled
    have hall : rest.all (fun o => Text.equalIgnoringCase o.table first.table) = true := by
      rw [List.all_eq_true]
      intro o ho
      have hmem : o ∈ columns.filterMap Column.firstOrigin? := by
        rw [horigins]
        exact List.mem_cons_of_mem first ho
      obtain ⟨c, hc, hfirst⟩ := List.mem_filterMap.mp hmem
      exact (hspelled c hc o hfirst first.table rfl).1
    rw [commonTable?, if_pos hall]
    rfl

theorem reads_of_default (h : KeptByView index columns) {defaultSchema : Option String}
    (hdefault : ∀ table ∈ sourceTable? columns,
      defaultSchema = none ∨ (Identifier.idParts table).length = 2) (id : String) :
    (Usage.ofTokens index defaultSchema (viewTokens id columns)).reads =
      (sourceTable? columns).toList := by
  rw [← h.writtenTable?_eq]
  apply reads_viewTokens
  intro table htable
  rw [h.writtenTable?_eq] at htable
  obtain ⟨hreadable, hid⟩ := h.sourced table htable
  refine ⟨hreadable, hdefault table htable, ?_⟩
  rcases hid with hid | hid <;> simp [hid]

theorem reads_eq (h : KeptByView index columns) (id : String) :
    (Usage.ofTokens index none (viewTokens id columns)).reads = (sourceTable? columns).toList :=
  h.reads_of_default (fun _ _ => .inl rfl) id

/-- The columns that are resolved are those that were written, if the view reads their table. -/
theorem outputColumns_of_reads (h : KeptByView index columns) {usage : Usage}
    (hreads : usage.reads = (sourceTable? columns).toList) (id : String) :
    Scope.outputColumns ⟨usage, index⟩ (outputItems (viewTokens id columns)) =
      columns.map (Scope.readBack ⟨usage, index⟩ (sourceTable? columns)) := by
  let scope : Scope := ⟨usage, index⟩
  have hitem : ∀ c ∈ columns, ∀ position,
      scope.itemColumns (c.itemTokens (sourceTable? columns).isNone) position =
        [scope.readBack (sourceTable? columns) c] := by
    intro c hc position
    obtain ⟨hne, htrim⟩ := h.named c hc
    apply Scope.itemColumns_itemTokens hreads hne htrim
    intro o ho
    obtain ⟨table, htable⟩ := sourceTable?_of_firstOrigin? hc ho
    obtain ⟨-, hcolumn, hspells⟩ := h.spelled c hc o ho table htable
    exact ⟨table, htable, hspells, hcolumn⟩
  have hitems := scope.flatMap_itemColumns _ (fun c => [scope.readBack _ c]) hitem
  rw [← List.map_eq_flatMap] at hitems
  rw [Scope.outputColumns, outputItems_viewTokens id h.nonempty, h.writtenTable?_eq, hitems]
  apply uniqueNames_of_nodup
  rw [Scope.nameKeys_readBack]
  exact h.distinct

theorem outputColumns_eq (h : KeptByView index columns) (id : String) :
    let scope : Scope := ⟨Usage.ofTokens index none (viewTokens id columns), index⟩
    scope.outputColumns (outputItems (viewTokens id columns)) =
      columns.map (scope.readBack (sourceTable? columns)) :=
  h.outputColumns_of_reads (h.reads_eq id) id

end KeptByView

/-- What a column that is read has of the one that was written: its name, and its origins in the
table that is read. -/
structure ReadsBack (table : Option String) (c read : Column) : Prop where
  name : read.name = c.name
  origins : read = read.withOrigins (c.originsIn table)

theorem Scope.readsBack_readBack (scope : Scope) (table : Option String) (c : Column) :
    ReadsBack table c (scope.readBack table c) where
  name := scope.readBack_name table c
  origins := by simp [readBack]

/-- A written view is read back as the columns that it was written from, and it reads the table of
their origins. -/
theorem readView_writeView {g : Catalog} {columns : List Column} (id : String)
    (h : KeptByView g.index columns) :
    List.Forall₂ (ReadsBack (sourceTable? columns)) columns
        (readView g.index none none (writeView id columns)).columns ∧
      (readView g.index none none (writeView id columns)).referencedTables =
        (sourceTable? columns).toList := by
  have hcolumns := h.outputColumns_eq id
  have hreads := h.reads_eq id
  have hnodup : ∀ scope : Scope,
      (nameKeys (columns.map (scope.readBack (sourceTable? columns)))).Nodup := by
    intro scope
    rw [Scope.nameKeys_readBack]
    exact h.distinct
  unfold readView
  simp only [sqlTokens_writeView id h.nonempty, declaredColumns?_viewTokens, hcolumns, hreads,
    Option.getD_none, rename, and_true]
  rw [uniqueNames_of_nodup (hnodup _), List.forall₂_map_right_iff]
  exact List.forall₂_same.mpr fun c _ => Scope.readsBack_readBack _ _ c

/-- Names that need brackets or spell keywords, and tables in another case, are kept. -/
theorem readView_writeView_bracketed :
    let table : Table := ⟨"Order Lines.FROM", "FROM", "Order Lines",
      [.named "SELECT", .named "a]b.c"]⟩
    let g : Catalog := { Catalog.empty with tables := [table] }
    let columns : List Column :=
      [(Column.named "SELECT").withOrigins [⟨"Order Lines.FROM", "SELECT"⟩], .named "-- NULL",
        (Column.named "next").withOrigins [⟨"ORDER LINES.from", "a]b.c"⟩]]
    KeptByView g.index columns ∧
      List.Forall₂ (ReadsBack (some "Order Lines.FROM")) columns
        (readView g.index none none (writeView "dbo.v" columns)).columns ∧
      (readView g.index none none (writeView "dbo.v" columns)).referencedTables =
        ["Order Lines.FROM"] := by
  intro table g columns
  have hkept : KeptByView g.index columns := by decide +kernel
  exact ⟨hkept, readView_writeView "dbo.v" hkept⟩

end Provenance
