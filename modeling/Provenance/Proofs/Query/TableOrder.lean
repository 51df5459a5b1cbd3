import Mathlib.Data.List.Find
import Provenance.Proofs.Query.Reaches
import Provenance.Proofs.Query.References
import Provenance.Proofs.Query.SelectStatement
import Provenance.Proofs.Query.Subqueries

/-!
# The order of the tables of a statement

The first table keeps a name and the last one an alias, and tables are listed as they appear. Where
no two tables share an alias or a short name none of this shows in the columns of a statement: they
are the same for every order of its tables.
-/

namespace Provenance

/-- The first column of a relation that has a name, in any ASCII case. -/
def Table.column? (column : String) (t : Table) : Option Column :=
  t.columns.find? fun c => Text.equalIgnoringCase c.name column

/-- The origin of a column in a relation, if it has one of that name. -/
def Table.origin? (column : String) (t : Table) : Option Origin :=
  (t.column? column).map fun c => ⟨t.id, c.name⟩

/-- A relation of a catalog as a statement names it, with an alias. -/
structure AliasedRelation where
  table : Table
  /-- `AS`, if it is written. -/
  mark? : Option Token
  aliasToken : Token

namespace AliasedRelation

def tokens (r : AliasedRelation) : List Token :=
  Identifier.idTokens r.table.id ++ (r.mark?.toList ++ [r.aliasToken])

def aliasKey (r : AliasedRelation) : String := Text.lowerCase (Identifier.bare r.aliasToken.text)

def source (r : AliasedRelation) : FromTable := ⟨r.table, some r.aliasToken, none⟩

structure IsProper (r : AliasedRelation) : Prop where
  mark : ∀ t ∈ r.mark?, t.is .AS = true
  plain : r.aliasToken.isPlainName = true
  bare : r.mark? = none → r.aliasToken.is .AS = false

instance (r : AliasedRelation) : Decidable r.IsProper :=
  decidable_of_iff
    ((∀ t ∈ r.mark?, t.is .AS = true) ∧ r.aliasToken.isPlainName = true ∧
      (r.mark? = none → r.aliasToken.is .AS = false))
    ⟨fun ⟨mark, plain, bare⟩ => ⟨mark, plain, bare⟩, fun h => ⟨h.mark, h.plain, h.bare⟩⟩

theorem IsProper.tableUse?_tokens {r : AliasedRelation} (h : r.IsProper) (rest : List Token) :
    tableUse? .read 0 (r.tokens ++ rest) = some (r.source.use, rest) := by
  have htokens : r.tokens ++ rest =
      Identifier.idTokens r.table.id ++ (r.mark?.toList ++ r.aliasToken :: rest) := by
    simp [tokens]
  rw [htokens]
  exact tableUse?_of_alias .read 0 (Identifier.qualifiedName?_idTokens r.table.id) h.mark h.plain
    h.bare rest

end AliasedRelation

/-- A statement that selects items from relations of a catalog. -/
structure ListQuery where
  items : List (List Token)
  tables : List AliasedRelation

namespace ListQuery

def list (x : ListQuery) : List Token := [Token.mark ','].intercalate x.items

def tokens (x : ListQuery) : List Token :=
  .word "SELECT" :: (x.list ++
    .word "FROM" :: [Token.mark ','].intercalate (x.tables.map AliasedRelation.tokens))

def sources (x : ListQuery) : List FromTable := x.tables.map AliasedRelation.source

/-- Whether an item is no wildcard for all tables and names no table itself. -/
structure IsPlainItem (ts : List Token) : Prop where
  item : IsSelectItem ts
  references : ∀ t ∈ ts, t.isReference = false
  wildcard : (SelectItem.ofTokens ts).expr ≠ [.mark '*']

instance (ts : List Token) : Decidable (IsPlainItem ts) :=
  decidable_of_iff
    (IsSelectItem ts ∧ (∀ t ∈ ts, t.isReference = false) ∧
      (SelectItem.ofTokens ts).expr ≠ [.mark '*'])
    ⟨fun ⟨item, references, wildcard⟩ => ⟨item, references, wildcard⟩,
      fun h => ⟨h.item, h.references, h.wildcard⟩⟩

/-- The items are no wildcards, and the tables are relations of a catalog with different aliases. Two
tables with one short name are the same relation. -/
structure IsProper (g : Catalog) (x : ListQuery) : Prop where
  items : ∀ ts ∈ x.items, IsPlainItem ts
  first : ∀ t ∈ x.list.head?, isQuantifier t = false ∧ t.is .TOP = false
  last : awaitsSequence x.list.reverse = false
  tables : ∀ r ∈ x.tables, r.IsProper
  known : ∀ r ∈ x.tables, r.table ∈ g.relations
  aliases : (x.tables.map AliasedRelation.aliasKey).Nodup
  names : ∀ r ∈ x.tables, ∀ s ∈ x.tables,
    Text.lowerCase r.table.name = Text.lowerCase s.table.name → r.table = s.table

instance (g : Catalog) (x : ListQuery) : Decidable (x.IsProper g) :=
  decidable_of_iff
    ((∀ ts ∈ x.items, IsPlainItem ts) ∧
      (∀ t ∈ x.list.head?, isQuantifier t = false ∧ t.is .TOP = false) ∧
      awaitsSequence x.list.reverse = false ∧ (∀ r ∈ x.tables, r.IsProper) ∧
      (∀ r ∈ x.tables, r.table ∈ g.relations) ∧ (x.tables.map AliasedRelation.aliasKey).Nodup ∧
      ∀ r ∈ x.tables, ∀ s ∈ x.tables,
        Text.lowerCase r.table.name = Text.lowerCase s.table.name → r.table = s.table)
    ⟨fun ⟨items, first, last, tables, known, aliases, names⟩ =>
        ⟨items, first, last, tables, known, aliases, names⟩,
      fun h => ⟨h.items, h.first, h.last, h.tables, h.known, h.aliases, h.names⟩⟩

/-- The statement with its tables in another order. -/
def withTables (x : ListQuery) (tables : List AliasedRelation) : ListQuery := { x with tables }

theorem IsProper.withTables {g : Catalog} {x : ListQuery} (h : x.IsProper g)
    {tables : List AliasedRelation} (hperm : x.tables.Perm tables) :
    (x.withTables tables).IsProper g where
  items := h.items
  first := h.first
  last := h.last
  tables := fun r hr => h.tables r (hperm.mem_iff.mpr hr)
  known := fun r hr => h.known r (hperm.mem_iff.mpr hr)
  aliases := (hperm.map _).nodup_iff.mp h.aliases
  names := fun r hr s hs => h.names r (hperm.mem_iff.mpr hr) s (hperm.mem_iff.mpr hs)

end ListQuery

/-! ## The items -/

theorem awaitsSequence_append_singleton {ts : List Token} {t : Token}
    (h : awaitsSequence ts = false) (ht : t.spells "NEXT" = false) :
    awaitsSequence (ts ++ [t]) = false := by
  match ts with
  | [] => rfl
  | [value] => simp [awaitsSequence, ht]
  | value :: next :: ts => exact h

theorem outputItems_of_isSelectItem {items : List (List Token)}
    (hitems : ∀ ts ∈ items, IsSelectItem ts)
    (hfirst : ∀ t ∈ ([Token.mark ','].intercalate items).head?,
      isQuantifier t = false ∧ t.is .TOP = false)
    (hlast : awaitsSequence ([Token.mark ','].intercalate items).reverse = false)
    (rest : List Token) :
    outputItems (.word "SELECT" :: ([Token.mark ','].intercalate items ++
      .word "FROM" :: rest)) = items := by
  have hfrom : isQuantifier (.word "FROM") = false ∧ (Token.word "FROM").is .TOP = false := by
    decide
  have hends : takeList (([Token.mark ','].intercalate items).reverse ++ [.word "SELECT"]) 0
      (.word "FROM" :: rest) = [] :=
    takeList_of_endsList (by decide) (by decide)
      (awaitsSequence_append_singleton hlast (by decide))
  have hlist := takeList_joined_items hitems [.word "SELECT"] (.word "FROM" :: rest)
  rw [hends, List.append_nil] at hlist
  apply outputItems_of_selectList _ fun ts hts => (hitems ts hts).piece
  rw [← List.nil_append (Token.word "SELECT" :: _),
    selectList_of_head rfl (by simp [outside]) (by decide)]
  · exact hlist
  · intro t ht
    rw [List.head?_append] at ht
    rcases Option.or_eq_some_iff.mp ht with ht | ⟨-, ht⟩
    · exact hfirst t ht
    · exact Option.some.inj ht ▸ hfrom

/-! ## The mentions -/

theorem tableUses_append (ms ms' : List Mention) :
    tableUses (ms ++ ms') = tableUses ms ++ tableUses ms' := List.filterMap_append

theorem tableUses_commonTables (ts : List Token) : tableUses (commonTables ts) = [] := by
  rw [List.eq_nil_iff_forall_not_mem]
  intro u hu
  exact not_mem_commonTables u ts (Usage.mem_tableUses.mp hu)

theorem mentionsAt_of_not_isReference {t : Token} (h : t.isReference = false) (depth : Nat)
    (rest : List Token) :
    ∃ ms, tableUses ms = [] ∧ mentionsAt depth t rest = (ms, rest) := by
  cases hwith : t.is .WITH with
  | false =>
    refine ⟨[], rfl, mentionsAt_of_isQuiet ?_ depth rest⟩
    rw [Token.isQuiet, h, hwith]
    rfl
  | true =>
    refine ⟨commonTables rest, tableUses_commonTables rest, ?_⟩
    rw [mentionsAt, beq_iff_eq.mp hwith]

theorem tableUses_mentions_append (level : Nat) {depth : Nat} {ts : List Token}
    (href : ∀ t ∈ ts, t.isReference = false) (h : balancedFrom depth ts = true)
    (rest : List Token) :
    tableUses (mentions (level + depth) (ts ++ rest)) = tableUses (mentions level rest) := by
  induction ts generalizing depth with
  | nil =>
    obtain rfl : depth = 0 := by simpa [balancedFrom] using h
    rfl
  | cons t ts ih =>
    have htail := fun u hu => href u (List.mem_cons_of_mem t hu)
    obtain ⟨ms, huses, hat⟩ :=
      mentionsAt_of_not_isReference (href t (by simp)) (level + depth) (ts ++ rest)
    rw [List.cons_append, mentions, hat, tableUses_append, huses, List.nil_append]
    unfold balancedFrom at h
    unfold depthAfter
    split at h
    · rename_i hopen
      rw [if_pos hopen]
      exact ih htail h
    split at h
    · rename_i hopen hclose
      rw [if_neg hopen, if_pos hclose]
      cases depth with
      | zero => simp at h
      | succ outer => exact ih htail h
    · rename_i hopen hclose
      rw [if_neg hopen, if_neg hclose]
      exact ih htail h

/-! ## Names that do not depend on the order -/

/-- Uses of more than one part are resolved by their names, whatever common table expressions there
are. -/
theorem Usage.byName_of_not_isSimple {ms : List Mention} {us : List TableUse}
    (huses : tableUses ms = us) (h : ∀ u ∈ us, u.isSimple = false) (index : Index)
    (defaultSchema : Option String) :
    Usage.byName index defaultSchema ms = Usage.byName index defaultSchema (us.map .table) := by
  have hcommon : ∀ u ∈ us, (!u.namesOneOf (commonNames ms)) = true := by
    intro u hu
    rw [TableUse.namesOneOf, h u hu]
    rfl
  rw [Usage.byName_tables, Usage.byName, huses, List.filter_eq_self.mpr hcommon]

namespace ListQuery

variable {g : Catalog} {x : ListQuery}

theorem IsProper.tableUses_tokens (hx : x.IsProper g) :
    tableUses (mentions 0 x.tokens) = x.sources.map FromTable.use := by
  have hquiet : ∀ t ∈ [Token.word "SELECT"], t.isQuiet = true ∧ t.isFlat = true := by decide
  have hselect : mentions 0 x.tokens = mentions 0 (x.list ++
      .word "FROM" :: [Token.mark ','].intercalate (x.tables.map AliasedRelation.tokens)) :=
    mentions_append hquiet _
  have href : ∀ t ∈ x.list, t.isReference = false :=
    forall_mem_joined (by decide) fun ts hts => (hx.items ts hts).references
  have hbal : isBalanced x.list = true := by
    refine (isBalanced_joined (P := fun _ => True) trivial ?_ fun _ _ _ _ => trivial).1
    intro ts hts
    have hpiece := (hx.items ts hts).item.piece
    simp only [isPiece, Bool.and_eq_true] at hpiece
    exact hpiece.1.2
  rw [hselect, tableUses_mentions_append 0 href hbal, mentions_from]
  cases htables : x.tables with
  | nil =>
    simp [sources, htables, tableList_eq, tableUse?, qualifiedName?, identifier?, mentions,
      tableUses]
  | cons r rs =>
    have hends : afterMark? ',' [] = none := rfl
    have hlist := tableList_joined (List.cons_ne_nil r rs)
      (fun s hs => (hx.tables s (htables ▸ hs)).tableUse?_tokens) hends
    rw [List.append_nil] at hlist
    rw [hlist, mentions, List.append_nil, sources, htables]
    simp [tableUses, List.filterMap_map]

theorem IsProper.known_sources (hx : x.IsProper g) : ∀ r ∈ x.sources, r.table ∈ g.relations := by
  intro r hr
  obtain ⟨s, hs, rfl⟩ := List.mem_map.mp hr
  exact hx.known s hs

section Usage

variable (hg : g.IsQualified) (hx : x.IsProper g) (defaultSchema : Option String)

include hg hx

omit defaultSchema in
theorem IsProper.eq_of_lowerCase_id : ∀ id ∈ x.tables.map fun r => r.table.id,
    ∀ other ∈ x.tables.map fun r => r.table.id,
      Text.lowerCase id = Text.lowerCase other → id = other := by
  intro id hid other hother hkey
  obtain ⟨r, hr, rfl⟩ := List.mem_map.mp hid
  obtain ⟨s, hs, rfl⟩ := List.mem_map.mp hother
  rw [hg.eq_of_lowerCase_id (hx.known r hr) (hx.known s hs) hkey]

theorem IsProper.ofTokens_tokens :
    Usage.ofTokens g.index defaultSchema x.tokens =
      Usage.ofMentions g.index defaultSchema (x.sources.map fun r => .table r.use) := by
  have hsimple : ∀ u ∈ x.sources.map FromTable.use, u.isSimple = false := by
    intro u hu
    obtain ⟨r, hr, rfl⟩ := List.mem_map.mp hu
    obtain ⟨s, hs, rfl⟩ := List.mem_map.mp hr
    have hparts := hg.idParts_id (hx.known s hs)
    simp [FromTable.use, AliasedRelation.source, TableUse.isSimple, hparts]
  have hbyName := Usage.byName_of_not_isSimple hx.tableUses_tokens hsimple g.index defaultSchema
  rw [List.map_map] at hbyName
  exact Usage.ofMentions_of_byName hbyName

theorem IsProper.reads_tokens :
    (Usage.ofTokens g.index defaultSchema x.tokens).reads =
      distinctBy Text.lowerCase (x.tables.map fun r => r.table.id) := by
  have hresolved := resolved_tables hg defaultSchema hx.known_sources
  rw [hx.ofTokens_tokens hg, Usage.ofMentions]
  simp only [hresolved]
  rw [idsOf_tables (fun _ => rfl), sources, List.map_map]
  rfl

theorem IsProper.mem_reads_tokens (id : String) :
    id ∈ (Usage.ofTokens g.index defaultSchema x.tokens).reads ↔
      ∃ r ∈ x.tables, r.table.id = id := by
  rw [hx.reads_tokens hg, mem_distinctBy (hx.eq_of_lowerCase_id hg), List.mem_map]

theorem IsProper.nodup_reads_tokens :
    (Usage.ofTokens g.index defaultSchema x.tokens).reads.Nodup := by
  rw [hx.reads_tokens hg]
  exact .of_map Text.lowerCase (nodup_map_distinctBy _)

/-- A name stands for the table with that alias, or else for the first one that answers to it. -/
theorem IsProper.lookup?_tokens (name : String) :
    (Usage.ofTokens g.index defaultSchema x.tokens).bindings.lookup? name =
      ((x.tables.reverse.find? fun r => r.aliasKey == Text.lowerCase name).map
          fun r => r.table.id).or
        (((x.tables.map AliasedRelation.table).find? (Table.answersTo name)).map Table.id) := by
  have huses : x.sources.map (fun r => (⟨r.use, r.table.id⟩ : ResolvedUse)) =
      x.tables.map fun r => ⟨r.source.use, r.table.id⟩ := by
    rw [sources, List.map_map]
    rfl
  have hlast : Usage.lastDeclaring? name (x.tables.map fun r => ⟨r.source.use, r.table.id⟩) =
      (x.tables.reverse.find? fun r => r.aliasKey == Text.lowerCase name).map
        fun r => ⟨r.source.use, r.table.id⟩ := by
    have halias : ∀ r : AliasedRelation, (r.source.use.aliasName.any fun declared =>
        Text.lowerCase declared == Text.lowerCase name) = (r.aliasKey == Text.lowerCase name) :=
      fun _ => rfl
    simp only [Usage.lastDeclaring?, ← List.map_reverse, List.find?_map, Function.comp_def, halias]
  have hnamed : x.tables.find? (ResolvedUse.isNamed name ∘ fun r => ⟨r.source.use, r.table.id⟩) =
      x.tables.find? (Table.answersTo name ∘ AliasedRelation.table) := by
    apply List.find?_congr
    intro r hr
    have hknown := hx.known r hr
    rw [Function.comp_apply, Function.comp_apply, hg.answersTo_eq hknown, ResolvedUse.isNamed,
      hg.lastPart_id hknown]
  rw [hx.ofTokens_tokens hg, Usage.lookup?_ofMentions, resolved_tables hg defaultSchema
    hx.known_sources, byName_sources hg defaultSchema hx.known_sources, huses, hlast,
    List.find?_map, List.find?_map, hnamed, Option.map_map, Option.map_map, Option.map_map]
  rfl

omit defaultSchema in
theorem IsProper.eq_of_answersTo {name : String} {t u : Table}
    (ht : t ∈ x.tables.map AliasedRelation.table) (hu : u ∈ x.tables.map AliasedRelation.table)
    (htname : t.answersTo name = true) (huname : u.answersTo name = true) : t = u := by
  obtain ⟨r, hr, rfl⟩ := List.mem_map.mp ht
  obtain ⟨s, hs, rfl⟩ := List.mem_map.mp hu
  have hrknown := hx.known r hr
  have hsknown := hx.known s hs
  rw [hg.answersTo_eq hrknown, Bool.or_eq_true, beq_iff_eq, beq_iff_eq] at htname
  rw [hg.answersTo_eq hsknown, Bool.or_eq_true, beq_iff_eq, beq_iff_eq] at huname
  rcases htname with hrid | hrname <;> rcases huname with hsid | hsname
  · exact hg.eq_of_lowerCase_id hrknown hsknown (hrid.trans hsid.symm)
  · exact absurd (hrid.trans hsname.symm) (hg.lowerCase_id_ne_name hrknown hsknown)
  · exact absurd (hsid.trans hrname.symm) (hg.lowerCase_id_ne_name hsknown hrknown)
  · exact hx.names r hr s hs (hrname.trans hsname.symm)

variable {tables : List AliasedRelation} (hperm : x.tables.Perm tables)

include hperm

theorem IsProper.reads_perm :
    (Usage.ofTokens g.index defaultSchema x.tokens).reads.Perm
      (Usage.ofTokens g.index defaultSchema (x.withTables tables).tokens).reads := by
  rw [hx.reads_tokens hg, (hx.withTables hperm).reads_tokens hg]
  exact distinctBy_perm (hperm.map _) (hx.eq_of_lowerCase_id hg)

theorem IsProper.lookup?_perm (name : String) :
    (Usage.ofTokens g.index defaultSchema x.tokens).bindings.lookup? name =
      (Usage.ofTokens g.index defaultSchema (x.withTables tables).tokens).bindings.lookup? name := by
  rw [hx.lookup?_tokens hg, (hx.withTables hperm).lookup?_tokens hg]
  have haliases : x.tables.reverse.find? (fun r => r.aliasKey == Text.lowerCase name) =
      tables.reverse.find? fun r => r.aliasKey == Text.lowerCase name := by
    have hreverse := (List.reverse_perm x.tables).trans (hperm.trans (List.reverse_perm tables).symm)
    apply List.find?_eq_find?_of_perm hreverse
    rintro r ⟨hr, hralias⟩ s ⟨hs, hsalias⟩
    have hkey : r.aliasKey = s.aliasKey := (beq_iff_eq.mp hralias).trans (beq_iff_eq.mp hsalias).symm
    exact List.inj_on_of_nodup_map hx.aliases (List.mem_reverse.mp hr) (List.mem_reverse.mp hs) hkey
  have hnames : (x.tables.map AliasedRelation.table).find? (Table.answersTo name) =
      (tables.map AliasedRelation.table).find? (Table.answersTo name) := by
    apply List.find?_eq_find?_of_perm (hperm.map _)
    rintro t ⟨ht, htname⟩ u ⟨hu, huname⟩
    exact hx.eq_of_answersTo hg ht hu htname huname
  rw [haliases, hnames]
  rfl

end Usage

end ListQuery

/-! ## Columns without a qualifier -/

theorem filterMap_eq_singleton_iff {α β : Type} {f : α → Option β} {l : List α} (h : l.Nodup)
    {b : β} :
    l.filterMap f = [b] ↔ ∃ a ∈ l, f a = some b ∧ ∀ c ∈ l, (f c).isSome = true → c = a := by
  rw [List.filterMap_eq_cons_iff]
  constructor
  · rintro ⟨front, a, back, rfl, hfront, ha, hback⟩
    refine ⟨a, by simp, ha, ?_⟩
    intro c hc hsome
    rcases List.mem_append.mp hc with hc | hc
    · simp [hfront c hc] at hsome
    · rcases List.mem_cons.mp hc with rfl | hc
      · rfl
      · simp [List.filterMap_eq_nil_iff.mp hback c hc] at hsome
  · rintro ⟨a, hal, ha, hunique⟩
    obtain ⟨front, back, rfl⟩ := List.append_of_mem hal
    have hne : ∀ c, c ∈ front ∨ c ∈ back → f c = none := by
      intro c hc
      have hother : c ≠ a := by
        rintro rfl
        simp only [List.nodup_append, List.nodup_cons] at h
        rcases hc with hc | hc
        · exact h.2.2 c hc c (by simp) rfl
        · exact h.2.1.1 hc
      have hmem : c ∈ front ++ a :: back := by
        rcases hc with hc | hc <;> simp [hc]
      cases hf : f c with
      | none => rfl
      | some d => exact absurd (hunique c hmem (by simp [hf])) hother
    exact ⟨front, a, back, rfl, fun c hc => hne c (.inl hc), ha,
      List.filterMap_eq_nil_iff.mpr fun c hc => hne c (.inr hc)⟩

namespace Scope

/-- Unless one table is read, a column belongs to the only table that has it. -/
theorem unqualified?_eq_some_iff {scope : Scope} (h : ∀ id, scope.usage.reads ≠ [id])
    {column : String} {o : Origin} :
    scope.unqualified? column = some o ↔
      scope.usage.reads.filterMap (scope.ownedBy? column) = [o] := by
  unfold unqualified?
  split
  · rename_i id hreads
    exact absurd hreads (h id)
  · split
    · rename_i origin howned
      simp [howned]
    · rename_i hmany
      exact ⟨fun hnone => absurd hnone (Option.some_ne_none o).symm, fun howned => (hmany o howned).elim⟩

variable {i j : Usage} {index : Index}

theorem unqualified?_perm (h : i.reads.Perm j.reads) (column : String) :
    unqualified? ⟨i, index⟩ column = unqualified? ⟨j, index⟩ column := by
  by_cases hone : ∃ id, i.reads = [id]
  · obtain ⟨id, hi⟩ := hone
    have hj : j.reads = [id] := List.perm_singleton.mp (hi ▸ h.symm)
    rw [unqualified?, unqualified?, hi, hj]
    rfl
  · have hi : ∀ id, i.reads ≠ [id] := fun id hid => hone ⟨id, hid⟩
    have hj : ∀ id, j.reads ≠ [id] := fun id hid => hi id (List.perm_singleton.mp (hid ▸ h))
    ext o
    rw [unqualified?_eq_some_iff hi, unqualified?_eq_some_iff hj, ← List.perm_singleton,
      ← List.perm_singleton]
    have hfilter := h.filterMap (ownedBy? ⟨i, index⟩ column)
    exact ⟨hfilter.symm.trans, hfilter.trans⟩

theorem wildcard?_of_names (hqualified : qualified? ⟨i, index⟩ = qualified? ⟨j, index⟩)
    {expr : List Token} (hstar : expr ≠ [.mark '*']) :
    wildcard? ⟨i, index⟩ expr = wildcard? ⟨j, index⟩ expr := by
  unfold wildcard?
  split
  · rfl
  · rename_i star front hexpr
    cases hmark : star.isMark '*' with
    | false => rfl
    | true =>
      have hfront : front.isEmpty = false := by
        rw [List.isEmpty_eq_false_iff]
        rintro rfl
        have hsingle : expr = [star] := by simpa using congrArg List.reverse hexpr
        obtain rfl := Token.eq_mark_of_isMark hmark
        exact hstar hsingle
      simp only [hfront, hqualified]
      rfl

/-- An item other than `*` depends on the names that it uses only. -/
theorem itemColumns_of_names (hlookup : ∀ name, i.bindings.lookup? name = j.bindings.lookup? name)
    (hunqualified : ∀ column, unqualified? ⟨i, index⟩ column = unqualified? ⟨j, index⟩ column)
    {ts : List Token} (hstar : (SelectItem.ofTokens ts).expr ≠ [.mark '*']) (position : Nat) :
    itemColumns ⟨i, index⟩ ts position = itemColumns ⟨j, index⟩ ts position := by
  have hqualified : qualified? ⟨i, index⟩ = qualified? ⟨j, index⟩ := by
    funext qualifier
    exact hlookup _
  have horigin : origin? ⟨i, index⟩ = origin? ⟨j, index⟩ := by
    funext names
    unfold origin?
    simp only [hunqualified, hqualified]
    rfl
  have horigins : origins ⟨i, index⟩ = origins ⟨j, index⟩ := by
    funext expr
    rw [origins, origins, horigin]
  have htyped : typed ⟨i, index⟩ = typed ⟨j, index⟩ := rfl
  have hexpand : expand ⟨i, index⟩ = expand ⟨j, index⟩ := rfl
  have hwildcard := wildcard?_of_names hqualified hstar
  unfold itemColumns outputColumn
  simp only [hwildcard, horigins, htyped, hexpand]

end Scope

namespace ListQuery

section Columns

variable {g : Catalog} {x : ListQuery} (hg : g.IsQualified) (hx : x.IsProper g)
  (defaultSchema : Option String)

theorem IsProper.outputItems_tokens (hx : x.IsProper g) : outputItems x.tokens = x.items :=
  outputItems_of_isSelectItem (fun ts hts => (hx.items ts hts).item) hx.first hx.last _

include hg hx

/-- Where different relations are read, a column without a qualifier belongs to the only one that has
it. -/
theorem IsProper.origin?_tokens
    (hmany : ∃ r ∈ x.tables, ∃ s ∈ x.tables, r.table ≠ s.table) (column : String) (o : Origin) :
    (Scope.mk (Usage.ofTokens g.index defaultSchema x.tokens) g.index).origin? [column] = some o ↔
      ∃ r ∈ x.tables, r.table.origin? column = some o ∧
        ∀ s ∈ x.tables, (s.table.column? column).isSome = true → s.table = r.table := by
  have hmem := hx.mem_reads_tokens hg defaultSchema
  have hnodup := hx.nodup_reads_tokens hg defaultSchema
  have hid : ∀ r ∈ x.tables, ∀ s ∈ x.tables, r.table.id = s.table.id → r.table = s.table :=
    fun r hr s hs hsame =>
      hg.eq_of_lowerCase_id (hx.known r hr) (hx.known s hs) (congrArg Text.lowerCase hsame)
  have hother : ∀ id, (Usage.ofTokens g.index defaultSchema x.tokens).reads ≠ [id] := by
    intro id hone
    obtain ⟨r, hr, s, hs, hne⟩ := hmany
    have hr' := (hmem _).mpr ⟨r, hr, rfl⟩
    have hs' := (hmem _).mpr ⟨s, hs, rfl⟩
    rw [hone, List.mem_singleton] at hr' hs'
    exact hne (hid r hr s hs (hr'.trans hs'.symm))
  have howned : ∀ usage, ∀ r ∈ x.tables,
      Scope.ownedBy? ⟨usage, g.index⟩ column r.table.id = r.table.origin? column := by
    intro usage r hr
    rw [Scope.ownedBy?, Index.columnOf?, hg.columnsOf?_id (hx.known r hr)]
    rfl
  have hunqualified : ∀ scope : Scope, scope.origin? [column] = scope.unqualified? column :=
    fun _ => rfl
  rw [hunqualified, Scope.unqualified?_eq_some_iff hother, filterMap_eq_singleton_iff hnodup]
  constructor
  · rintro ⟨id, hread, ho, hunique⟩
    obtain ⟨r, hr, rfl⟩ := (hmem id).mp hread
    refine ⟨r, hr, (howned _ r hr).symm.trans ho, ?_⟩
    intro s hs hcolumn
    apply hid s hs r hr
    apply hunique _ ((hmem _).mpr ⟨s, hs, rfl⟩)
    rwa [howned _ s hs, Table.origin?, Option.isSome_map]
  · rintro ⟨r, hr, ho, hunique⟩
    refine ⟨r.table.id, (hmem _).mpr ⟨r, hr, rfl⟩, (howned _ r hr).trans ho, ?_⟩
    intro id hread hsome
    obtain ⟨s, hs, rfl⟩ := (hmem id).mp hread
    rw [howned _ s hs, Table.origin?, Option.isSome_map] at hsome
    rw [hunique s hs hsome]

/-- The columns of a statement are the same for every order of its tables. Where different relations
are read, a column without a qualifier is attributed exactly if one of them has it, and then to
that one. -/
theorem selectedColumns_perm {tables : List AliasedRelation} (hperm : x.tables.Perm tables)
    {sql sql' : String} (hsql : sqlTokens sql = x.tokens)
    (hsql' : sqlTokens sql' = (x.withTables tables).tokens) :
    selectedColumns g.index defaultSchema sql = selectedColumns g.index defaultSchema sql' ∧
      ((∃ r ∈ x.tables, ∃ s ∈ x.tables, r.table ≠ s.table) → ∀ column o,
        (Scope.mk (Usage.ofTokens g.index defaultSchema (sqlTokens sql)) g.index).origin? [column] =
            some o ↔
          ∃ r ∈ x.tables, r.table.origin? column = some o ∧
            ∀ s ∈ x.tables, (s.table.column? column).isSome = true → s.table = r.table) := by
  constructor
  · have hitems := (hx.withTables hperm).outputItems_tokens
    rw [selectedColumns, selectedColumns, hsql, hsql', hx.outputItems_tokens, hitems,
      Scope.outputColumns, Scope.outputColumns]
    refine congrArg uniqueNames (List.flatMap_congr ?_)
    rintro ⟨ts, position⟩ hmem
    have hts : ts ∈ x.items := List.fst_mem_of_mem_zipIdx hmem
    exact Scope.itemColumns_of_names (hx.lookup?_perm hg defaultSchema hperm)
      (Scope.unqualified?_perm (hx.reads_perm hg defaultSchema hperm)) (hx.items ts hts).wildcard
      position
  · intro hmany column o
    rw [hsql]
    exact hx.origin?_tokens hg defaultSchema hmany column o

end Columns

/-- Three tables of which two are one relation, named by its short name and by aliases. -/
theorem selectedColumns_perm_orders :
    let orders : Table := ⟨"dbo.Orders", "Orders", "dbo", [.named "Id", .named "Note"]⟩
    let lines : Table := ⟨"sales.Lines", "Lines", "sales", [.named "ID", .named "Sku"]⟩
    let g : Catalog := { Catalog.empty with tables := [orders, lines] }
    let first : AliasedRelation := ⟨orders, some (.word "AS"), .word "o"⟩
    let second : AliasedRelation := ⟨lines, none, .word "l"⟩
    let third : AliasedRelation := ⟨orders, none, .word "p"⟩
    let x : ListQuery :=
      ⟨[[.word "sku", .word "s"], [.word "id"], [.word "l", .mark '.', .mark '*'],
        [.word "orders", .mark '.', .word "id"]], [first, second, third]⟩
    let sql := "SELECT sku s, id, l.*, orders.id FROM dbo.Orders AS o, sales.Lines l, dbo.Orders p"
    let sql' := "SELECT sku s, id, l.*, orders.id FROM dbo.Orders p, sales.Lines l, dbo.Orders AS o"
    let scope : Scope := ⟨Usage.ofTokens g.index none (sqlTokens sql), g.index⟩
    g.IsQualified ∧ x.IsProper g ∧ x.tables.Perm [third, second, first] ∧
      sqlTokens sql = x.tokens ∧
      sqlTokens sql' = (x.withTables [third, second, first]).tokens ∧
      (selectedColumns g.index none sql).map (fun c => (c.name, c.sources)) =
        [("s", [⟨"sales.Lines", "Sku"⟩]), ("id", []), ("ID_2", [⟨"sales.Lines", "ID"⟩]),
          ("Sku", [⟨"sales.Lines", "Sku"⟩]), ("Id_3", [⟨"dbo.Orders", "Id"⟩])] ∧
      selectedColumns g.index none sql = selectedColumns g.index none sql' ∧
      scope.origin? ["sku"] = some ⟨"sales.Lines", "Sku"⟩ := by
  intro orders lines g first second third x sql sql' scope
  have hg : g.IsQualified := by decide +kernel
  have hx : x.IsProper g := by decide +kernel
  have hperm : x.tables.Perm [third, second, first] := (List.reverse_perm x.tables).symm
  have hsql : sqlTokens sql = x.tokens := (sqlTokens_ofList _).trans (by decide +kernel)
  have hsql' : sqlTokens sql' = (x.withTables [third, second, first]).tokens :=
    (sqlTokens_ofList _).trans (by decide +kernel)
  obtain ⟨hsame, horigin⟩ := selectedColumns_perm hg hx none hperm hsql hsql'
  have hmany : ∃ r ∈ x.tables, ∃ s ∈ x.tables, r.table ≠ s.table := by decide +kernel
  have hcolumns : (selectedColumns g.index none sql).map (fun c => (c.name, c.sources)) =
      [("s", [⟨"sales.Lines", "Sku"⟩]), ("id", []), ("ID_2", [⟨"sales.Lines", "ID"⟩]),
        ("Sku", [⟨"sales.Lines", "Sku"⟩]), ("Id_3", [⟨"dbo.Orders", "Id"⟩])] := by
    rw [selectedColumns, hsql]
    decide +kernel
  exact ⟨hg, hx, hperm, hsql, hsql', hcolumns, hsame,
    (horigin hmany "sku" _).mpr (by decide +kernel)⟩

end ListQuery

end Provenance
