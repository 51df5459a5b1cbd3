import Provenance.Proofs.Definition.View
import Provenance.Proofs.Query.ColumnChains
import Provenance.Proofs.Query.Subqueries

/-!
# Scalar subqueries

A subquery in a select list is searched for columns like any expression. The table behind its `FROM`
is told from a column by that keyword, and so is the alias of the table by an `AS`. An alias without
`AS` has the table in front of it and is read as a column of the tables in scope.
-/

namespace Provenance

/-- An item whose expression selects from one table. -/
structure ScalarSubquery where
  select : Token
  expr : List Token
  clause : Token
  table : AliasedTable
  mark : Token
  name : Token

namespace ScalarSubquery

def tokens (x : ScalarSubquery) : List Token :=
  .mark '(' :: x.select :: (x.expr ++ x.clause :: (x.table.tokens ++ [.mark ')']))

def item (x : ScalarSubquery) : List Token := x.tokens ++ [x.mark, x.name]

/-- The words are the keywords of a subquery and of an item with an alias, and no full stop at an
end of the expression joins it to them. -/
structure IsProper (x : ScalarSubquery) : Prop where
  select : x.select.spells "SELECT" = true
  expr : beginsWhole x.expr = true ∧ endsWhole x.expr.reverse = true
  clause : x.clause.spells "FROM" = true
  table : x.table.name.IsProper
  tableMark : ∀ t ∈ x.table.mark?, t.spells "AS" = true
  tableAlias : x.table.aliasToken.isName = true
  mark : x.mark.is .AS = true
  name : x.name.isWord = true ∧ x.name.isVariable = false ∧ Identifier.bare x.name.text ≠ ""

instance (x : ScalarSubquery) : Decidable x.IsProper :=
  decidable_of_iff
    (x.select.spells "SELECT" = true ∧
      (beginsWhole x.expr = true ∧ endsWhole x.expr.reverse = true) ∧
      x.clause.spells "FROM" = true ∧ x.table.name.IsProper ∧
      (∀ t ∈ x.table.mark?, t.spells "AS" = true) ∧ x.table.aliasToken.isName = true ∧
      x.mark.is .AS = true ∧
      (x.name.isWord = true ∧ x.name.isVariable = false ∧ Identifier.bare x.name.text ≠ ""))
    ⟨fun ⟨select, expr, clause, table, tableMark, tableAlias, mark, name⟩ =>
        ⟨select, expr, clause, table, tableMark, tableAlias, mark, name⟩,
      fun h => ⟨h.select, h.expr, h.clause, h.table, h.tableMark, h.tableAlias, h.mark, h.name⟩⟩

/-- Whether the alias of the table is read as a column: no `AS` stands in front of it, and neither
is it a variable or a system value nor is the last part of the name in front of it a word that keeps
a column from standing behind it. -/
def readsAlias (x : ScalarSubquery) : Bool :=
  x.table.mark?.isNone && !x.table.aliasToken.isVariable &&
    !x.table.aliasToken.beginsWith (· == '$') &&
    !([Keyword.AS, .FROM, .JOIN, .APPLY].any x.table.name.last.is) &&
    !x.table.name.last.spells "COLLATE" &&
    !(x.table.name.last.spells "CURRENT" && x.table.aliasToken.spells "ROW")

/-- The origin for which the alias of the table is taken. -/
def aliasOrigin? (scope : Scope) (x : ScalarSubquery) : Option Origin :=
  if x.readsAlias then scope.unqualified? x.table.aliasName else none

/-- The origins of the expression, and behind them that of the alias if it is another one. -/
def sources (scope : Scope) (x : ScalarSubquery) : List Origin :=
  scope.origins x.expr ++ (x.aliasOrigin? scope).toList.filter fun o =>
    o.key ∉ (scope.origins x.expr).map Origin.key

variable {x : ScalarSubquery}

/-! ## The table and its alias -/

theorem columnNames_table {n : QualifiedName} (hn : n.IsProper) {clause : Token}
    (hclause : clause.is .FROM = true) {rest : List Token} (hrest : chainTail rest = ([], rest))
    (before : List Token) :
    columnNames (clause :: before) (n.tokens ++ rest) =
      columnNames (n.tokens.reverse ++ clause :: before) rest := by
  have hfirst := Token.isWord_of_isName hn.first
  have hfurther : ∀ t ∈ n.further, t.isWord = true := fun t ht => (hn.further t ht).1
  have htail := QualifiedName.chainTail_further_append hfurther hrest
  have hnone : (Chain.mk (clause :: before) n.first
      ((n.further.flatMap fun t => [.mark '.', t]) ++ rest)).columnName = [] := by
    simp [Chain.columnName, Chain.isColumn, Chain.excludedBy, hclause]
  rw [QualifiedName.tokens, List.cons_append, columnNames_of_isWord hfirst, hnone]
  simp only [Chain.passed, Chain.further, Chain.after, htail, List.nil_append]

/-- No phrase goes on from a table to its alias but a collation and `CURRENT ROW`. -/
theorem isPhraseWord_alias {last u s : Token} (hat : u.spells "AT" = false)
    (hvalue : u.spells "VALUE" = false) (before : List Token) :
    isPhraseWord (last :: u :: before) s [.mark ')'] =
      (last.spells "COLLATE" || last.spells "CURRENT" && s.spells "ROW") := by
  have hclose : ∀ w, (Token.mark ')').spells w = false := fun _ => rfl
  simp [isPhraseWord, beginsWithWords, hclose, hat, hvalue]

/-- The words of the names that stand for the alias of the table. -/
def aliasNames (x : ScalarSubquery) : List (List String) :=
  if x.readsAlias then [[x.table.aliasName]] else []

theorem columnNames_last {t : Token} (h : t.isWord = true) (before : List Token) :
    columnNames before [t, .mark ')'] = (Chain.mk before t [.mark ')']).columnName := by
  have hafter : (Chain.mk before t [.mark ')']).after = [.mark ')'] := rfl
  rw [columnNames_of_isWord h, hafter, columnNames_of_isMark rfl, columnNames_nil, List.append_nil]

/-- Directly behind the table its alias is a column unless something keeps it from that. -/
theorem IsProper.columnName_alias (h : x.IsProper) (hmark : x.table.mark? = none) {u : Token}
    (hat : u.spells "AT" = false) (hvalue : u.spells "VALUE" = false) (before : List Token) :
    (Chain.mk (x.table.name.last :: u :: before) x.table.aliasToken [.mark ')']).columnName =
      x.aliasNames := by
  have hreserved := Token.not_isReserved_of_isName h.tableAlias
  have hnumber := Token.not_isNumber_of_isName h.tableAlias
  have hopen : x.table.name.last.isMark '(' = false :=
    Token.not_isMark_of_isWord h.table.isWord_last '('
  have hcontinued : (Chain.mk (x.table.name.last :: u :: before) x.table.aliasToken
      [.mark ')']).isContinued = false := rfl
  have hcolumn : (Chain.mk (x.table.name.last :: u :: before) x.table.aliasToken
      [.mark ')']).isColumn = x.readsAlias := by
    simp only [Chain.isColumn, readsAlias, isPhraseWord_alias hat hvalue, hreserved, hnumber,
      hcontinued, hmark, Chain.excludedBy, hopen, List.any_cons, List.any_nil, Bool.false_and,
      Bool.or_false, Bool.not_or, Option.isNone_none, Bool.true_and]
    ac_rfl
  rw [Chain.columnName, hcolumn, aliasNames]
  rfl

theorem IsProper.columnNames_alias (h : x.IsProper) (before : List Token) :
    columnNames (x.table.name.tokens.reverse ++ x.clause :: before)
        (x.table.mark?.toList ++ [x.table.aliasToken, .mark ')']) = x.aliasNames := by
  have hword := Token.isWord_of_isName h.tableAlias
  cases hmark : x.table.mark? with
  | some mark =>
    have hspells : mark.spells "AS" = true := h.tableMark mark hmark
    have has : mark.is .AS = true := (Token.is_eq_of_spells hspells .AS).trans (by decide)
    have hreserved : mark.isReserved = true := Token.isReserved_of_spells (by decide) hspells
    have hstop : chainTail [x.table.aliasToken, .mark ')'] =
        ([], [x.table.aliasToken, .mark ')']) :=
      chainTail_of_head (by simpa using Token.not_isMark_of_isWord hword '.')
    have hnone : x.readsAlias = false := by simp [readsAlias, hmark]
    rw [Option.toList_some, List.cons_append, List.nil_append,
      columnNames_of_isReserved hreserved hstop, columnNames_last hword, aliasNames, hnone]
    simp [Chain.columnName, Chain.isColumn, Chain.excludedBy, has]
  | none =>
    have hfront : ∃ u more, x.table.name.tokens.reverse ++ x.clause :: before =
        x.table.name.last :: u :: more ∧ u.spells "AT" = false ∧ u.spells "VALUE" = false := by
      rcases x.table.name.tokens_cases with htokens | ⟨front, htokens⟩
      · refine ⟨x.clause, before, by simp [htokens], ?_, ?_⟩
        · exact Token.not_spells_of_spells h.clause (by decide)
        · exact Token.not_spells_of_spells h.clause (by decide)
      · exact ⟨.mark '.', front.reverse ++ x.clause :: before, by simp [htokens], rfl, rfl⟩
    obtain ⟨u, more, hbefore, hat, hvalue⟩ := hfront
    rw [hbefore, Option.toList_none, List.nil_append, columnNames_last hword,
      h.columnName_alias hmark hat hvalue]

/-! ## The item -/

/-- The columns of a subquery are those of its expression, and behind them the alias of its table
where that is read as one. -/
theorem IsProper.columnNames_tokens (h : x.IsProper) :
    columnNames [] x.tokens = columnNames [] x.expr ++ x.aliasNames := by
  have hselect : x.select.hidesFront = true :=
    Token.hidesFront_of_spells h.select (by decide +kernel)
  have hclause : x.clause.isSeparate = true :=
    Token.isSeparate_of_spells h.clause (by decide +kernel)
  have hfrom : x.clause.is .FROM = true :=
    (Token.is_eq_of_spells h.clause .FROM).trans (by decide)
  obtain ⟨hbegins, hends⟩ := h.expr
  have hdot : ∀ {t : Token}, t.isWord = true → ∀ ts,
      ∀ u ∈ (t :: ts).head?, u.isMark '.' = false := by
    intro t ht ts u hu
    obtain rfl : t = u := Option.some.inj hu
    exact Token.not_isMark_of_isWord ht '.'
  have hword := Token.isWord_of_isReserved (Token.isReserved_of_isSeparate hclause)
  have htable : ∀ rest, chainTail (x.table.name.tokens ++ rest) =
      ([], x.table.name.tokens ++ rest) :=
    fun rest => chainTail_of_head (hdot (Token.isWord_of_isName h.table.first) _)
  have hrest : chainTail (x.table.mark?.toList ++ [x.table.aliasToken, .mark ')']) =
      ([], x.table.mark?.toList ++ [x.table.aliasToken, .mark ')']) := by
    apply chainTail_of_head
    cases hmark : x.table.mark? with
    | none => exact hdot (Token.isWord_of_isName h.tableAlias) _
    | some mark => exact hdot (Token.isWord_of_spells (h.tableMark mark hmark)) _
  have htokens : x.table.tokens ++ [.mark ')'] =
      x.table.name.tokens ++ (x.table.mark?.toList ++ [x.table.aliasToken, .mark ')']) := by
    simp [AliasedTable.tokens]
  rw [← List.append_nil x.expr.reverse] at hends
  rw [tokens, htokens, columnNames_of_isMark rfl,
    columnNames_cons_of_hidesFront hselect
      (beginsWhole_append hbegins (Token.not_isMark_of_isWord hword '.') _),
    columnNames_append_back hclause (htable _) hends, columnNames_table h.table hfrom hrest,
    h.columnNames_alias]

theorem IsProper.origins_tokens (h : x.IsProper) (scope : Scope) :
    scope.origins x.tokens = x.sources scope := by
  have hnames : x.aliasNames.filterMap scope.origin? = (x.aliasOrigin? scope).toList := by
    unfold aliasNames aliasOrigin?
    cases x.readsAlias with
    | false => rfl
    | true =>
      have hone : scope.origin? [x.table.aliasName] = scope.unqualified? x.table.aliasName := rfl
      cases horigin : scope.unqualified? x.table.aliasName <;> simp [hone, horigin]
  have hsingle : distinctBy Origin.key (x.aliasOrigin? scope).toList =
      (x.aliasOrigin? scope).toList := by
    cases x.aliasOrigin? scope <;> rfl
  rw [Scope.origins_eq, h.columnNames_tokens, List.filterMap_append, hnames, distinctBy_append,
    hsingle, sources]
  simp only [Scope.origins_eq, mem_map_distinctBy]

theorem IsProper.itemColumns_item (h : x.IsProper) (scope : Scope) (position : Nat) :
    scope.itemColumns x.item position =
      [scope.columnAs (Identifier.bare x.name.text) x.tokens] := by
  obtain ⟨hword, hvariable, hnamed⟩ := h.name
  have hitem : SelectItem.ofTokens x.item = ⟨some (Identifier.bare x.name.text), x.tokens⟩ := by
    have hfound : SelectItem.marked? x.item.reverse =
        some ⟨some (Identifier.bare x.name.text), x.tokens⟩ := by
      simp [item, SelectItem.marked?, SelectItem.aliased, unlessEmpty, h.mark, hword, hvariable,
        hnamed]
    rw [SelectItem.ofTokens, hfound]
    rfl
  have hwildcard : scope.wildcard? x.tokens = none := by
    have hstar : (Token.mark ')').isMark '*' = false := rfl
    simp [Scope.wildcard?, tokens, hstar]
  simp [Scope.itemColumns, hitem, hwildcard, Scope.outputColumn, Scope.outputName, Scope.columnAs]

theorem IsProper.sources_columnAs (h : x.IsProper) (scope : Scope) (name : String) :
    (scope.columnAs name x.tokens).sources = x.sources scope := by
  rw [Scope.columnAs, Column.withOrigins_sources, h.origins_tokens]

end ScalarSubquery

theorem Scope.map_sources_outputColumns (scope : Scope) (items : List (List Token)) :
    (scope.outputColumns items).map Column.sources =
      items.flatMap fun ts => (scope.itemColumns ts 0).map Column.sources := by
  have hitem : ∀ ts position, (scope.itemColumns ts position).map Column.sources =
      (scope.itemColumns ts 0).map Column.sources := by
    intro ts position
    unfold itemColumns
    cases hwildcard : scope.wildcard? (SelectItem.ofTokens ts).expr with
    | some ids => simp only [hwildcard]
    | none =>
      simp only [hwildcard, outputColumn, List.map_cons, List.map_nil, Column.withOrigins_sources]
  have hitems : items = items.zipIdx.map Prod.fst := (List.zipIdx_map_fst 0 items).symm
  rw [outputColumns, map_sources_uniqueNames, List.map_flatMap]
  conv => rhs; rw [hitems, List.flatMap_map]
  exact List.flatMap_congr fun entry _ => hitem entry.1 entry.2

namespace ScalarSubquery

variable {x : ScalarSubquery}

/-- The item has one column, whose origins are those of the expression and behind them that of the
alias of the table, if that is read as a column and is none of them. It adds nothing else to a
select list. -/
theorem sources_item (h : x.IsProper) (scope : Scope) :
    (∀ position, ∃ c, scope.itemColumns x.item position = [c] ∧
        c.name = Identifier.bare x.name.text ∧ c.sources = x.sources scope) ∧
      (∀ front back, (scope.outputColumns (front ++ x.item :: back)).map Column.sources =
        (scope.outputColumns front).map Column.sources ++
          x.sources scope :: (scope.outputColumns back).map Column.sources) ∧
      (x.sources scope = scope.origins x.expr ↔
        ∀ o ∈ x.aliasOrigin? scope, o.key ∈ (scope.origins x.expr).map Origin.key) := by
  refine ⟨fun position => ?_, fun front back => ?_, ?_⟩
  · exact ⟨_, h.itemColumns_item scope position, scope.columnAs_name _ _,
      h.sources_columnAs scope _⟩
  · have hcolumn : (scope.itemColumns x.item 0).map Column.sources = [x.sources scope] := by
      rw [h.itemColumns_item, List.map_singleton, h.sources_columnAs]
    simp only [Scope.map_sources_outputColumns, List.flatMap_append, List.flatMap_cons, hcolumn,
      List.singleton_append]
  · rw [sources, List.append_right_eq_self, List.filter_eq_nil_iff]
    simp

/-- The alias of a table whose columns are known and that has no such column is no origin. -/
theorem sources_item_known :
    let orders : Table := ⟨"dbo.orders", "orders", "dbo", [.named "id", .named "total"]⟩
    let index := ({ Catalog.empty with tables := [orders] } : Catalog).index
    let x : ScalarSubquery :=
      { select := .word "Select"
        expr := sqlTokens ".5 * o.Total"
        clause := .word "from"
        table := ⟨⟨.word "dbo", [.word "orders"]⟩, none, .word "o"⟩
        mark := .word "AS"
        name := .word "half" }
    let ts := .word "SELECT" :: x.item
    let scope : Scope := ⟨Usage.ofTokens index none ts, index⟩
    x.IsProper ∧ outputItems ts = [x.item] ∧ x.sources scope = [⟨"dbo.orders", "total"⟩] ∧
      (scope.outputColumns (outputItems ts)).map Column.sources = [[⟨"dbo.orders", "total"⟩]] := by
  intro orders index x ts scope
  have hx : x.IsProper := by decide +kernel
  have hitems : outputItems ts = [x.item] := by decide +kernel
  have hsources : x.sources scope = [⟨"dbo.orders", "total"⟩] := by decide +kernel
  obtain ⟨-, hlist, -⟩ := sources_item hx scope
  have hcolumns := hlist [] []
  have hnone : (scope.outputColumns []).map Column.sources = [] := rfl
  rw [hnone, hsources, List.nil_append, List.nil_append] at hcolumns
  refine ⟨hx, hitems, hsources, ?_⟩
  rw [hitems, hcolumns]

/-- The alias of a table whose columns are not known is an origin of the column. -/
theorem sources_item_unknown :
    let ts := sqlTokens "SELECT (SELECT x FROM t s) AS m"
    let index := Catalog.empty.index
    let columns := Scope.outputColumns ⟨Usage.ofTokens index none ts, index⟩ (outputItems ts)
    columns.map Column.name = ["m"] ∧ columns.map Column.sources = [[⟨"t", "x"⟩, ⟨"t", "s"⟩]] := by
  intro ts index columns
  have hts : ts = [.word "SELECT", .mark '(', .word "SELECT", .word "x", .word "FROM", .word "t",
      .word "s", .mark ')', .word "AS", .word "m"] :=
    (sqlTokens_ofList _).trans (by decide +kernel)
  simp only [columns, index, hts]
  decide +kernel

end ScalarSubquery

end Provenance
