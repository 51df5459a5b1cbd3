import Provenance.Proofs.Catalog.Resolution
import Provenance.Proofs.Query.Usage

/-!
# Tables of a FROM clause

A FROM clause names tables one after the other, separated by commas or by `JOIN`. The comma list
ends at the first table that has a hint or is joined: a table after a later comma is not read.
-/

namespace Provenance

structure FromTable where
  table : Table
  alias? : Option Token
  /-- What stands between the parentheses of `WITH (..)`. -/
  hint? : Option (List Token)

namespace FromTable

def hintTokens (r : FromTable) : List Token :=
  match r.hint? with
  | none => []
  | some words => .word "WITH" :: .mark '(' :: (words ++ [.mark ')'])

def nameTokens (r : FromTable) : List Token := Identifier.idTokens r.table.id ++ r.alias?.toList

def tokens (r : FromTable) : List Token := r.nameTokens ++ r.hintTokens

def use (r : FromTable) : TableUse where
  parts := (Identifier.idParts r.table.id).map Identifier.written
  aliasName := r.alias?.map fun t => Identifier.bare t.text
  access := .read
  depth := 0

/-- The alias is a plain name in ASCII without delimiters, and the hint is a list of words and
commas that names no table. -/
structure IsProper (r : FromTable) : Prop where
  aliasName : ∀ t ∈ r.alias?, t.isPlainName = true ∧ t.isAscii = true
  hint : ∀ words ∈ r.hint?, ∀ t ∈ words, (t.isWord || t.isMark ',') = true ∧ t.isQuiet = true

instance (r : FromTable) : Decidable r.IsProper :=
  decidable_of_iff
    ((∀ t ∈ r.alias?, t.isPlainName = true ∧ t.isAscii = true) ∧
      ∀ words ∈ r.hint?, ∀ t ∈ words, (t.isWord || t.isMark ',') = true ∧ t.isQuiet = true)
    ⟨fun ⟨aliasName, hint⟩ => ⟨aliasName, hint⟩, fun h => ⟨h.aliasName, h.hint⟩⟩

end FromTable

/-- A table that follows another one in a FROM clause. -/
inductive FromStep where
  | comma (r : FromTable)
  | join (r : FromTable) (condition : List Token)

namespace FromStep

def source : FromStep → FromTable
  | comma r => r
  | join r _ => r

def tokens : FromStep → List Token
  | comma r => .mark ',' :: r.tokens
  | join r condition => .word "JOIN" :: (r.tokens ++ .word "ON" :: condition)

def condition : FromStep → List Token
  | comma _ => []
  | join _ condition => condition

/-- The condition of a join has matching parentheses and refers to no table. -/
structure IsProper (step : FromStep) : Prop where
  source : step.source.IsProper
  balanced : isBalanced step.condition = true
  quiet : ∀ t ∈ step.condition, t.isQuiet = true

instance (step : FromStep) : Decidable step.IsProper :=
  decidable_of_iff
    (step.source.IsProper ∧ isBalanced step.condition = true ∧
      ∀ t ∈ step.condition, t.isQuiet = true)
    ⟨fun ⟨source, balanced, quiet⟩ => ⟨source, balanced, quiet⟩,
      fun h => ⟨h.source, h.balanced, h.quiet⟩⟩

end FromStep

/-- The tables of the steps that are read, if the comma list is still open before them. -/
def readTables (isOpen : Bool) : List FromStep → List FromTable
  | [] => []
  | .comma r :: steps =>
    if isOpen then r :: readTables r.hint?.isNone steps else readTables false steps
  | .join r _ :: steps => r :: readTables false steps

/-- Whether every comma follows the tables of an open list, if the list is open before the steps
or not. -/
def staysListed (isOpen : Bool) : List FromStep → Bool
  | [] => true
  | .comma r :: steps => isOpen && staysListed r.hint?.isNone steps
  | .join _ _ :: steps => staysListed false steps

/-- A statement that selects from tables. -/
structure FromClause where
  first : FromTable
  steps : List FromStep

namespace FromClause

def tokens (x : FromClause) : List Token :=
  [.word "SELECT", .word "x"] ++
    .word "FROM" :: (x.first.tokens ++ x.steps.flatMap FromStep.tokens)

def sources (x : FromClause) : List FromTable := x.first :: x.steps.map FromStep.source

def readSources (x : FromClause) : List FromTable :=
  x.first :: readTables x.first.hint?.isNone x.steps

/-- Whether no comma follows a table with a hint or a joined table. -/
def listsCommasFirst (x : FromClause) : Bool := staysListed x.first.hint?.isNone x.steps

/-- All parts are well formed and the tables are relations of a catalog. -/
structure IsProper (g : Catalog) (x : FromClause) : Prop where
  first : x.first.IsProper
  steps : ∀ step ∈ x.steps, step.IsProper
  known : ∀ r ∈ x.sources, r.table ∈ g.relations

instance (g : Catalog) (x : FromClause) : Decidable (x.IsProper g) :=
  decidable_of_iff
    (x.first.IsProper ∧ (∀ step ∈ x.steps, step.IsProper) ∧ ∀ r ∈ x.sources, r.table ∈ g.relations)
    ⟨fun ⟨first, steps, known⟩ => ⟨first, steps, known⟩, fun h => ⟨h.first, h.steps, h.known⟩⟩

end FromClause

/-! ## One table -/

/-- Whether tokens cannot go on with a name, its arguments or its alias. -/
def endsTable (ts : List Token) : Bool :=
  ts.head?.all fun t => t.isMark ',' || t.isReserved && !t.is .AS

theorem endsTable_hintTokens (r : FromTable) {rest : List Token} (h : endsTable rest = true) :
    endsTable (r.hintTokens ++ rest) = true := by
  unfold FromTable.hintTokens
  cases r.hint? with
  | none => exact h
  | some words => rfl

theorem not_isMark_of_endsTable {t : Token} {rest : List Token} (h : endsTable (t :: rest) = true)
    {c : Char} (hc : c ≠ ',') : t.isMark c = false := by
  cases t with
  | mark d =>
    obtain rfl : d = ',' := by simpa [endsTable, Token.isMark, Token.isReserved] using h
    simpa [Token.isMark] using hc.symm
  | word w => rfl
  | delimited d => rfl

theorem aliasName?_of_endsTable {rest : List Token} (h : endsTable rest = true) :
    aliasName? rest = none := by
  cases rest with
  | nil => rfl
  | cons t rest =>
    rw [endsTable, List.head?_cons, Option.all_some, Bool.or_eq_true, Bool.and_eq_true] at h
    have has : t.is .AS = false := by
      rcases h with hcomma | ⟨-, has⟩
      · cases t <;> first | rfl | simp [Token.isMark] at hcomma
      · simpa using has
    have hname : t.isPlainName = false := by
      rcases h with hcomma | ⟨hreserved, -⟩
      · cases t <;> first | rfl | simp [Token.isMark] at hcomma
      · simp [Token.isPlainName, Token.isName, hreserved]
    simp [aliasName?, has, hname]

theorem skipGroup_of_head {ts : List Token}
    (h : ∀ t, ts.head? = some t → t.isMark '(' = false) : skipGroup ts = ts := by
  cases ts with
  | nil => rfl
  | cons t ts => simp [skipGroup, group?, h t rfl]

namespace FromTable

variable {r : FromTable}

theorem IsProper.head_not_isMark (h : r.IsProper) {rest : List Token}
    (hrest : endsTable rest = true) {c : Char} (hc : c ≠ ',') :
    ∀ t, (r.alias?.toList ++ rest).head? = some t → t.isMark c = false := by
  intro t ht
  cases halias : r.alias? with
  | none =>
    rw [halias, Option.toList_none, List.nil_append] at ht
    obtain ⟨tail, rfl⟩ := List.head?_eq_some_iff.mp ht
    exact not_isMark_of_endsTable hrest hc
  | some name =>
    rw [halias, Option.toList_some, List.cons_append, List.head?_cons, Option.some.injEq] at ht
    obtain ⟨hname, -⟩ := h.aliasName name halias
    rw [← ht]
    exact Token.not_isMark_of_isWord (Token.isWord_of_isName (Token.isName_of_isPlainName hname)) c

theorem IsProper.keyword?_alias (h : r.IsProper) {t : Token} (ht : t ∈ r.alias?) :
    t.keyword? = none := by
  obtain ⟨hname, hascii⟩ := h.aliasName t ht
  exact Token.keyword?_of_isName hascii (Token.isName_of_isPlainName hname)

theorem IsProper.tableUse?_nameTokens (h : r.IsProper) {rest : List Token}
    (hrest : endsTable rest = true) :
    tableUse? .read 0 (r.nameTokens ++ rest) = some (r.use, rest) := by
  have hgroup : skipGroup (r.alias?.toList ++ rest) = r.alias?.toList ++ rest :=
    skipGroup_of_head (h.head_not_isMark hrest (by decide))
  rw [nameTokens, List.append_assoc, tableUse?,
    Identifier.qualifiedName?_idTokens _ _ (h.head_not_isMark hrest (by decide)), Option.map_some]
  simp only [hgroup]
  cases halias : r.alias? with
  | none => simp [use, halias, aliasName?_of_endsTable hrest]
  | some name =>
    obtain ⟨hname, -⟩ := h.aliasName name halias
    have has := Token.is_eq_false_of_keyword? (h.keyword?_alias halias) .AS
    simp [use, halias, aliasName?, has, hname]

theorem IsProper.mentions_nameTokens (h : r.IsProper) (rest : List Token) :
    mentions 0 (r.nameTokens ++ rest) = mentions 0 rest := by
  apply mentions_append
  intro t ht
  have hkeyword : ∀ k, t.is k = false := by
    rcases List.mem_append.mp ht with hid | halias
    · exact Identifier.is_of_mem_idTokens hid
    · exact Token.is_eq_false_of_keyword? (h.keyword?_alias (Option.mem_toList.mp halias))
  refine ⟨by simp [Token.isQuiet, Token.isReference, hkeyword], ?_⟩
  rcases List.mem_append.mp ht with hid | halias
  · exact isFlat_of_isListToken (isListToken_of_isItemToken (isItemToken_of_mem_idTokens hid))
  · obtain ⟨hname, -⟩ := h.aliasName t (Option.mem_toList.mp halias)
    exact Token.isFlat_of_isWord (Token.isWord_of_isName (Token.isName_of_isPlainName hname))

theorem IsProper.mentions_hintTokens (h : r.IsProper) (rest : List Token) :
    mentions 0 (r.hintTokens ++ rest) = mentions 0 rest := by
  unfold hintTokens
  cases hhint : r.hint? with
  | none => rfl
  | some words =>
    have hwords : ∀ t ∈ words, t.isQuiet = true ∧ t.isFlat = true := by
      intro t ht
      obtain ⟨hword, hquiet⟩ := h.hint words hhint t ht
      refine ⟨hquiet, ?_⟩
      rcases Bool.or_eq_true _ _ ▸ hword with hword | hcomma
      · exact Token.isFlat_of_isWord hword
      · exact Token.isFlat_of_isMark hcomma (by decide) (by decide)
    rw [List.cons_append, List.cons_append, mentions_cons_mark 0 (by decide), mentions_open,
      List.append_assoc, mentions_append hwords, List.singleton_append, mentions_close]

theorem IsProper.mentions_join (h : r.IsProper) {rest : List Token}
    (hrest : endsTable rest = true) :
    mentions 0 (.word "JOIN" :: (r.tokens ++ rest)) = .table r.use :: mentions 0 rest := by
  have hkeyword : (Token.word "JOIN").keyword? = some .JOIN := by decide
  have huse := h.tableUse?_nameTokens (endsTable_hintTokens r hrest)
  have hone : oneTable .read 0 (r.tokens ++ rest) = ([.table r.use], r.hintTokens ++ rest) := by
    rw [tokens, List.append_assoc, oneTable, huse]
  rw [mentions, mentionsAt, hkeyword, depthAfter_of_isFlat (by decide)]
  simp only [hone, h.mentions_hintTokens, List.singleton_append]

end FromTable

/-! ## All tables -/

theorem endsTable_steps (steps : List FromStep) :
    endsTable (steps.flatMap FromStep.tokens) = true := by
  cases steps with
  | nil => rfl
  | cons step steps => cases step <;> rfl

theorem FromStep.IsProper.mentions_on {step : FromStep} (h : step.IsProper) (rest : List Token) :
    mentions 0 (.word "ON" :: (step.condition ++ rest)) = mentions 0 rest := by
  have hon : mentions 0 ([.word "ON"] ++ (step.condition ++ rest)) =
      mentions 0 (step.condition ++ rest) := mentions_append (by decide) _
  rw [List.singleton_append] at hon
  rw [hon, mentions_append_of_isBalanced 0 h.quiet h.balanced]

theorem mentions_steps {steps : List FromStep} (h : ∀ step ∈ steps, step.IsProper) :
    mentions 0 (steps.flatMap FromStep.tokens) =
      (readTables false steps).map fun r => .table r.use := by
  induction steps with
  | nil => simp [mentions, readTables]
  | cons step steps ih =>
    have hstep := h step (by simp)
    have htail := ih fun s hs => h s (List.mem_cons_of_mem step hs)
    rw [List.flatMap_cons]
    cases step with
    | comma r =>
      have hr : r.IsProper := hstep.source
      rw [FromStep.tokens, FromTable.tokens, List.cons_append, mentions_mark 0 rfl,
        List.append_assoc, hr.mentions_nameTokens, hr.mentions_hintTokens, htail]
      rfl
    | join r condition =>
      have hr : r.IsProper := hstep.source
      have hon := hstep.mentions_on (steps.flatMap FromStep.tokens)
      rw [FromStep.condition, htail] at hon
      rw [FromStep.tokens, List.cons_append, List.append_assoc, List.cons_append,
        hr.mentions_join rfl, hon]
      rfl

theorem mentions_from (ts : List Token) : mentions 0 (.word "FROM" :: ts) =
    (tableList .read 0 ts).1 ++ mentions 0 (tableList .read 0 ts).2 := by
  have hkeyword : (Token.word "FROM").keyword? = some .FROM := by decide
  rw [mentions, mentionsAt, hkeyword, depthAfter_of_isFlat (by decide)]

theorem mentions_from_last {r : FromTable} {steps : List FromStep} (hr : r.IsProper)
    (h : ∀ step ∈ steps, step.IsProper)
    (hcomma : afterMark? ',' (r.hintTokens ++ steps.flatMap FromStep.tokens) = none) :
    mentions 0 (.word "FROM" :: (r.tokens ++ steps.flatMap FromStep.tokens)) =
      (r :: readTables false steps).map fun r => .table r.use := by
  have huse := hr.tableUse?_nameTokens (endsTable_hintTokens r (endsTable_steps steps))
  rw [mentions_from, FromTable.tokens, List.append_assoc, tableList_eq, huse]
  simp only [hcomma]
  rw [hr.mentions_hintTokens, mentions_steps h]
  rfl

theorem mentions_from_comma {r : FromTable} (hr : r.IsProper) (hhint : r.hint? = none)
    (rest : List Token) :
    mentions 0 (.word "FROM" :: (r.tokens ++ .mark ',' :: rest)) =
      .table r.use :: mentions 0 (.word "FROM" :: rest) := by
  have htokens : r.tokens = r.nameTokens := by
    rw [FromTable.tokens, FromTable.hintTokens, hhint, List.append_nil]
  have hends : endsTable (.mark ',' :: rest) = true := rfl
  have huse := hr.tableUse?_nameTokens hends
  have hcomma : afterMark? ',' (.mark ',' :: rest) = some rest := rfl
  rw [mentions_from, mentions_from, htokens, tableList_eq, huse]
  simp only [hcomma, List.cons_append]

/-- The tables of the comma list are mentioned up to the first one with a hint, and after that
the joined ones. -/
theorem mentions_tables {r : FromTable} {steps : List FromStep} (hr : r.IsProper)
    (h : ∀ step ∈ steps, step.IsProper) :
    mentions 0 (.word "FROM" :: (r.tokens ++ steps.flatMap FromStep.tokens)) =
      (r :: readTables r.hint?.isNone steps).map fun r => .table r.use := by
  induction steps generalizing r with
  | nil =>
    apply mentions_from_last hr h
    unfold FromTable.hintTokens
    cases r.hint? <;> rfl
  | cons step steps ih =>
    cases hhint : r.hint? with
    | some words =>
      apply mentions_from_last hr h
      rw [FromTable.hintTokens, hhint]
      rfl
    | none =>
      cases step with
      | join next condition =>
        apply mentions_from_last hr h
        rw [FromTable.hintTokens, hhint]
        rfl
      | comma next =>
        have hnext : next.IsProper := (h (.comma next) (by simp)).source
        have htail := ih hnext fun s hs => h s (List.mem_cons_of_mem _ hs)
        rw [List.flatMap_cons, FromStep.tokens, List.cons_append, mentions_from_comma hr hhint,
          htail]
        rfl

/-! ## The tables that are read -/

theorem readTables_subset {isOpen : Bool} {steps : List FromStep} {r : FromTable}
    (h : r ∈ readTables isOpen steps) : r ∈ steps.map FromStep.source := by
  fun_induction readTables isOpen steps with
  | case1 => exact h
  | case2 next steps ih =>
    rcases List.mem_cons.mp h with rfl | htail
    · exact List.mem_cons_self
    · exact List.mem_cons_of_mem _ (ih htail)
  | case3 isOpen next steps _ ih => exact List.mem_cons_of_mem _ (ih h)
  | case4 isOpen next condition steps ih =>
    rcases List.mem_cons.mp h with rfl | htail
    · exact List.mem_cons_self
    · exact List.mem_cons_of_mem _ (ih htail)

theorem length_readTables_le (isOpen : Bool) (steps : List FromStep) :
    (readTables isOpen steps).length ≤ steps.length := by
  fun_induction readTables isOpen steps with
  | case1 => exact Nat.le_refl _
  | case2 next steps ih => exact Nat.succ_le_succ ih
  | case3 isOpen next steps _ ih => exact Nat.le_succ_of_le ih
  | case4 isOpen next condition steps ih => exact Nat.succ_le_succ ih

/-- All tables are read exactly if every comma follows a table of the list. -/
theorem readTables_eq_map_iff (isOpen : Bool) (steps : List FromStep) :
    readTables isOpen steps = steps.map FromStep.source ↔ staysListed isOpen steps = true := by
  fun_induction readTables isOpen steps with
  | case1 => simp [staysListed]
  | case2 next steps ih => simpa [staysListed, FromStep.source] using ih
  | case3 isOpen next steps hclosed ih =>
    obtain rfl : isOpen = false := by simpa using hclosed
    have hlength := length_readTables_le false steps
    constructor
    · intro heq
      rw [heq, List.length_map, List.length_cons] at hlength
      exact absurd hlength (Nat.not_succ_le_self steps.length)
    · intro hlisted
      exact absurd hlisted (by simp [staysListed])
  | case4 isOpen next condition steps ih => simpa [staysListed, FromStep.source] using ih

namespace FromClause

variable {g : Catalog} {x : FromClause}

theorem mentions_tokens (hx : x.IsProper g) :
    mentions 0 x.tokens = x.readSources.map fun r => .table r.use := by
  rw [tokens, mentions_append (by decide), mentions_tables hx.first hx.steps]
  rfl

theorem mem_relations_of_mem_readSources (hx : x.IsProper g) {r : FromTable}
    (hr : r ∈ x.readSources) : r.table ∈ g.relations := by
  apply hx.known
  rcases List.mem_cons.mp hr with rfl | hr
  · exact List.mem_cons_self
  · exact List.mem_cons_of_mem _ (readTables_subset hr)

end FromClause

section Usage

variable {g : Catalog} {sources : List FromTable}

theorem tableId_use (hg : g.IsQualified) (defaultSchema : Option String) {r : FromTable}
    (hr : r.table ∈ g.relations) : g.index.tableId defaultSchema r.use.parts = r.table.id := by
  have hlength : (Identifier.idParts r.table.id).length = 2 := by
    rw [hg.idParts_id hr]
    rfl
  rw [FromTable.use, Index.tableId_written g.index (hg.isReadable_id hr) (.inr hlength),
    hg.idOf?_id hr]
  rfl

theorem byName_sources (hg : g.IsQualified) (defaultSchema : Option String)
    (hsources : ∀ r ∈ sources, r.table ∈ g.relations) :
    Usage.byName g.index defaultSchema (sources.map fun r => .table r.use) =
      sources.map fun r => ⟨r.use, r.table.id⟩ := by
  have huses := Usage.byName_tables g.index defaultSchema (sources.map FromTable.use)
  rw [List.map_map, List.map_map] at huses
  refine huses.trans (List.map_congr_left fun r hr => ?_)
  rw [Function.comp_apply, tableId_use hg defaultSchema (hsources r hr)]

theorem resolved_tables (hg : g.IsQualified) (defaultSchema : Option String)
    (hsources : ∀ r ∈ sources, r.table ∈ g.relations) :
    Usage.resolved (Usage.byName g.index defaultSchema (sources.map fun r => .table r.use)) =
      sources.map fun r => ⟨r.use, r.table.id⟩ := by
  -- A name of two parts is no alias, so it is not followed.
  have hfollow : ∀ b, (sources.map fun r => ⟨r.use, r.table.id⟩).map (ResolvedUse.followAlias b) =
      sources.map fun r => ⟨r.use, r.table.id⟩ := by
    intro b
    rw [List.map_map]
    apply List.map_congr_left
    intro r hr
    have hsimple : r.use.isSimple = false := by
      simp [FromTable.use, TableUse.isSimple, hg.idParts_id (hsources r hr)]
    simp [ResolvedUse.followAlias, hsimple]
  rw [byName_sources hg defaultSchema hsources, Usage.resolved, hfollow, List.filter_eq_self]
  intro u hu
  obtain ⟨r, hr, rfl⟩ := List.mem_map.mp hu
  simpa using (hg.isReadable_id (hsources r hr)).ne_empty

theorem idsOf_tables {p : TableUse → Bool} (hp : ∀ r : FromTable, p r.use = true)
    (sources : List FromTable) :
    Usage.idsOf p (sources.map fun r => ⟨r.use, r.table.id⟩) =
      distinctBy Text.lowerCase (sources.map fun r => r.table.id) := by
  rw [Usage.idsOf, List.filter_eq_self.mpr, List.map_map]
  · rfl
  · intro u hu
    obtain ⟨r, -, rfl⟩ := List.mem_map.mp hu
    exact hp r

end Usage

namespace FromClause

/-- The tables that a text reads are those of the comma list up to the first hint or join and all
joined ones. They are all tables of the clause exactly if no comma comes later. -/
theorem usage_of_tokens {g : Catalog} (hg : g.IsQualified) {x : FromClause} (hx : x.IsProper g)
    (defaultSchema : Option String) {sql : String} (hsql : sqlTokens sql = x.tokens) :
    let usage := Usage.ofTokens g.index defaultSchema (sqlTokens sql)
    let ids := distinctBy Text.lowerCase (x.readSources.map fun r => r.table.id)
    usage.reads = ids ∧ usage.topLevelReads = ids ∧ usage.writes = [] ∧
      (x.readSources = x.sources ↔ x.listsCommasFirst = true) := by
  have hresolved := resolved_tables hg defaultSchema fun r => mem_relations_of_mem_readSources hx
  simp only [hsql, Usage.ofTokens, mentions_tokens hx, Usage.ofMentions, hresolved]
  refine ⟨idsOf_tables (fun _ => rfl) _, idsOf_tables (fun _ => rfl) _, ?_, ?_⟩
  · rw [Usage.idsOf, List.filter_eq_nil_iff.mpr]
    · rfl
    · intro u hu
      obtain ⟨r, -, rfl⟩ := List.mem_map.mp hu
      simp [FromTable.use]
  · rw [readSources, sources, List.cons_inj_right, readTables_eq_map_iff]
    rfl

/-- A table with a hint behind the comma, and a joined one. -/
theorem usage_of_tokens_join :
    let orders : Table := ⟨"dbo.Orders", "Orders", "dbo", []⟩
    let regions : Table := ⟨"sales.Regions", "Regions", "sales", []⟩
    let g : Catalog := { Catalog.empty with tables := [orders, regions] }
    let sql := "SELECT x FROM dbo.Orders o, sales.Regions WITH (NOLOCK) JOIN dbo.Orders p ON (p.a)"
    let x : FromClause := ⟨⟨orders, some (.word "o"), none⟩,
      [.comma ⟨regions, none, some [.word "NOLOCK"]⟩,
        .join ⟨orders, some (.word "p"), none⟩
          [.mark '(', .word "p", .mark '.', .word "a", .mark ')']]⟩
    g.IsQualified ∧ x.IsProper g ∧ sqlTokens sql = x.tokens ∧
      (Usage.ofTokens g.index none (sqlTokens sql)).reads = ["dbo.Orders", "sales.Regions"] ∧
      x.readSources = x.sources := by
  intro orders regions g sql x
  have hg : g.IsQualified := by decide +kernel
  have hx : x.IsProper g := by decide +kernel
  have hsql : sqlTokens sql = x.tokens := (sqlTokens_ofList _).trans (by decide +kernel)
  obtain ⟨hreads, -, -, hall⟩ := usage_of_tokens hg hx none hsql
  refine ⟨hg, hx, hsql, ?_, hall.mpr (by decide)⟩
  rw [hreads]
  decide +kernel

/-- A table behind a hint and a comma is not read. -/
theorem not_read_behind_hint :
    let orders : Table := ⟨"dbo.Orders", "Orders", "dbo", []⟩
    let regions : Table := ⟨"sales.Regions", "Regions", "sales", []⟩
    let g : Catalog := { Catalog.empty with tables := [orders, regions] }
    let sql := "SELECT x FROM dbo.Orders WITH (NOLOCK), sales.Regions"
    let x : FromClause := ⟨⟨orders, none, some [.word "NOLOCK"]⟩, [.comma ⟨regions, none, none⟩]⟩
    g.IsQualified ∧ x.IsProper g ∧ sqlTokens sql = x.tokens ∧
      (Usage.ofTokens g.index none (sqlTokens sql)).reads ≠
        distinctBy Text.lowerCase (x.sources.map fun r => r.table.id) := by
  intro orders regions g sql x
  have hsql : sqlTokens sql = x.tokens := (sqlTokens_ofList _).trans (by decide +kernel)
  refine ⟨by decide +kernel, by decide +kernel, hsql, ?_⟩
  rw [hsql]
  decide +kernel

end FromClause

end Provenance
