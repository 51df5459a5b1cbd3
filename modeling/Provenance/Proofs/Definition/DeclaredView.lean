import Provenance.Proofs.Catalog.Column
import Provenance.Proofs.Definition.Header
import Provenance.Proofs.Definition.View
import Provenance.Proofs.Query.Enclosed
import Provenance.Proofs.Query.Expressions

/-!
# Views with declared columns

The columns that a view declares are those of the expressions of its select list, one for one. All
tables of the statement are in scope in each expression, those of the subqueries in the others
included.
-/

namespace Provenance

/-! ## Declared views -/

/-- The parts of a definition `CREATE VIEW name (columns) AS SELECT expressions FROM source`. -/
structure DeclaredView where
  /-- The first part of the name. -/
  first : Token
  /-- The parts of the name that follow after full stops. -/
  further : List Token
  columns : List Token
  expressions : List (List Token)
  source : List Token

namespace DeclaredView

def nameTokens (v : DeclaredView) : List Token :=
  v.first :: v.further.flatMap fun t => [.mark '.', t]

def columnTokens (v : DeclaredView) : List Token :=
  [Token.mark ','].intercalate (v.columns.map fun c => [c])

def headerTokens (v : DeclaredView) : List Token :=
  .word "CREATE" :: .word "VIEW" ::
    (v.nameTokens ++ .mark '(' :: (v.columnTokens ++ [.mark ')', .word "AS"]))

def tokens (v : DeclaredView) : List Token :=
  v.headerTokens ++ .word "SELECT" ::
    ([Token.mark ','].intercalate v.expressions ++ .word "FROM" :: v.source)

def columnNames (v : DeclaredView) : List String :=
  v.columns.map fun c => Identifier.bare c.text

/-- The definition with one of its columns and one of its expressions. -/
def restrict (v : DeclaredView) (c : Token) (e : List Token) : DeclaredView :=
  { v with columns := [c], expressions := [e] }

/-- Definitions that declare one column for every expression. The names of the columns are not
empty and differ in any case. -/
structure IsProper (v : DeclaredView) : Prop where
  first : v.first.isName = true ∧ v.first.is .SELECT = false
  further : ∀ t ∈ v.further, t.isWord = true ∧ t.isNumber = false ∧ t.is .SELECT = false
  columns : ∀ c ∈ v.columns, c.isWord = true ∧ Identifier.bare c.text ≠ ""
  distinct : (v.columnNames.map Text.lowerCase).Nodup
  nonempty : v.columns ≠ []
  length : v.columns.length = v.expressions.length
  expressions : ∀ e ∈ v.expressions, IsExpression e

instance (v : DeclaredView) : Decidable v.IsProper :=
  decidable_of_iff
    ((v.first.isName = true ∧ v.first.is .SELECT = false) ∧
      (∀ t ∈ v.further, t.isWord = true ∧ t.isNumber = false ∧ t.is .SELECT = false) ∧
      (∀ c ∈ v.columns, c.isWord = true ∧ Identifier.bare c.text ≠ "") ∧
      (v.columnNames.map Text.lowerCase).Nodup ∧ v.columns ≠ [] ∧
      v.columns.length = v.expressions.length ∧ ∀ e ∈ v.expressions, IsExpression e)
    ⟨fun ⟨first, further, columns, distinct, nonempty, length, expressions⟩ =>
        ⟨first, further, columns, distinct, nonempty, length, expressions⟩,
      fun h => ⟨h.first, h.further, h.columns, h.distinct, h.nonempty, h.length, h.expressions⟩⟩

namespace IsProper

variable {v : DeclaredView} (h : v.IsProper)

include h

theorem restrict {c : Token} {e : List Token} (hc : c ∈ v.columns) (he : e ∈ v.expressions) :
    (v.restrict c e).IsProper where
  first := h.first
  further := h.further
  columns := by simpa [DeclaredView.restrict] using h.columns c hc
  distinct := by simp [DeclaredView.restrict, columnNames]
  nonempty := by simp [DeclaredView.restrict]
  length := rfl
  expressions := by simpa [DeclaredView.restrict] using h.expressions e he

/-! ## The header -/

theorem isPiece_columns : ∀ p ∈ v.columns.map fun c => [c], isPiece p = true := by
  intro p hp
  obtain ⟨c, hc, rfl⟩ := List.mem_map.mp hp
  have hmark := Token.not_isMark_of_isWord (h.columns c hc).1
  simp [isPiece, isBalanced, balancedFrom, outside, hmark]

theorem isFlat_columnTokens : ∀ t ∈ v.columnTokens, t.isFlat = true := by
  apply forall_mem_joined (p := fun t => t.isFlat = true) rfl
  intro p hp t ht
  obtain ⟨c, hc, rfl⟩ := List.mem_map.mp hp
  obtain rfl := List.mem_singleton.mp ht
  exact Token.isFlat_of_isWord (h.columns t hc).1

theorem isFlat_nameTokens : ∀ t ∈ v.nameTokens, t.isFlat = true ∧ t.is .SELECT = false := by
  intro t ht
  rcases List.mem_cons.mp ht with rfl | ht
  · exact ⟨Token.isFlat_of_isWord (Token.isWord_of_isName h.first.1), h.first.2⟩
  · obtain ⟨part, hpart, ht⟩ := List.mem_flatMap.mp ht
    rcases List.mem_cons.mp ht with rfl | ht
    · exact ⟨rfl, rfl⟩
    · obtain rfl := List.mem_singleton.mp ht
      obtain ⟨hword, -, hselect⟩ := h.further t hpart
      exact ⟨Token.isFlat_of_isWord hword, hselect⟩

theorem qualifiedName?_nameTokens (rest : List Token) :
    qualifiedName? (v.nameTokens ++ .mark '(' :: rest) =
      some (v.first.text :: v.further.map Token.text, .mark '(' :: rest) := by
  have hproper : (QualifiedName.mk v.first v.further).IsProper :=
    ⟨h.first.1, fun t ht => ⟨(h.further t ht).1, (h.further t ht).2.1⟩⟩
  have hopen : ∀ t ∈ (.mark '(' :: rest : List Token).head?, t.isMark '.' = false := by
    simp [Token.isMark]
  exact hproper.qualifiedName?_tokens_append hopen

theorem declaredColumns?_tokens : declaredColumns? v.tokens = some v.columnNames := by
  have htokens : v.tokens = .word "CREATE" :: .word "VIEW" ::
      (v.nameTokens ++ .mark '(' :: (v.columnTokens ++ .mark ')' :: .word "AS" ::
        .word "SELECT" :: ([Token.mark ','].intercalate v.expressions ++
          .word "FROM" :: v.source))) := by
    simp [tokens, headerTokens]
  have hheader : ∀ rest, findHeader? (Token.is .SELECT)
      (fun t => if t.is .VIEW then some () else none) (.word "CREATE" :: .word "VIEW" :: rest) =
        some ((), rest) := findHeader?_create (by decide) (by decide) (by decide)
  have hgroup := group?_of_isBalanced (isBalanced_of_isFlat h.isFlat_columnTokens)
  have hsplit : splitCommas v.columnTokens = v.columns.map fun c => [c] :=
    splitCommas_intercalate h.isPiece_columns
  have hwords : (v.columns.map fun c => [c]).filterMap (fun p => p.find? Token.isWord) =
      v.columns := by
    have hfind : ∀ c ∈ v.columns, List.find? Token.isWord [c] = some c := by
      intro c hc
      simp [(h.columns c hc).1]
    rw [List.filterMap_map]
    exact (List.filterMap_congr hfind).trans List.filterMap_some
  have hnames : v.columnNames.filter (fun name => !name.isEmpty) = v.columnNames := by
    apply List.filter_eq_self.mpr
    intro name hname
    obtain ⟨c, hc, rfl⟩ := List.mem_map.mp hname
    simpa using (h.columns c hc).2
  have hsome : v.columnNames.isEmpty = false := by
    simpa [columnNames] using h.nonempty
  unfold declaredColumns?
  rw [htokens, hheader]
  simp only [Option.bind_eq_bind, Option.bind_some, h.qualifiedName?_nameTokens, hgroup, hsplit,
    hwords]
  rw [show v.columns.map (fun t => Identifier.bare t.text) = v.columnNames from rfl, hnames,
    hsome]
  rfl

theorem headerTokens_outside :
    net v.headerTokens = 0 ∧ ∀ t ∈ outside 0 v.headerTokens, t.is .SELECT = false := by
  let front : List Token := .word "CREATE" :: .word "VIEW" :: v.nameTokens
  have hheader : v.headerTokens =
      front ++ .mark '(' :: (v.columnTokens ++ [.mark ')', .word "AS"]) := rfl
  have hfront : ∀ t ∈ front, t.isFlat = true ∧ t.is .SELECT = false := by
    intro t ht
    rcases List.mem_cons.mp ht with rfl | ht
    · decide
    rcases List.mem_cons.mp ht with rfl | ht
    · decide
    · exact h.isFlat_nameTokens t ht
  have hnetFront : net front = 0 :=
    net_of_isBalanced (isBalanced_of_isFlat fun t ht => (hfront t ht).1)
  have hnetColumns : net v.columnTokens = 0 :=
    net_of_isBalanced (isBalanced_of_isFlat h.isFlat_columnTokens)
  have hopen : (Token.mark '(').nesting = 1 := by decide
  have hclosed : net [.mark ')', .word "AS"] = -1 := by decide
  constructor
  · rw [hheader, net_append, hnetFront, net_cons, net_append, hnetColumns, hopen, hclosed]
    decide
  · intro t ht
    rw [hheader, outside_append, hnetFront, Int.add_zero] at ht
    rcases List.mem_append.mp ht with ht | ht
    · exact (hfront t (outside_subset ht)).2
    · rw [outside, if_pos rfl, hopen, outside_append, hnetColumns,
        outside_of_isFlat (by decide) h.isFlat_columnTokens, List.nil_append] at ht
      have hrest : ∀ u ∈ .mark '(' :: outside (0 + 1 + 0) [.mark ')', .word "AS"],
          u.is .SELECT = false := by decide
      exact hrest t ht

/-! ## What the definition reads -/

theorem outputItems_tokens : outputItems v.tokens = v.expressions := by
  have hne : v.expressions ≠ [] := by
    intro hnil
    have hlength := h.length
    rw [hnil] at hlength
    exact h.nonempty (List.eq_nil_of_length_eq_zero hlength)
  obtain ⟨e, es, hes⟩ := List.exists_cons_of_ne_nil hne
  obtain ⟨hnet, hselect⟩ := h.headerTokens_outside
  have hexpressions := h.expressions
  rw [hes] at hexpressions
  rw [tokens, hes]
  exact outputItems_of_expressions hnet hselect (by decide) (by decide) hexpressions (by decide)
    (by decide)

theorem mentions_nameTokens (level : Nat) (rest : List Token) :
    mentions level (v.nameTokens ++ .mark '(' :: rest) = mentions level (.mark '(' :: rest) := by
  apply mentions_dotted level _ rfl
  intro t ht
  rcases List.mem_cons.mp ht with rfl | ht
  · exact Token.isWord_of_isName h.first.1
  · exact (h.further t ht).1

omit h in
theorem mentions_commas (level : Nat) {columns : List Token}
    (hwords : ∀ c ∈ columns, c.isWord = true) (rest : List Token) :
    mentions level
        ([Token.mark ','].intercalate (columns.map fun c => [c]) ++ .mark ')' :: rest) =
      mentions level (.mark ')' :: rest) := by
  induction columns with
  | nil => rfl
  | cons c columns ih =>
    have hc := hwords c (by simp)
    have htail := ih fun d hd => hwords d (List.mem_cons_of_mem c hd)
    cases columns with
    | nil => exact mentions_cons_mark level hc ')' rest
    | cons next columns =>
      simp only [List.map_cons] at htail ⊢
      rw [joined_cons_cons, List.append_assoc, List.cons_append, List.cons_append,
        List.nil_append, mentions_cons_mark level hc, mentions_mark level rfl, htail]

theorem mentions_columnTokens (level : Nat) (rest : List Token) :
    mentions level (v.columnTokens ++ .mark ')' :: rest) = mentions level (.mark ')' :: rest) :=
  mentions_commas level (fun c hc => (h.columns c hc).1) rest

theorem mentions_tokens (hinside : ∀ e ∈ v.expressions, enclosesReferences 0 e = true) :
    mentions 0 v.tokens =
      v.expressions.flatMap (mentions 0) ++ mentions 0 (.word "FROM" :: v.source) := by
  have hheader : ∀ rest, mentions 0 (v.headerTokens ++ rest) = mentions 0 rest := by
    intro rest
    have hcreate : ∀ ts, mentions 0 ([.word "CREATE", .word "VIEW"] ++ ts) = mentions 0 ts :=
      mentions_append (by decide)
    have has : ∀ ts, mentions 0 ([.word "AS"] ++ ts) = mentions 0 ts :=
      mentions_append (by decide)
    have hopen : ∀ ts, mentions 0 (.mark '(' :: ts) = mentions 1 ts := by
      intro ts
      rw [mentions, mentionsAt_of_isQuiet rfl]
      rfl
    have hclose : ∀ ts, mentions 1 (.mark ')' :: ts) = mentions 0 ts := by
      intro ts
      rw [mentions, mentionsAt_of_isQuiet rfl]
      rfl
    have hparts : v.headerTokens ++ rest = [.word "CREATE", .word "VIEW"] ++
        (v.nameTokens ++ .mark '(' :: (v.columnTokens ++ .mark ')' :: ([.word "AS"] ++ rest))) := by
      simp [headerTokens]
    rw [hparts, hcreate, h.mentions_nameTokens, hopen, h.mentions_columnTokens, hclose, has]
  have hselect : ∀ rest, mentions 0 ([.word "SELECT"] ++ rest) = mentions 0 rest :=
    mentions_append (by decide)
  rw [tokens, hheader, ← List.singleton_append, hselect, mentions_joined hinside]

end IsProper

/-- The origins that an expression has among the tables of the definition. -/
def origins (v : DeclaredView) (index : Index) (defaultSchema : Option String) (e : List Token) :
    List Origin :=
  Scope.origins ⟨Usage.ofTokens index defaultSchema v.tokens, index⟩ (SelectItem.ofTokens e).expr

theorem IsProper.columns_readView {v : DeclaredView} (h : v.IsProper) {sql : String}
    (hsql : sqlTokens sql = v.tokens) (index : Index) (defaultSchema : Option String)
    (known : Option (List Column)) :
    let columns := (readView index defaultSchema known sql).columns
    columns.map Column.name = v.columnNames ∧
      columns.map Column.sources = v.expressions.map (v.origins index defaultSchema) := by
  let scope : Scope := ⟨Usage.ofTokens index defaultSchema v.tokens, index⟩
  have hdeclared : declaredColumns? (sqlTokens sql) = some v.columnNames := by
    rw [hsql, h.declaredColumns?_tokens]
  have hne : v.columnNames ≠ [] := by simpa [columnNames] using h.nonempty
  have hsources : (scope.outputColumns (outputItems v.tokens)).map Column.sources =
      v.expressions.map (v.origins index defaultSchema) := by
    rw [Scope.outputColumns, map_sources_uniqueNames, h.outputItems_tokens,
      scope.map_sources_itemColumns h.expressions 0]
    rfl
  have hlength : (scope.outputColumns (outputItems v.tokens)).length = v.columnNames.length := by
    have hlengths := congrArg List.length hsources
    rw [List.length_map, List.length_map] at hlengths
    rw [hlengths, columnNames, List.length_map, h.length]
  have hcolumns := columns_readView_of_names hdeclared hne h.distinct (by rw [hsql]) hlength known
  rw [hsources] at hcolumns
  exact hcolumns

/-- Expressions that mention no table make no difference to the others. -/
theorem IsProper.origins_restrict {v : DeclaredView} (h : v.IsProper)
    {front back : List (List Token)} {e : List Token}
    (hexpressions : v.expressions = front ++ e :: back)
    (hinside : ∀ d ∈ v.expressions, enclosesReferences 0 d = true)
    (hothers : ∀ d ∈ front ++ back, mentions 0 d = []) {c : Token} (hc : c ∈ v.columns)
    (index : Index) (defaultSchema : Option String) :
    (v.restrict c e).origins index defaultSchema = v.origins index defaultSchema := by
  have he : e ∈ v.expressions := by simp [hexpressions]
  have hsilent : ∀ ds : List (List Token), ds ⊆ front ++ back → ds.flatMap (mentions 0) = [] := by
    intro ds hds
    rw [List.flatMap_eq_nil_iff]
    exact fun d hd => hothers d (hds hd)
  have hrestrict :=
    (h.restrict hc he).mentions_tokens (by simpa [DeclaredView.restrict] using hinside e he)
  have hwhole := h.mentions_tokens hinside
  rw [hexpressions, List.flatMap_append, List.flatMap_cons, hsilent front (by simp),
    hsilent back (by simp)] at hwhole
  have hmentions : mentions 0 (v.restrict c e).tokens = mentions 0 v.tokens := by
    rw [hrestrict, hwhole]
    simp [DeclaredView.restrict]
  funext d
  simp only [origins, Usage.ofTokens, hmentions]

/-- A view has exactly the columns that it declares. Each takes its values from the origins of its
expression among the tables of the whole definition. These are the origins that it has in the
definition with this column alone, if the other expressions mention no table. -/
theorem readView_of_tokens {v : DeclaredView} (h : v.IsProper) {sql : String}
    (hsql : sqlTokens sql = v.tokens) (index : Index) (defaultSchema : Option String)
    (known : Option (List Column)) :
    let columns := (readView index defaultSchema known sql).columns
    columns.map Column.name = v.columnNames ∧
    columns.map Column.sources = v.expressions.map (v.origins index defaultSchema) ∧
    ((∀ d ∈ v.expressions, enclosesReferences 0 d = true) →
      ∀ (front back : List (List Token)) (e : List Token), v.expressions = front ++ e :: back →
        (∀ d ∈ front ++ back, mentions 0 d = []) →
        ∀ (c : Token), v.columns[front.length]? = some c →
        ∀ (single : String), sqlTokens single = (v.restrict c e).tokens →
          ∀ (known : Option (List Column)),
            (readView index defaultSchema known single).columns.map Column.sources =
              (columns[front.length]?.map Column.sources).toList) := by
  intro columns
  obtain ⟨hnames, hsources⟩ := h.columns_readView hsql index defaultSchema known
  refine ⟨hnames, hsources, ?_⟩
  intro hinside front back e hexpressions hothers c hc single hsingle known
  have hcolumn : c ∈ v.columns := List.mem_of_getElem? hc
  have he : e ∈ v.expressions := by simp [hexpressions]
  have hrestrict := ((h.restrict hcolumn he).columns_readView hsingle index defaultSchema known).2
  have hsame := h.origins_restrict hexpressions hinside hothers hcolumn index defaultSchema
  rw [hrestrict, hsame, ← List.getElem?_map, hsources, hexpressions]
  simp [DeclaredView.restrict]

/-- A subquery between expressions that mention no table. -/
theorem readView_of_tokens_subquery :
    let v : DeclaredView := ⟨.word "dbo", [.word "v"],
      [.word "a", .delimited "[b c]", .word "d"],
      [sqlTokens "UPPER(o.Name)", sqlTokens "(SELECT MAX(l.At) FROM dbo.Log l)", sqlTokens "NULL"],
      sqlTokens "dbo.Orders o"⟩
    let sql := "CREATE VIEW dbo.v (a, [b c], d) AS
      SELECT UPPER(o.Name), (SELECT MAX(l.At) FROM dbo.Log l), NULL FROM dbo.Orders o"
    let single :=
      "CREATE VIEW dbo.v ([b c]) AS SELECT (SELECT MAX(l.At) FROM dbo.Log l) FROM dbo.Orders o"
    v.IsProper ∧ sqlTokens sql = v.tokens ∧
      (readView .empty none none sql).columns.map Column.name = ["a", "b c", "d"] ∧
      (readView .empty none none single).columns.map Column.sources = [[⟨"dbo.Log", "At"⟩]] := by
  intro v sql single
  have h : v.IsProper := by decide +kernel
  have hsql : sqlTokens sql = v.tokens := by decide +kernel
  obtain ⟨hnames, hsources, hsame⟩ := readView_of_tokens h hsql .empty none none
  have hsingle := hsame (by decide +kernel) [sqlTokens "UPPER(o.Name)"] [sqlTokens "NULL"] _ rfl
    (by decide +kernel) (.delimited "[b c]") rfl single (by decide +kernel) none
  refine ⟨h, hsql, hnames.trans (by decide +kernel), hsingle.trans ?_⟩
  rw [← List.getElem?_map, hsources]
  decide +kernel

/-- A column without qualifier takes its values from the one table that is read. The table of a
subquery in another expression is read as well, and the column has no origin any more. -/
theorem sources_of_two_tables :
    let v : DeclaredView := ⟨.word "v", [], [.word "a", .word "b"],
      [sqlTokens "Id", sqlTokens "(SELECT MAX(x) FROM dbo.Log)"], sqlTokens "dbo.Orders"⟩
    let sql := "CREATE VIEW v (a, b) AS SELECT Id, (SELECT MAX(x) FROM dbo.Log) FROM dbo.Orders"
    let single := "CREATE VIEW v (a) AS SELECT Id FROM dbo.Orders"
    v.IsProper ∧ sqlTokens sql = v.tokens ∧
      sqlTokens single = (v.restrict (.word "a") (sqlTokens "Id")).tokens ∧
      (readView .empty none none sql).columns.map Column.sources = [[], []] ∧
      (readView .empty none none single).columns.map Column.sources = [[⟨"dbo.Orders", "Id"⟩]] := by
  decide +kernel

end DeclaredView

end Provenance
