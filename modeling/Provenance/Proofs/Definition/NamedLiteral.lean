import Provenance.Proofs.Definition.View
import Provenance.Proofs.Query.Subqueries
import Provenance.Proofs.Token.Hidden

/-!
# Literals with a name

A string literal leaves no token. An item that is a literal with an alias is therefore left with
the alias alone, and only `AS` still tells it from a column: without `AS` the alias is read as a
column of the table, and so is a name to which the literal is assigned.
-/

namespace Provenance

/-! ## Literals -/

structure StringLiteral where
  /-- The `N` in front of the literal, in either case. -/
  marker : Option Char
  /-- The characters after the opening quote, with the closing one. -/
  body : List Char
  deriving DecidableEq, Repr

namespace StringLiteral

def chars (l : StringLiteral) : List Char := l.marker.toList ++ '\'' :: l.body

/-- Whether the literal is closed by its last quote and by no quote before it. -/
structure IsProper (l : StringLiteral) : Prop where
  marker : l.marker ∈ [none, some 'N', some 'n']
  closed : closes '\'' l.body = true

instance (l : StringLiteral) : Decidable l.IsProper :=
  decidable_of_iff (l.marker ∈ [none, some 'N', some 'n'] ∧ closes '\'' l.body = true)
    ⟨fun ⟨marker, closed⟩ => ⟨marker, closed⟩, fun h => ⟨h.marker, h.closed⟩⟩

variable {l : StringLiteral} {rest : List Char}

theorem IsProper.nextRegion_chars (h : l.IsProper) (hrest : rest.head? ≠ some '\'') :
    ∃ c tail, l.chars ++ rest = c :: tail ∧
      nextRegion (some ' ') c tail = (.literal l.chars, rest) := by
  have hsplit := splitDelimited_of_closes h.closed hrest
  have hspace : Text.inWord ' ' = false := by decide
  rcases (by simpa using h.marker) with hmarker | hmarker | hmarker
  · refine ⟨'\'', l.body ++ rest, by simp [chars, hmarker], ?_⟩
    simp [nextRegion, hsplit, chars, hmarker]
  · refine ⟨'N', '\'' :: (l.body ++ rest), by simp [chars, hmarker], ?_⟩
    simp [nextRegion, hsplit, chars, hmarker, hspace]
  · refine ⟨'n', '\'' :: (l.body ++ rest), by simp [chars, hmarker], ?_⟩
    simp [nextRegion, hsplit, chars, hmarker, hspace]

theorem IsProper.reads (h : l.IsProper) (hrest : rest.head? ≠ some '\'') :
    Reads (' ' :: l.chars) [] rest := by
  intro before
  have hlast : (' ' :: l.chars).getLast?.or before = l.chars.getLast? := by
    rw [chars, List.getLast?_cons, List.getLast?_append, List.getLast?_cons,
      getLast?_of_closes h.closed]
    rfl
  obtain ⟨c, tail, hchars, hregion⟩ := h.nextRegion_chars hrest
  rw [hlast, List.cons_append, tokensFrom_blank (by decide), hchars,
    tokensFrom_of_isHidden (by rw [hregion]; rfl), hregion]
  rfl

end StringLiteral

/-! ## Statements -/

/-- Where the name of a literal stands. -/
inductive NamePlace where
  /-- Behind the literal and `AS`. -/
  | marked
  /-- Behind the literal. -/
  | trailing
  /-- In front of the literal and an equals sign. -/
  | assigned
  deriving DecidableEq, Repr

/-- A statement that selects a literal with a name from a table. -/
structure NamedLiteral where
  literal : StringLiteral
  place : NamePlace
  name : Token
  table : QualifiedName
  deriving DecidableEq, Repr

namespace NamedLiteral

def before (x : NamedLiteral) : List Token :=
  match x.place with
  | .assigned => [x.name, .mark '=']
  | _ => []

def after (x : NamedLiteral) : List Token :=
  match x.place with
  | .marked => [.word "AS", x.name]
  | .trailing => [x.name]
  | .assigned => []

def item (x : NamedLiteral) : List Token := x.before ++ x.after

def tokens (x : NamedLiteral) : List Token :=
  .word "SELECT" :: (x.item ++ .word "FROM" :: x.table.tokens)

def text (x : NamedLiteral) : String :=
  String.ofList (renderChars (.word "SELECT" :: x.before) ++ (' ' :: x.literal.chars) ++
    ' ' :: renderChars (x.after ++ .word "FROM" :: x.table.tokens))

def columnName (x : NamedLiteral) : String := Identifier.bare x.name.text

/-- The name is no variable and not empty. -/
structure IsProper (x : NamedLiteral) : Prop where
  literal : x.literal.IsProper
  name : x.name.isFreeName = true ∧ x.name.isVariable = false
  named : x.columnName ≠ ""
  table : x.table.IsProper
  whole : ∀ t ∈ x.name :: x.table.tokens, t.isWhole = true

instance (x : NamedLiteral) : Decidable x.IsProper :=
  decidable_of_iff
    (x.literal.IsProper ∧ (x.name.isFreeName = true ∧ x.name.isVariable = false) ∧
      x.columnName ≠ "" ∧ x.table.IsProper ∧
      ∀ t ∈ x.name :: x.table.tokens, t.isWhole = true)
    ⟨fun ⟨literal, name, named, table, whole⟩ => ⟨literal, name, named, table, whole⟩,
      fun h => ⟨h.literal, h.name, h.named, h.table, h.whole⟩⟩

def tableId (index : Index) (defaultSchema : Option String) (x : NamedLiteral) : String :=
  index.tableId defaultSchema x.table.parts

/-- The column of the table that the name stands for when it is read as one. It may be any column
unless those of the table are known. -/
def misread? (index : Index) (defaultSchema : Option String) (x : NamedLiteral) : Option Origin :=
  let id := x.tableId index defaultSchema
  if id.isEmpty || x.name.beginsWith (· == '$') then none
  else
    match index.columnsOf? id with
    | some (_ :: _) => (index.columnOf? id x.columnName).map fun c => ⟨id, c.name⟩
    | _ => some ⟨id, x.columnName⟩

/-- The name of the column that the statement has, and its origins. -/
def column (index : Index) (defaultSchema : Option String) (x : NamedLiteral) :
    String × List Origin :=
  let origin := x.misread? index defaultSchema
  match x.place with
  | .marked => (x.columnName, [])
  | .trailing => ((origin.map Origin.column).getD x.columnName, origin.toList)
  | .assigned => ((origin.map Origin.column).getD "expr_1", origin.toList)

variable {x : NamedLiteral}

/-! ## Reading the text -/

theorem IsProper.isWhole_before (h : x.IsProper) :
    ∀ t ∈ .word "SELECT" :: x.before, t.isWhole = true := by
  have hname := h.whole x.name (by simp)
  have hselect : (Token.word "SELECT").isWhole = true := by decide
  have hsign : (Token.mark '=').isWhole = true := by decide
  unfold before
  cases x.place <;> simp [hname, hselect, hsign]

theorem IsProper.isWhole_after (h : x.IsProper) :
    ∀ t ∈ x.after ++ .word "FROM" :: x.table.tokens, t.isWhole = true := by
  have has : (Token.word "AS").isWhole = true := by decide
  have hfrom : (Token.word "FROM").isWhole = true := by decide
  obtain ⟨hname, htable⟩ := List.forall_mem_cons.mp h.whole
  intro t ht
  rcases List.mem_append.mp ht with ht | ht
  · unfold after at ht
    cases hplace : x.place <;> simp [hplace] at ht
    · rcases ht with rfl | rfl
      · exact has
      · exact hname
    · exact ht ▸ hname
  · rcases List.mem_cons.mp ht with rfl | ht
    · exact hfrom
    · exact htable t ht

theorem IsProper.sqlTokens_text (h : x.IsProper) : sqlTokens x.text = x.tokens := by
  have hblank : [' '].all Text.isBlank = true := by decide
  have hback : Reads (' ' :: renderChars (x.after ++ .word "FROM" :: x.table.tokens)) _ [] :=
    (Reads.blanks hblank).append (.render h.isWhole_after rfl)
  have hliteral := (h.literal.reads (by simp)).append hback
  have hfront : ∀ cs, Reads (renderChars (.word "SELECT" :: x.before)) _ (' ' :: cs) :=
    fun _ => .render h.isWhole_before rfl
  have htext := (Reads.append (hfront _) hliteral).sqlTokens_eq
  rw [text, List.append_assoc]
  simpa [tokens, item] using htext

/-! ## The table -/

theorem IsProper.isItemToken_of_mem_item (h : x.IsProper) :
    ∀ t ∈ x.item, isItemToken t = true := by
  have hname := isItemToken_of_isFreeName h.name.1
  have has : isItemToken (.word "AS") = true := by decide
  have hsign : isItemToken (.mark '=') = true := by decide
  unfold item before after
  cases x.place <;> simp [hname, has, hsign]

theorem IsProper.mentions_tokens (h : x.IsProper) :
    mentions 0 x.tokens = [.table ⟨x.table.parts, none, .read, 0⟩] := by
  have hlist : ∀ t ∈ x.item, isListToken t = true :=
    fun t ht => isListToken_of_isItemToken (h.isItemToken_of_mem_item t ht)
  have hname : qualifiedName? (x.table.tokens ++ []) = some (x.table.parts, []) :=
    h.table.qualifiedName?_tokens_append (by simp)
  have htable : tableUse? .read 0 x.table.tokens =
      some (⟨x.table.parts, none, .read, 0⟩, []) := by
    rw [List.append_nil] at hname
    rw [tableUse?, hname]
    rfl
  rw [tokens, mentions_of_listTokens hlist, mentions_from, tableList_eq, htable]
  simp [afterMark?, mentions]

variable (index : Index) (defaultSchema : Option String)

theorem IsProper.reads_tokens (h : x.IsProper) :
    (Usage.ofTokens index defaultSchema x.tokens).reads =
      [x.tableId index defaultSchema].filter fun id => !id.isEmpty := by
  rw [Usage.ofTokens, h.mentions_tokens]
  exact Usage.reads_ofMentions_singleton index defaultSchema rfl rfl

/-! ## The column -/

theorem IsProper.unlessEmpty_name (h : x.IsProper) :
    unlessEmpty (Identifier.bare x.name.text) = some x.columnName := by
  have hnamed : Identifier.bare x.name.text ≠ "" := h.named
  simp [unlessEmpty, hnamed, columnName]

theorem IsProper.ofTokens_item (h : x.IsProper) :
    SelectItem.ofTokens x.item =
      match x.place with
      | .marked => ⟨some x.columnName, []⟩
      | .trailing => ⟨none, [x.name]⟩
      | .assigned => ⟨none, [x.name, .mark '=']⟩ := by
  obtain ⟨hfree, hvariable⟩ := h.name
  have has : (Token.word "AS").is .AS = true := by decide
  have hsign : (Token.mark '=').isPlainName = false := by decide
  have hnotAs : x.name.is .AS = false :=
    Token.is_eq_false_of_keyword? (by simpa using (Bool.and_eq_true_iff.mp hfree).2) .AS
  have hword := Token.isWord_of_isFreeName hfree
  unfold item before after
  cases x.place <;>
    simp [SelectItem.ofTokens, SelectItem.marked?, SelectItem.assigned?, SelectItem.trailing?,
      SelectItem.aliased, has, hsign, hnotAs, hword, hvariable, h.unlessEmpty_name]

/-- A name alone is a column, unless it is a pseudo-column, and so is one before an equals sign. -/
theorem IsProper.columnChains (h : x.IsProper) {rest : List Token}
    (hrest : rest = [] ∨ rest = [.mark '=']) :
    (chains [] (x.name :: rest)).filter Chain.isColumn =
      if x.name.beginsWith (· == '$') then [] else [⟨[], x.name, rest⟩] := by
  obtain ⟨hfree, hvariable⟩ := h.name
  have hname := (Bool.and_eq_true_iff.mp hfree).1
  have hword := Token.isWord_of_isName hname
  have hnumber := Token.not_isNumber_of_isName hname
  have hreserved := Token.not_isReserved_of_isName hname
  have hsign : (Token.mark '=').isWord = false := rfl
  have hcontinued : ∀ c, (Token.mark '=').isMark c = ('=' == c) := fun _ => rfl
  have hspells : ∀ w, (Token.mark '=').spells w = false := fun _ => rfl
  rcases hrest with rfl | rfl <;> cases hpseudo : x.name.beginsWith (· == '$') <;>
    simp [chains, chainTail, Chain.after, Chain.isColumn, Chain.isContinued, Chain.excludedBy,
      isPhraseWord, beginsWithWords, hword, hnumber, hreserved, hvariable, hsign, hcontinued,
      hspells, hpseudo]

theorem IsProper.unqualified?_tokens (h : x.IsProper)
    (hpseudo : x.name.beginsWith (· == '$') = false) :
    Scope.unqualified? ⟨Usage.ofTokens index defaultSchema x.tokens, index⟩ x.columnName =
      x.misread? index defaultSchema := by
  rw [Scope.unqualified?, h.reads_tokens, misread?]
  cases hempty : (x.tableId index defaultSchema).isEmpty with
  | true => simp [hempty]
  | false =>
    simp only [List.filter_cons, hempty, hpseudo, Bool.not_false, if_true, List.filter_nil,
      Bool.or_self, Bool.false_eq_true, if_false]
    rcases index.columnsOf? (x.tableId index defaultSchema) with - | (- | ⟨c, columns⟩) <;> rfl

theorem IsProper.origins_tokens (h : x.IsProper) {rest : List Token}
    (hrest : rest = [] ∨ rest = [.mark '=']) :
    Scope.origins ⟨Usage.ofTokens index defaultSchema x.tokens, index⟩ (x.name :: rest) =
      (x.misread? index defaultSchema).toList := by
  have hbare : (Chain.mk [] x.name rest).bareNames = [x.columnName] := by
    rcases hrest with rfl | rfl <;> rfl
  have horigin : ∀ scope : Scope, scope.origin? [x.columnName] =
      scope.unqualified? x.columnName := fun _ => rfl
  rw [Scope.origins, h.columnChains hrest]
  cases hpseudo : x.name.beginsWith (· == '$') with
  | true => simp [distinctBy, misread?, hpseudo]
  | false =>
    have hunqualified := h.unqualified?_tokens index defaultSchema hpseudo
    cases hmisread : x.misread? index defaultSchema <;>
      simp [distinctBy, hbare, horigin, hunqualified, hmisread]

/-- What is left of the item is no wildcard. It is a column on its own. -/
theorem IsProper.itemColumns_item (h : x.IsProper) (scope : Scope) :
    scope.itemColumns x.item 0 = [scope.outputColumn 0 (SelectItem.ofTokens x.item)] := by
  have hname := Token.not_isMark_of_isWord (Token.isWord_of_isFreeName h.name.1) '*'
  have hsign : (Token.mark '=').isMark '*' = false := rfl
  have hwildcard : scope.wildcard? (SelectItem.ofTokens x.item).expr = none := by
    rw [h.ofTokens_item]
    cases x.place <;> simp [Scope.wildcard?, hname, hsign]
  rw [Scope.itemColumns, hwildcard]

theorem IsProper.outputItems_tokens (h : x.IsProper) : outputItems x.tokens = [x.item] := by
  have hitem := h.isItemToken_of_mem_item
  have hjoined : [Token.mark ','].intercalate [x.item] = x.item := List.intercalate_singleton
  have hpiece : isPiece x.item = true := by
    apply isPiece_of_isItemToken _ hitem
    unfold item before after
    cases x.place <;> rfl
  have hsequence : awaitsSequence (x.item.reverse ++ [.word "SELECT"]) = false := by
    have hselect : (Token.word "SELECT").spells "NEXT" = false := by decide
    have has : (Token.word "AS").spells "NEXT" = false := by decide
    have hsign : (Token.mark '=').spells "VALUE" = false := rfl
    unfold item before after
    cases x.place <;> simp [awaitsSequence, hselect, has, hsign]
  have hlist : ∀ t ∈ x.item, isListToken t = true :=
    fun t ht => isListToken_of_isItemToken (hitem t ht)
  rw [← hjoined] at hlist hsequence
  have hitems := outputItems_of_listTokens hlist (by simpa using hpiece) hsequence
    x.table.tokens
  rwa [hjoined] at hitems

theorem IsProper.impliedName?_name (h : x.IsProper) :
    impliedName? [x.name] = some x.columnName ∧ impliedName? [x.name, .mark '='] = none := by
  have hplain : x.name.isPlainName = true := by
    rw [Token.isPlainName, (Bool.and_eq_true_iff.mp h.name.1).1, h.name.2]
    rfl
  have hword := Token.isWord_of_isFreeName h.name.1
  have hsign : (Token.mark '=').isWord = false := rfl
  constructor
  · simp [impliedName?, isDotted, hplain, hword, h.unlessEmpty_name]
  · simp [impliedName?, hsign]

theorem IsProper.outputColumns_tokens (h : x.IsProper) :
    (Scope.outputColumns ⟨Usage.ofTokens index defaultSchema x.tokens, index⟩
      (outputItems x.tokens)).map (fun c => (c.name, c.sources)) =
        [x.column index defaultSchema] := by
  have hsingle : ∀ c : Column, uniqueNames [c] = [c] :=
    fun c => uniqueNames_of_nodup (List.nodup_singleton _)
  have hzip : [x.item].zipIdx = [(x.item, 0)] := rfl
  have hnone : ∀ scope : Scope, scope.origins [] = [] := by simp [Scope.origins, chains, distinctBy]
  have hexpr : "expr_" ++ (0 + 1).repr = "expr_1" := by decide
  obtain ⟨himplied, hunnamed⟩ := h.impliedName?_name
  rw [h.outputItems_tokens, Scope.outputColumns, hzip, List.flatMap_singleton]
  simp only [h.itemColumns_item, hsingle, List.map_singleton, h.ofTokens_item, Scope.outputColumn,
    Column.withOrigins_name, Column.withOrigins_sources, Scope.typed_name]
  unfold column
  cases x.place with
  | marked => simp only [hnone, Scope.outputName, Column.named, Option.some_or, Option.getD_some]
  | trailing =>
    simp only [h.origins_tokens index defaultSchema (.inl rfl), Scope.outputName, himplied]
    cases x.misread? index defaultSchema <;> rfl
  | assigned =>
    simp only [h.origins_tokens index defaultSchema (.inr rfl), Scope.outputName, hunnamed, hexpr]
    cases x.misread? index defaultSchema <;> rfl

/-- Under `AS` a literal has no origin. Otherwise its name is a column of the table, if the table
may have one of that name, and where it has none a name in front of the literal is lost. -/
theorem columns_readView_literal (h : x.IsProper) (known : Option (List Column)) :
    (readView index defaultSchema known x.text).columns.map (fun c => (c.name, c.sources)) =
      [x.column index defaultSchema] := by
  have hcolumns := h.outputColumns_tokens index defaultSchema
  have hne : Scope.outputColumns ⟨Usage.ofTokens index defaultSchema x.tokens, index⟩
      (outputItems x.tokens) ≠ [] := by
    intro hnil
    simp [hnil] at hcolumns
  rw [← h.sqlTokens_text] at hcolumns hne
  have hselect : (Token.word "SELECT").is .SELECT = true := by decide
  have hdeclared : declaredColumns? (sqlTokens x.text) = none := by
    rw [h.sqlTokens_text, declaredColumns?, tokens, findHeader?_cons, hselect]
    rfl
  rw [columns_readView_of_undeclared hdeclared rfl hne, hcolumns]

/-- A literal with a quote in it and the name of a column of the table. -/
theorem columns_readView_literal_note :
    let orders : Table := ⟨"dbo.Orders", "Orders", "dbo", [.named "Id", .named "Note"]⟩
    let g : Catalog := { Catalog.empty with tables := [orders] }
    let x : NamedLiteral :=
      ⟨⟨some 'N', "it''s'".toList⟩, .trailing, .delimited "[note]", ⟨.word "Orders", []⟩⟩
    x.text = "SELECT N'it''s' [note] FROM Orders" ∧ x.IsProper ∧
      (readView g.index (some "dbo") none x.text).columns.map (fun c => (c.name, c.sources)) =
        [("Note", [⟨"dbo.Orders", "Note"⟩])] := by
  intro orders g x
  have hx : x.IsProper := by decide +kernel
  have hcolumn : x.column g.index (some "dbo") = ("Note", [⟨"dbo.Orders", "Note"⟩]) := by
    decide +kernel
  have htext : x.text = "SELECT N'it''s' [note] FROM Orders" := by decide +kernel
  exact ⟨htext, hx, (columns_readView_literal g.index (some "dbo") hx none).trans (by rw [hcolumn])⟩

/-- The literal `'x'` with the name `a` has no origin under `AS`, but a column of the table without
it. If the table is known and has no column `a`, an assigned name is lost. -/
theorem columns_readView_of_unmarked :
    let known : Table := ⟨"t", "t", "", [.named "b"]⟩
    let g : Catalog := { Catalog.empty with tables := [known] }
    let columns := fun (index : Index) sql =>
      (readView index none none sql).columns.map fun c => (c.name, c.sources)
    columns .empty "SELECT 'x' AS a FROM t" = [("a", [])] ∧
      columns .empty "SELECT 'x' a FROM t" = [("a", [⟨"t", "a"⟩])] ∧
      columns .empty "SELECT a = 'x' FROM t" = [("a", [⟨"t", "a"⟩])] ∧
      columns g.index "SELECT a = 'x' FROM t" = [("expr_1", [])] := by
  intro known g columns
  have hmarked : sqlTokens "SELECT 'x' AS a FROM t" = [.word "SELECT", .word "AS", .word "a",
      .word "FROM", .word "t"] := (sqlTokens_ofList _).trans (by decide +kernel)
  have htrailing : sqlTokens "SELECT 'x' a FROM t" = [.word "SELECT", .word "a", .word "FROM",
      .word "t"] := (sqlTokens_ofList _).trans (by decide +kernel)
  have hassigned : sqlTokens "SELECT a = 'x' FROM t" = [.word "SELECT", .word "a", .mark '=',
      .word "FROM", .word "t"] := (sqlTokens_ofList _).trans (by decide +kernel)
  simp only [columns, readView, hmarked, htrailing, hassigned]
  decide +kernel

end NamedLiteral

end Provenance
