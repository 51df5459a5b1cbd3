import Provenance.Proofs.Query.SelectList
import Provenance.Proofs.Token.Words
import Provenance.Token.Lex

/-!
# Items of select statements

The items of a statement are found behind whatever stands before its `SELECT` and behind
quantifiers and a `TOP` clause. Calls and subqueries stay inside their items, and so does the
`FOR` of a sequence.
-/

namespace Provenance

/-! ## Items -/

/-- Whether no clause begins in tokens: what would begin one outside their parentheses is a `FOR`
after `NEXT VALUE`. -/
def BeginsNoClause (ts : List Token) : Prop :=
  ∀ i (_ : i < ts.length), net (ts.take i) = 0 → endsList ts[i] = true →
    ts[i].is .FOR = true ∧ awaitsSequence (ts.take i).reverse = true

instance (ts : List Token) : Decidable (BeginsNoClause ts) :=
  inferInstanceAs (Decidable (∀ i (_ : i < ts.length), _ → _ → _))

theorem BeginsNoClause.awaitsSequence {front back : List Token} {t : Token}
    (h : BeginsNoClause (front ++ t :: back)) (hnet : net front = 0)
    (hends : endsList t = true) : awaitsSequence front.reverse = true := by
  have hfor := h front.length (by simp)
  simp only [List.take_left, List.getElem_append_right (Nat.le_refl _), Nat.sub_self,
    List.getElem_cons_zero] at hfor
  exact (hfor hnet hends).2

theorem awaitsSequence_append_left {inner : List Token} (h : awaitsSequence inner = true)
    (before : List Token) : awaitsSequence (inner ++ before) = true := by
  match inner with
  | [] => simp [awaitsSequence] at h
  | [t] => simp [awaitsSequence] at h
  | value :: next :: inner => exact h

/-- Tokens that close all parentheses and in which no clause begins belong to the list. Those of
them that were taken already are `taken`. -/
theorem takeList_of_beginsNoClause {taken ts : List Token} {depth : Nat}
    (htaken : net taken = depth) (hbal : balancedFrom depth ts = true)
    (h : BeginsNoClause (taken ++ ts)) (before rest : List Token) :
    takeList (taken.reverse ++ before) depth (ts ++ rest) =
      ts ++ takeList ((taken ++ ts).reverse ++ before) 0 rest := by
  induction ts generalizing taken depth with
  | nil =>
    obtain rfl : depth = 0 := by simpa [balancedFrom] using hbal
    simp
  | cons t ts ih =>
    -- One more token is taken at the depth that it leaves.
    have htail : ∀ {depth : Nat}, net taken + t.nesting = depth → balancedFrom depth ts = true →
        takeList (t :: (taken.reverse ++ before)) depth (ts ++ rest) =
          ts ++ takeList ((taken ++ t :: ts).reverse ++ before) 0 rest := by
      intro depth hdepth hbal
      have hnet : net (taken ++ [t]) = depth := by simpa using hdepth
      have hts := ih hnet hbal (by simpa using h)
      simpa using hts
    unfold balancedFrom at hbal
    rw [List.cons_append]
    conv => lhs; unfold takeList
    split at hbal
    · rename_i hopen
      have hdepth : net taken + t.nesting = (depth + 1 : Nat) := by
        rw [htaken, nesting_of_open hopen]
        rfl
      rw [if_pos hopen, htail hdepth hbal, List.cons_append]
    split at hbal
    · rename_i hopen hclose
      cases depth with
      | zero => simp at hbal
      | succ outer =>
        have hdepth : net taken + t.nesting = outer := by
          rw [htaken, nesting_of_close hopen hclose]
          omega
        rw [if_neg hopen, if_pos hclose]
        simp only [htail hdepth hbal, List.cons_append]
    · rename_i hopen hclose
      have hdepth : net taken + t.nesting = depth := by
        rw [htaken, nesting_of_isFlat (by simp [Token.isFlat, hopen, hclose]), Int.add_zero]
      have hstays : ¬ (depth = 0 && endsList t &&
          !awaitsSequence (taken.reverse ++ before)) = true := by
        intro hstop
        simp only [Bool.and_eq_true, decide_eq_true_eq, Bool.not_eq_true'] at hstop
        have hsequence := h.awaitsSequence (by simp [htaken, hstop.1.1]) hstop.1.2
        rw [awaitsSequence_append_left hsequence] at hstop
        exact Bool.noConfusion hstop.2
      rw [if_neg hopen, if_neg hclose, if_neg hstays, htail hdepth hbal, List.cons_append]

/-- Tokens that make up an item of a select list. -/
structure IsSelectItem (ts : List Token) : Prop where
  piece : isPiece ts = true
  clauses : BeginsNoClause ts

instance (ts : List Token) : Decidable (IsSelectItem ts) :=
  decidable_of_iff (isPiece ts = true ∧ BeginsNoClause ts)
    ⟨fun ⟨piece, clauses⟩ => ⟨piece, clauses⟩, fun h => ⟨h.piece, h.clauses⟩⟩

theorem takeList_isSelectItem {ts : List Token} (h : IsSelectItem ts)
    (before rest : List Token) :
    takeList before 0 (ts ++ rest) = ts ++ takeList (ts.reverse ++ before) 0 rest := by
  have hpiece := h.piece
  simp only [isPiece, Bool.and_eq_true] at hpiece
  have hnil : net [] = ((0 : Nat) : Int) := rfl
  exact takeList_of_beginsNoClause hnil hpiece.1.2 h.clauses before rest

theorem takeList_joined_items {items : List (List Token)} (h : ∀ ts ∈ items, IsSelectItem ts)
    (before rest : List Token) :
    takeList before 0 ([Token.mark ','].intercalate items ++ rest) =
      [Token.mark ','].intercalate items ++
        takeList (([Token.mark ','].intercalate items).reverse ++ before) 0 rest := by
  have hends : endsList (.mark ',') = false := by decide
  induction items generalizing before with
  | nil => rfl
  | cons ts items ih =>
    have hts := h ts (by simp)
    cases items with
    | nil => simpa [List.intercalate] using takeList_isSelectItem hts before rest
    | cons next items =>
      have htail := ih (fun us hus => h us (List.mem_cons_of_mem ts hus))
        (.mark ',' :: (ts.reverse ++ before))
      rw [joined_cons_cons, List.append_assoc, takeList_isSelectItem hts, List.cons_append,
        takeList]
      simp only [Token.isMark, hends, htail]
      simp

/-! ## The end of the list -/

theorem takeList_of_close {t : Token} (h : t.isMark ')' = true) {before rest : List Token} :
    takeList before 0 (t :: rest) = [] := by
  obtain rfl := Token.eq_mark_of_isMark h
  simp [takeList, Token.isMark]

theorem isFlat_of_endsList {t : Token} (h : endsList t = true) : t.isFlat = true := by
  simp only [endsList, Bool.or_eq_true, List.any_eq_true] at h
  rcases h with (⟨k, -, hk⟩ | hoption) | hmark
  · exact Token.isFlat_of_is hk
  · exact Token.isFlat_of_isWord (Token.isWord_of_spells hoption)
  · exact Token.isFlat_of_isMark hmark (by decide) (by decide)

/-! ## What stands before the items -/

inductive RowCount where
  /-- Tokens in parentheses. -/
  | group (ts : List Token)
  | single (t : Token)
  deriving DecidableEq, Repr

namespace RowCount

def tokens : RowCount → List Token
  | group ts => .mark '(' :: (ts ++ [.mark ')'])
  | single t => [t]

def isProper : RowCount → Bool
  | group ts => isBalanced ts
  | single t => !t.isMark '('

end RowCount

/-- A clause `TOP count [PERCENT] [WITH TIES]`. -/
structure TopClause where
  keyword : Token
  count : RowCount
  percent : Option Token
  ties : Option (Token × Token)
  deriving DecidableEq, Repr

namespace TopClause

def tiesTokens (c : TopClause) : List Token :=
  match c.ties with
  | some (withToken, ties) => [withToken, ties]
  | none => []

def tokens (c : TopClause) : List Token :=
  c.keyword :: (c.count.tokens ++ (c.percent.toList ++ c.tiesTokens))

structure IsProper (c : TopClause) : Prop where
  keyword : c.keyword.is .TOP = true
  count : c.count.isProper = true
  percent : ∀ t ∈ c.percent, t.is .PERCENT = true
  ties : ∀ ts ∈ c.ties, ts.1.is .WITH = true ∧ ts.2.spells "TIES" = true

instance (c : TopClause) : Decidable c.IsProper :=
  decidable_of_iff
    (c.keyword.is .TOP = true ∧ c.count.isProper = true ∧
      (∀ t ∈ c.percent, t.is .PERCENT = true) ∧
      ∀ ts ∈ c.ties, ts.1.is .WITH = true ∧ ts.2.spells "TIES" = true)
    ⟨fun ⟨keyword, count, percent, ties⟩ => ⟨keyword, count, percent, ties⟩,
      fun h => ⟨h.keyword, h.count, h.percent, h.ties⟩⟩

end TopClause

/-- Whether a token can begin the first item of a select list: it is nothing that may stand between
`SELECT` and the list. -/
def beginsItems (t : Token) : Bool :=
  !isQuantifier t && !t.is .TOP && !t.is .PERCENT && !t.is .WITH

theorem group?_rowCount {count : RowCount} (h : count.isProper = true) (rest : List Token) :
    ((group? (count.tokens ++ rest)).map Prod.snd).getD ((count.tokens ++ rest).drop 1) =
      rest := by
  cases count with
  | group ts =>
    have hgroup := group?_of_isBalanced h rest
    simp [RowCount.tokens, hgroup]
  | single t =>
    have hopen : t.isMark '(' = false := by simpa [RowCount.isProper] using h
    simp [RowCount.tokens, group?, hopen]

theorem skipPercent {percent : Option Token} (h : ∀ t ∈ percent, t.is .PERCENT = true)
    {rest : List Token} (hrest : ∀ t ∈ rest.head?, t.is .PERCENT = false) :
    skipKeyword .PERCENT (percent.toList ++ rest) = rest := by
  cases percent with
  | some t => simp [skipKeyword, afterKeyword?, h t rfl]
  | none =>
    cases rest with
    | nil => rfl
    | cons t rest => simp [skipKeyword, afterKeyword?, hrest t rfl]

theorem skipTop_topClause {c : TopClause} (h : c.IsProper) {list : List Token}
    (hlist : ∀ t ∈ list.head?, beginsItems t = true) : skipTop (c.tokens ++ list) = list := by
  have hfirst : ∀ t ∈ list.head?, t.is .PERCENT = false ∧ t.is .WITH = false := by
    intro t ht
    have hitems := hlist t ht
    simp only [beginsItems, Bool.and_eq_true, Bool.not_eq_true'] at hitems
    exact ⟨hitems.1.2, hitems.2⟩
  have hties : ∀ t ∈ (c.tiesTokens ++ list).head?, t.is .PERCENT = false := by
    intro t ht
    unfold TopClause.tiesTokens at ht
    cases hties : c.ties with
    | none =>
      rw [hties] at ht
      exact (hfirst t ht).1
    | some ties =>
      rw [hties] at ht
      obtain rfl : ties.1 = t := by simpa using ht
      exact Token.is_of_is (h.ties ties hties).1 (by decide)
  have hafter : afterKeyword? .TOP (c.tokens ++ list) =
      some (c.count.tokens ++ (c.percent.toList ++ (c.tiesTokens ++ list))) := by
    simp [TopClause.tokens, afterKeyword?, h.keyword]
  unfold skipTop
  rw [hafter]
  simp only [group?_rowCount h.count, skipPercent h.percent hties]
  unfold TopClause.tiesTokens
  cases hties : c.ties with
  | some ties =>
    obtain ⟨hwith, hspells⟩ := h.ties ties hties
    simp [hwith, hspells]
  | none =>
    cases list with
    | nil => rfl
    | cons t list =>
      cases list with
      | nil => rfl
      | cons u list => simp [(hfirst t rfl).2]

/-! ## Statements -/

/-- The parts of a statement with a select list, from its first token on. -/
structure SelectStatement where
  before : List Token
  select : Token
  /-- `DISTINCT` and `ALL`. -/
  quantifiers : List Token
  top : Option TopClause
  items : List (List Token)
  rest : List Token

namespace SelectStatement

def topTokens (s : SelectStatement) : List Token :=
  match s.top with
  | some c => c.tokens
  | none => []

def leadTokens (s : SelectStatement) : List Token := s.quantifiers ++ s.topTokens

def list (s : SelectStatement) : List Token := [Token.mark ','].intercalate s.items

def tokens (s : SelectStatement) : List Token :=
  s.before ++ s.select :: (s.leadTokens ++ (s.list ++ s.rest))

/-- The tokens before those that follow the list, latest first. -/
def passed (s : SelectStatement) : List Token :=
  s.list.reverse ++ (s.leadTokens.reverse ++ s.select :: s.before.reverse)

/-- Statements in which nothing is selected before the select list and a clause or a parenthesis
ends the list. -/
structure IsProper (s : SelectStatement) : Prop where
  closed : net s.before = 0
  before : ∀ t ∈ outside 0 s.before, t.is .SELECT = false
  select : s.select.is .SELECT = true
  quantifiers : ∀ t ∈ s.quantifiers, isQuantifier t = true
  top : ∀ c ∈ s.top, c.IsProper
  nonempty : s.items ≠ []
  items : ∀ ts ∈ s.items, IsSelectItem ts
  first : ∀ ts ∈ s.items.head?, ∀ t ∈ ts.head?, beginsItems t = true
  rest : ∀ t ∈ s.rest.head?, t.isMark ')' = true ∨
    endsList t = true ∧ awaitsSequence s.passed = false

instance (s : SelectStatement) : Decidable s.IsProper :=
  decidable_of_iff
    (net s.before = 0 ∧ (∀ t ∈ outside 0 s.before, t.is .SELECT = false) ∧
      s.select.is .SELECT = true ∧ (∀ t ∈ s.quantifiers, isQuantifier t = true) ∧
      (∀ c ∈ s.top, c.IsProper) ∧ s.items ≠ [] ∧ (∀ ts ∈ s.items, IsSelectItem ts) ∧
      (∀ ts ∈ s.items.head?, ∀ t ∈ ts.head?, beginsItems t = true) ∧
      ∀ t ∈ s.rest.head?, t.isMark ')' = true ∨
        endsList t = true ∧ awaitsSequence s.passed = false)
    ⟨fun ⟨closed, before, select, quantifiers, top, nonempty, items, first, rest⟩ =>
        ⟨closed, before, select, quantifiers, top, nonempty, items, first, rest⟩,
      fun h => ⟨h.closed, h.before, h.select, h.quantifiers, h.top, h.nonempty, h.items, h.first,
        h.rest⟩⟩

variable {s : SelectStatement}

theorem IsProper.head_list (h : s.IsProper) :
    ∀ t ∈ (s.list ++ s.rest).head?, beginsItems t = true := by
  obtain ⟨ts, items, hitems⟩ := List.exists_cons_of_ne_nil h.nonempty
  have hts := (h.items ts (by simp [hitems])).piece
  obtain ⟨u, us, rfl⟩ : ∃ u us, ts = u :: us := by
    cases ts with
    | nil => simp [isPiece] at hts
    | cons u us => exact ⟨u, us, rfl⟩
  have hfirst := h.first (u :: us) (by simp [hitems]) u rfl
  have hhead : (s.list ++ s.rest).head? = some u := by
    rw [list, hitems]
    cases items with
    | nil => simp [List.intercalate]
    | cons next items => simp
  intro t ht
  rw [hhead] at ht
  exact Option.some.inj ht ▸ hfirst

theorem IsProper.skipTop_leadTokens (h : s.IsProper) :
    skipTop ((s.leadTokens ++ (s.list ++ s.rest)).dropWhile isQuantifier) =
      s.list ++ s.rest := by
  have hlist := h.head_list
  unfold leadTokens topTokens
  rw [List.append_assoc, List.dropWhile_append_of_pos h.quantifiers]
  cases htop : s.top with
  | some c =>
    have hc := h.top c htop
    have hkeyword : isQuantifier c.keyword = false := by
      simp [isQuantifier, Token.is_of_is hc.keyword]
    have hdrop : (c.tokens ++ (s.list ++ s.rest)).dropWhile isQuantifier =
        c.tokens ++ (s.list ++ s.rest) := by
      simp [TopClause.tokens, hkeyword]
    simp only [hdrop]
    exact skipTop_topClause hc hlist
  | none =>
    simp only [List.nil_append]
    cases hts : s.list ++ s.rest with
    | nil => rfl
    | cons t ts =>
      have ht := hlist t (by simp [hts])
      simp only [beginsItems, Bool.and_eq_true, Bool.not_eq_true'] at ht
      simp [ht.1.1.1, skipTop, afterKeyword?, ht.1.1.2]

theorem IsProper.selectList_tokens (h : s.IsProper) : selectList s.tokens = s.list := by
  have hrest : takeList s.passed 0 s.rest = [] := by
    cases hts : s.rest with
    | nil => rfl
    | cons t ts =>
      rcases h.rest t (by simp [hts]) with hclose | ⟨hends, hsequence⟩
      · exact takeList_of_close hclose
      · exact takeList_of_endsList (isFlat_of_endsList hends) hends hsequence
  have hlist := takeList_joined_items h.items
    (s.leadTokens.reverse ++ s.select :: s.before.reverse) s.rest
  have hpassed : ([Token.mark ','].intercalate s.items).reverse ++
      (s.leadTokens.reverse ++ s.select :: s.before.reverse) = s.passed := rfl
  rw [hpassed, hrest, List.append_nil] at hlist
  rw [tokens, selectList_of_skipTop h.closed h.before h.select h.skipTop_leadTokens]
  exact hlist

/-- The output items of a statement are exactly the items of its select list, in their order. -/
theorem outputItems_selectStatement (h : s.IsProper) : outputItems s.tokens = s.items :=
  outputItems_of_selectList h.selectList_tokens fun ts hts => (h.items ts hts).piece

/-- A common table expression, a `TOP` clause, a subquery and a sequence. -/
theorem outputItems_selectStatement_sequence :
    let s : SelectStatement :=
      { before := sqlTokens "WITH c AS (SELECT 1 AS x)"
        select := .word "Select"
        quantifiers := [.word "DISTINCT"]
        top := some ⟨.word "TOP", .group (sqlTokens "2 * (3)"), some (.word "PERCENT"),
          some (.word "WITH", .word "ties")⟩
        items := [sqlTokens "(SELECT MAX(d) FROM dbo.Log) AS l", sqlTokens "NEXT VALUE FOR dbo.s",
          sqlTokens "f(a, b)"]
        rest := sqlTokens "FROM c ORDER BY x" }
    s.IsProper ∧ outputItems s.tokens = s.items := by
  intro s
  have h : s.IsProper := by decide +kernel
  exact ⟨h, outputItems_selectStatement h⟩

end SelectStatement

end Provenance
