import Provenance.Proofs.Query.GroupScan
import Provenance.Proofs.Query.Usage
import Provenance.Proofs.Token.QualifiedNames

/-!
# Common table expressions

The names after `WITH` are collected by looking ahead over the column lists and bodies that the scan
then searches. A single name that is one of them is no table, wherever it stands; everything else
that a body mentions is still found.
-/

namespace Provenance

structure CommonExpression where
  name : Token
  /-- The tokens of the column list, if it is written. -/
  columns? : Option (List Token)
  /-- The keyword `AS`. -/
  mark : Token
  body : List Token
  deriving DecidableEq, Repr

namespace CommonExpression

def columnTokens (c : CommonExpression) : List Token :=
  match c.columns? with
  | none => []
  | some columns => .mark '(' :: (columns ++ [.mark ')'])

def tokens (c : CommonExpression) : List Token :=
  c.name :: (c.columnTokens ++ c.mark :: .mark '(' :: (c.body ++ [.mark ')']))

def commonName (c : CommonExpression) : String := Identifier.bare c.name.text

def bodyMentions (c : CommonExpression) : List Mention := mentions 1 (c.body ++ [.mark ')'])

structure IsProper (c : CommonExpression) : Prop where
  name : c.name.isName = true
  columns : ∀ columns ∈ c.columns?, isBalanced columns = true
  mark : c.mark.spells "AS" = true
  body : isBalanced c.body = true

instance (c : CommonExpression) : Decidable c.IsProper :=
  decidable_of_iff
    (c.name.isName = true ∧ (∀ columns ∈ c.columns?, isBalanced columns = true) ∧
      c.mark.spells "AS" = true ∧ isBalanced c.body = true)
    ⟨fun ⟨name, columns, mark, body⟩ => ⟨name, columns, mark, body⟩,
      fun h => ⟨h.name, h.columns, h.mark, h.body⟩⟩

end CommonExpression

/-- The tokens `CREATE VIEW name AS` in front of the statement of a view. -/
structure ViewHeading where
  create : Token
  view : Token
  name : QualifiedName
  /-- The keyword `AS`. -/
  mark : Token
  deriving DecidableEq, Repr

namespace ViewHeading

def tokens (v : ViewHeading) : List Token := v.create :: v.view :: (v.name.tokens ++ [v.mark])

structure IsProper (v : ViewHeading) : Prop where
  create : v.create.spells "CREATE" = true
  view : v.view.spells "VIEW" = true
  name : v.name.IsProper
  mark : v.mark.spells "AS" = true

instance (v : ViewHeading) : Decidable v.IsProper :=
  decidable_of_iff
    (v.create.spells "CREATE" = true ∧ v.view.spells "VIEW" = true ∧ v.name.IsProper ∧
      v.mark.spells "AS" = true)
    ⟨fun ⟨create, view, name, mark⟩ => ⟨create, view, name, mark⟩,
      fun h => ⟨h.create, h.view, h.name, h.mark⟩⟩

end ViewHeading

/-- A statement with common table expressions in front of it. -/
structure CommonQuery where
  heading? : Option ViewHeading
  /-- The keyword `WITH`. -/
  mark : Token
  expressions : List CommonExpression
  query : List Token

namespace CommonQuery

def headingTokens (x : CommonQuery) : List Token :=
  match x.heading? with
  | none => []
  | some v => v.tokens

def declaredTokens (x : CommonQuery) : List Token :=
  [Token.mark ','].intercalate (x.expressions.map CommonExpression.tokens) ++ x.query

def tokens (x : CommonQuery) : List Token := x.headingTokens ++ x.mark :: x.declaredTokens

def names (x : CommonQuery) : List String := x.expressions.map CommonExpression.commonName

structure IsProper (x : CommonQuery) : Prop where
  heading : ∀ v ∈ x.heading?, v.IsProper
  mark : x.mark.is .WITH = true
  expressions : ∀ c ∈ x.expressions, c.IsProper

instance (x : CommonQuery) : Decidable x.IsProper :=
  decidable_of_iff
    ((∀ v ∈ x.heading?, v.IsProper) ∧ x.mark.is .WITH = true ∧ ∀ c ∈ x.expressions, c.IsProper)
    ⟨fun ⟨heading, mark, expressions⟩ => ⟨heading, mark, expressions⟩,
      fun h => ⟨h.heading, h.mark, h.expressions⟩⟩

end CommonQuery

/-! ## Declarations -/

theorem endsMention_of_spells_as {t : Token} (h : t.spells "AS" = true) (rest : List Token) :
    endsMention (t :: rest) = true := by
  have hreserved := Token.isReserved_of_spells (by decide) h
  have hkeyword : t.keyword? = some .AS := (Token.keyword?_of_spells h).trans (by decide)
  rw [endsMention_iff]
  intro u hu
  obtain rfl : t = u := by simpa using hu
  constructor
  · simp [Token.isName, hreserved]
  · intro k hk
    have hne : Keyword.AS ≠ k := by
      rintro rfl
      exact absurd hk (by decide)
    exact Token.is_of_is (by simp [Token.is, hkeyword]) hne

namespace CommonExpression

variable {c : CommonExpression}

theorem IsProper.commonTables_tokens (h : c.IsProper) (rest : List Token) :
    commonTables (c.tokens ++ rest) =
      .commonTable c.commonName ::
        match afterMark? ',' rest with
        | none => []
        | some next => commonTables next := by
  have htokens : c.tokens ++ rest = c.name ::
      (c.columnTokens ++ c.mark :: .mark '(' :: (c.body ++ .mark ')' :: rest)) := by
    simp [tokens]
  have hidentifier : ∀ ts, identifier? (c.name :: ts) = some (c.name.text, ts) := by
    intro ts
    simp [identifier?, h.name]
  have hopen : c.mark.isMark '(' = false :=
    Token.not_isMark_of_isWord (Token.isWord_of_spells h.mark) '('
  have hcolumns : ∀ ts, skipGroup (c.columnTokens ++ c.mark :: ts) = c.mark :: ts := by
    intro ts
    unfold columnTokens
    cases hcolumns : c.columns? with
    | none => simp [skipGroup, group?, hopen]
    | some columns =>
      have hgroup := group?_of_isBalanced (h.columns columns hcolumns) (c.mark :: ts)
      simp [skipGroup, hgroup]
  have has : ∀ ts, afterKeyword? .AS (c.mark :: ts) = some ts := by
    intro ts
    have hkeyword : c.mark.keyword? = some .AS :=
      (Token.keyword?_of_spells h.mark).trans (by decide)
    simp [afterKeyword?, Token.is, hkeyword]
  have hbody := group?_of_isBalanced h.body rest
  have hskip : skipGroup (.mark '(' :: (c.body ++ .mark ')' :: rest)) = rest := by
    rw [skipGroup, hbody]
    rfl
  rw [htokens, commonTables_eq]
  simp only [hidentifier, hcolumns, has, hbody, hskip]
  rfl

theorem IsProper.mentions_tokens (h : c.IsProper) (level : Nat) :
    ∃ front inner back outer, IsClosing back ∧ ∀ rest, mentions level (c.tokens ++ rest) =
      front ++ (mentions inner (c.body ++ [.mark ')']) ++ mentions outer (back ++ rest)) := by
  have hname := Token.isWord_of_isName h.name
  have hmark := Token.isWord_of_spells h.mark
  have hbody : ∀ level, ∃ back outer, IsClosing back ∧ ∀ rest,
      mentions level (c.mark :: .mark '(' :: (c.body ++ .mark ')' :: rest)) =
        mentions (level + 1) (c.body ++ [.mark ')']) ++ mentions outer (back ++ rest) := by
    intro level
    obtain ⟨back, outer, hback, hrest⟩ :=
      mentions_append_close _ (level + 1) (Nat.le_refl _) h.body
    exact ⟨back, outer, hback, fun rest => by
      rw [mentions_cons_mark level hmark, mentions_open, hrest]⟩
  have htokens : ∀ rest, c.tokens ++ rest = c.name ::
      (c.columnTokens ++ c.mark :: .mark '(' :: (c.body ++ .mark ')' :: rest)) := by
    intro rest
    simp [tokens]
  simp only [htokens]
  unfold columnTokens
  cases hcolumns : c.columns? with
  | none =>
    obtain ⟨back, outer, hback, hrest⟩ := hbody level
    refine ⟨[], level + 1, back, outer, hback, fun rest => ?_⟩
    rw [List.nil_append, List.nil_append,
      mentions_cons_of_endsMention level hname (endsMention_of_spells_as h.mark _), hrest]
  | some columns =>
    obtain ⟨closing, closed, hclosing, hclosed⟩ :=
      mentions_append_close _ (level + 1) (Nat.le_refl _) (h.columns columns hcolumns)
    obtain ⟨behind, hbehind⟩ := hclosing.mentions_append closed
    obtain ⟨back, outer, hback, hrest⟩ := hbody behind
    refine ⟨mentions (level + 1) (columns ++ [.mark ')']), behind + 1, back, outer, hback,
      fun rest => ?_⟩
    rw [List.cons_append, List.append_assoc, List.singleton_append, mentions_cons_mark level hname,
      mentions_open, hclosed, hbehind _ (endsMention_of_spells_as h.mark _), hrest]

end CommonExpression

section Joined

variable {cs : List CommonExpression} (h : ∀ c ∈ cs, c.IsProper)

include h

/-- Common table expressions joined by commas are all declared, and so are those that a further comma
joins to them. -/
theorem commonTables_joined (hne : cs ≠ []) (rest : List Token) :
    commonTables ([Token.mark ','].intercalate (cs.map CommonExpression.tokens) ++ rest) =
      (cs.map fun c => .commonTable c.commonName) ++
        match afterMark? ',' rest with
        | none => []
        | some next => commonTables next := by
  induction cs with
  | nil => exact absurd rfl hne
  | cons c cs ih =>
    have hc := (h c (by simp)).commonTables_tokens
    cases cs with
    | nil =>
      rw [List.map_singleton, List.intercalate_singleton, hc]
      rfl
    | cons next cs =>
      have htail := ih (fun d hd => h d (List.mem_cons_of_mem c hd)) (List.cons_ne_nil next cs)
      have hcomma : ∀ ts, afterMark? ',' (.mark ',' :: ts) = some ts := fun _ => rfl
      rw [List.map_cons, List.map_cons] at htail ⊢
      rw [joined_cons_cons, List.append_assoc, hc, List.cons_append, hcomma]
      simp only [htail, List.map_cons, List.cons_append]

theorem mentions_body_subset (level : Nat) (rest : List Token) {c : CommonExpression}
    (hc : c ∈ cs) : ∃ inner, mentions inner (c.body ++ [.mark ')']) ⊆
      mentions level ([Token.mark ','].intercalate (cs.map CommonExpression.tokens) ++ rest) := by
  induction cs generalizing level with
  | nil => simp at hc
  | cons first cs ih =>
    obtain ⟨front, inner, back, outer, hback, hfirst⟩ :=
      (h first (by simp)).mentions_tokens level
    have hown : ∀ rest, mentions inner (first.body ++ [.mark ')']) ⊆
        mentions level (first.tokens ++ rest) := by
      intro rest
      rw [hfirst]
      exact List.Subset.trans (List.subset_append_left ..) (List.subset_append_right ..)
    cases cs with
    | nil =>
      obtain rfl := List.mem_singleton.mp hc
      rw [List.map_singleton, List.intercalate_singleton]
      exact ⟨inner, hown rest⟩
    | cons next cs =>
      rw [List.map_cons, List.map_cons, joined_cons_cons, List.append_assoc]
      rcases List.mem_cons.mp hc with rfl | hc
      · exact ⟨inner, hown _⟩
      · obtain ⟨behind, hbehind⟩ := hback.mentions_append outer
        obtain ⟨inner, hinner⟩ := ih (fun d hd => h d (List.mem_cons_of_mem first hd)) behind hc
        refine ⟨inner, List.Subset.trans hinner ?_⟩
        rw [hfirst, List.cons_append, hbehind _ rfl, mentions_mark behind rfl, List.map_cons]
        exact List.Subset.trans (List.subset_append_right ..) (List.subset_append_right ..)

end Joined

theorem Token.isQuiet_of_spells {t : Token} {w : String} (h : t.spells w = true)
    (hw : (Token.word w).isQuiet = true) : t.isQuiet = true := by
  have hkeyword : t.keyword? = (Token.word w).keyword? := Token.keyword?_of_spells h
  rw [← hw]
  simp only [Token.isQuiet, Token.isReference, Token.is, hkeyword]

theorem ViewHeading.IsProper.mentions_tokens {v : ViewHeading} (h : v.IsProper)
    (rest : List Token) : mentions 0 (v.tokens ++ rest) = mentions 0 rest := by
  have hflat : ∀ {t : Token} {w : String}, t.spells w = true → t.isFlat = true := fun hspells =>
    Token.isFlat_of_isWord (Token.isWord_of_spells hspells)
  have hlead : ∀ t ∈ [v.create, v.view], t.isQuiet = true ∧ t.isFlat = true := by
    simpa using ⟨⟨Token.isQuiet_of_spells h.create (by decide), hflat h.create⟩,
      ⟨Token.isQuiet_of_spells h.view (by decide), hflat h.view⟩⟩
  have hmark : ∀ t ∈ [v.mark], t.isQuiet = true ∧ t.isFlat = true := by
    simpa using ⟨Token.isQuiet_of_spells h.mark (by decide), hflat h.mark⟩
  have hwords : ∀ t ∈ v.name.first :: v.name.further, t.isWord = true := by
    intro t ht
    rcases List.mem_cons.mp ht with rfl | ht
    · exact Token.isWord_of_isName h.name.first
    · exact (h.name.further t ht).1
  have hname := mentions_dotted 0 hwords (endsMention_of_spells_as h.mark rest)
  have htokens : v.tokens ++ rest = [v.create, v.view] ++ (v.name.tokens ++ v.mark :: rest) := by
    simp [tokens]
  rw [htokens, mentions_append hlead, QualifiedName.tokens, hname]
  exact mentions_append hmark rest

/-! ## Names that are no tables -/

theorem TableUse.namesOneOf_of_subset {names commons : List String} (h : names ⊆ commons)
    {u : TableUse} (hu : u.namesOneOf names = true) : u.namesOneOf commons = true := by
  simp only [TableUse.namesOneOf, Bool.and_eq_true, List.contains_iff_mem] at hu ⊢
  exact ⟨hu.1, List.map_subset Text.lowerCase h hu.2⟩

/-- Whether a mention is a use of a table by one of the names. -/
def Mention.usesOneOf (names : List String) : Mention → Bool
  | .table use => use.namesOneOf names
  | .commonTable _ => false

namespace Usage

/-- Uses by the names of common table expressions can be left out. -/
theorem byName_filter (index : Index) (defaultSchema : Option String) {ms : List Mention}
    {names : List String} (h : names ⊆ commonNames ms) :
    byName index defaultSchema (ms.filter fun m => !m.usesOneOf names) =
      byName index defaultSchema ms := by
  have hcommons : commonNames (ms.filter fun m => !m.usesOneOf names) = commonNames ms := by
    rw [commonNames, commonNames, List.filterMap_filter]
    apply List.filterMap_congr
    intro m _
    cases m with
    | table use => simp
    | commonTable name => rfl
  have huses : tableUses (ms.filter fun m => !m.usesOneOf names) =
      (tableUses ms).filter fun u => !u.namesOneOf names := by
    rw [tableUses, tableUses, List.filterMap_filter, List.filter_filterMap]
    apply List.filterMap_congr
    intro m _
    cases m with
    | table use => cases huse : use.namesOneOf names <;>
      simp [Mention.usesOneOf, Option.filter, huse]
    | commonTable name => rfl
  have hboth : ∀ u : TableUse, (!u.namesOneOf (commonNames ms) && !u.namesOneOf names) =
      !u.namesOneOf (commonNames ms) := by
    intro u
    cases hu : u.namesOneOf names with
    | false => simp
    | true => simp [TableUse.namesOneOf_of_subset h hu]
  rw [byName, byName, hcommons, huses, List.filter_filter]
  simp only [hboth]

end Usage

namespace CommonQuery

variable {x : CommonQuery}

theorem IsProper.mentions_tokens (hx : x.IsProper) :
    mentions 0 x.tokens = commonTables x.declaredTokens ++ mentions 0 x.declaredTokens := by
  have hheading : mentions 0 x.tokens = mentions 0 (x.mark :: x.declaredTokens) := by
    unfold tokens headingTokens
    cases hheading : x.heading? with
    | none => rfl
    | some v => exact (hx.heading v hheading).mentions_tokens _
  have hat : mentionsAt 0 x.mark x.declaredTokens =
      (commonTables x.declaredTokens, x.declaredTokens) := by
    rw [mentionsAt, beq_iff_eq.mp hx.mark]
  rw [hheading, mentions, hat, depthAfter_of_isFlat (Token.isFlat_of_is hx.mark)]

theorem IsProper.names_subset (hx : x.IsProper) : x.names ⊆ commonNames (mentions 0 x.tokens) := by
  intro name hname
  obtain ⟨c, hc, rfl⟩ := List.mem_map.mp hname
  have hdeclared := commonTables_joined hx.expressions (List.ne_nil_of_mem hc) x.query
  have hcommon : .commonTable c.commonName ∈ commonTables x.declaredTokens := by
    rw [declaredTokens, hdeclared]
    exact List.mem_append_left _ (List.mem_map_of_mem hc)
  rw [hx.mentions_tokens, commonNames, List.filterMap_append]
  exact List.mem_append_left _ (List.mem_filterMap.mpr ⟨_, hcommon, rfl⟩)

/-- A single name that is one of the common table expressions contributes nothing to the tables and
aliases of a statement. What a body mentions by itself is mentioned at some depth, and its table is
reported unless its name is that of a common table expression. -/
theorem usage_of_commonTables (hx : x.IsProper) (index : Index) (defaultSchema : Option String) :
    let ms := mentions 0 x.tokens
    let usage := Usage.ofTokens index defaultSchema x.tokens
    usage = Usage.ofMentions index defaultSchema (ms.filter fun m => !m.usesOneOf x.names) ∧
      ∀ c ∈ x.expressions, ∀ u, .table u ∈ c.bodyMentions →
        (∃ depth, .table { u with depth } ∈ ms) ∧
          (u.namesOneOf (commonNames ms) = true ∨
            Usage.referenceId index defaultSchema ms u = "" ∨
            ∃ id ∈ usage.reads ++ usage.writes,
              Text.lowerCase id = Text.lowerCase (Usage.referenceId index defaultSchema ms u)) := by
  intro ms usage
  constructor
  · exact Usage.ofMentions_of_byName
      (Usage.byName_filter index defaultSchema hx.names_subset).symm
  · intro c hc u hu
    obtain ⟨inner, hinner⟩ := mentions_body_subset hx.expressions 0 x.query hc
    obtain ⟨depth, hdepth⟩ := exists_mem_mentions hu inner
    have hmem : .table { u with depth } ∈ ms := by
      show _ ∈ mentions 0 x.tokens
      rw [hx.mentions_tokens]
      exact List.mem_append_right _ (hinner hdepth)
    refine ⟨⟨depth, hmem⟩, ?_⟩
    cases hcommon : u.namesOneOf (commonNames ms) with
    | true => exact .inl rfl
    | false =>
      by_cases hid : Usage.referenceId index defaultSchema ms u = ""
      · exact .inr (.inl hid)
      · exact .inr (.inr (Usage.mem_reads_or_writes (u := { u with depth }) hmem hcommon hid))

/-- Common table expressions that name each other in any case, as sources and as a target, and a
body that ends with a `TOP` clause. -/
theorem usage_of_commonTables_nested :
    let staff : CommonExpression := ⟨.word "d", none, .word "AS",
      [.word "SELECT", .word "1", .word "FROM", .word "hr", .mark '.', .word "Staff"]⟩
    let x : CommonQuery :=
      { heading? := some ⟨.word "Create", .word "view", ⟨.word "dbo", [.word "from"]⟩, .word "as"⟩
        mark := .word "with"
        expressions :=
          [⟨.word "a", some [.word "x", .mark ',', .word "y"], .word "As",
              [.word "SELECT", .mark '*', .word "FROM", .delimited "[B]", .word "q"]⟩,
            ⟨.delimited "[b]", none, .word "AS", [.word "INSERT", .word "a", .word "SELECT",
              .mark '*', .word "FROM", .word "sales", .mark '.', .word "Lines"]⟩,
            ⟨.word "c", none, .word "AS", [.word "DELETE", .word "TOP"]⟩, staff]
        query := [.word "SELECT", .word "x", .word "FROM", .word "C", .mark ',', .word "A"] }
    let ms := mentions 0 x.tokens
    let usage := Usage.ofTokens .empty none x.tokens
    let u : TableUse := ⟨["hr", "Staff"], none, .read, 1⟩
    x.IsProper ∧ staff ∈ x.expressions ∧ .table u ∈ staff.bodyMentions ∧
      (tableUses ms).map TableUse.parts =
        [["[B]"], ["a"], ["sales", "Lines"], ["hr", "Staff"], ["C"], ["A"]] ∧
      usage = Usage.ofMentions .empty none (ms.filter fun m => !m.usesOneOf x.names) ∧
      usage.reads = ["sales.Lines", "hr.Staff"] ∧ usage.writes = [] ∧
      ∃ depth, .table { u with depth } ∈ ms := by
  intro staff x ms usage u
  have hx : x.IsProper := by decide +kernel
  have hstaff : staff ∈ x.expressions := by decide
  have hu : .table u ∈ staff.bodyMentions := by decide +kernel
  obtain ⟨hleft, hbodies⟩ := usage_of_commonTables hx .empty none
  obtain ⟨hcollected, -⟩ := hbodies staff hstaff u hu
  exact ⟨hx, hstaff, hu, by decide +kernel, hleft, by decide +kernel, by decide +kernel,
    hcollected⟩

end CommonQuery

end Provenance
