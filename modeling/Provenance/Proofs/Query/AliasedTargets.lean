import Provenance.Definition.Routine
import Provenance.Proofs.Query.CommonTables
import Provenance.Proofs.Query.Subqueries

/-!
# Targets that are aliases

The target of an `UPDATE` or a `DELETE` may be the alias of a table behind `FROM`, and then this
table is written. A source that is a common table expression is left out before its alias is
known, so a target that is the alias of one is taken for a table of its own name.
-/

namespace Provenance

/-! ## Access -/

/-- The keywords after which a table is written. -/
def writeKeywords : List Keyword := [.INSERT, .MERGE, .UPDATE, .DELETE, .INTO]

theorem access_of_mem_mentionsAt {depth : Nat} {t : Token} {rest : List Token} {u : TableUse}
    (ht : writeKeywords.any t.is = false) (h : .table u ∈ (mentionsAt depth t rest).1) :
    u.access = .read := by
  have hother : ∀ k ∈ writeKeywords, t.keyword? ≠ some k := by
    intro k hmem hk
    have hany : writeKeywords.any t.is = true :=
      List.any_eq_true.mpr ⟨k, hmem, by simp [Token.is, hk]⟩
    rw [ht] at hany
    exact absurd hany (by decide)
  unfold mentionsAt at h
  split at h
  · exact (use_of_mem_tableList h).1
  · exact (use_of_mem_oneTable h).1
  · exact (use_of_mem_oneTable h).1
  · exact (use_of_mem_oneTable h).1
  · exact absurd (by assumption) (hother .INSERT (by decide))
  · exact absurd (by assumption) (hother .MERGE (by decide))
  · exact absurd (by assumption) (hother .UPDATE (by decide))
  · exact absurd (by assumption) (hother .DELETE (by decide))
  · exact absurd (by assumption) (hother .INTO (by decide))
  · exact absurd h (not_mem_commonTables u rest)
  · simp at h

theorem access_of_mem_mentions {depth : Nat} {ts : List Token}
    (hts : ∀ t ∈ ts, writeKeywords.any t.is = false) {u : TableUse}
    (h : .table u ∈ mentions depth ts) : u.access = .read := by
  fun_induction mentions depth ts with
  | case1 => simp at h
  | case2 depth t rest ih =>
    rcases List.mem_append.mp h with h | h
    · exact access_of_mem_mentionsAt (hts t (by simp)) h
    · obtain ⟨skipped, hrest⟩ := mentionsAt_split depth t rest
      apply ih _ h
      intro u hu
      apply hts u
      rw [hrest]
      simp [hu]

theorem enclosesReferences_of_balancedFrom {depth : Nat} {ts : List Token}
    (h : balancedFrom depth ts = true) (hts : ∀ t ∈ ts, writeKeywords.any t.is = false) :
    enclosesReferences (depth + 1) (ts ++ [.mark ')']) = true := by
  have hfirst : ∀ {t : Token}, writeKeywords.any t.is = false → topKeywords.any t.is = false := by
    intro t ht
    rw [List.any_eq_false] at ht ⊢
    have hsubset : topKeywords ⊆ writeKeywords := by decide
    exact fun k hk => ht k (hsubset hk)
  fun_induction balancedFrom depth ts with
  | case1 depth =>
    obtain rfl : depth = 0 := by simpa using h
    decide
  | case2 depth t rest hopen ih =>
    have htail := ih h fun u hu => hts u (List.mem_cons_of_mem t hu)
    simp [enclosesReferences, hfirst (hts t (by simp)), hopen, htail]
  | case3 t rest hopen hclose => simp at h
  | case4 t rest hopen hclose outer ih =>
    have htail := ih h fun u hu => hts u (List.mem_cons_of_mem t hu)
    simp [enclosesReferences, hfirst (hts t (by simp)), hopen, hclose, htail]
  | case5 depth t rest hopen hclose ih =>
    have htail := ih h fun u hu => hts u (List.mem_cons_of_mem t hu)
    simp [enclosesReferences, hfirst (hts t (by simp)), hopen, hclose, htail]

namespace Usage

variable {index : Index} {defaultSchema : Option String}

/-- The only table of a statement that is written, and is no common table expression, has the id
that its name refers to. -/
theorem writes_ofMentions {before after : List Mention} {u : TableUse} (hu : u.access = .write)
    (hbefore : ∀ v, .table v ∈ before → v.access = .read)
    (hafter : ∀ v, .table v ∈ after → v.access = .read)
    (hcommon : u.namesOneOf (commonNames (before ++ .table u :: after)) = false) :
    (ofMentions index defaultSchema (before ++ .table u :: after)).writes =
      [referenceId index defaultSchema (before ++ .table u :: after) u].filter
        fun id => !id.isEmpty := by
  have hread : ∀ {ms : List Mention} {all : List Mention},
      (∀ v, .table v ∈ ms → v.access = .read) →
        (((((tableUses ms).filter fun v => !v.namesOneOf (commonNames all)).map fun v =>
          (⟨v, referenceId index defaultSchema all v⟩ : ResolvedUse)).filter
            fun v => !v.id.isEmpty).filter fun v => v.use.access == .write) = [] := by
    intro ms all hms
    apply List.filter_eq_nil_iff.mpr
    intro r hr
    obtain ⟨v, hv, rfl⟩ := List.mem_map.mp (List.mem_filter.mp hr).1
    have hv := hms v (mem_tableUses.mp (List.mem_filter.mp hv).1)
    simp [hv]
  have huses : tableUses (before ++ .table u :: after) =
      tableUses before ++ ([u] ++ tableUses after) := by
    simp [tableUses]
  have hown : [u].filter (fun v => !v.namesOneOf (commonNames (before ++ .table u :: after))) =
      [u] := by
    simp [hcommon]
  have hwrites : ∀ ms, (ofMentions index defaultSchema ms).writes =
      idsOf (fun v => v.access == .write) (resolved (byName index defaultSchema ms)) :=
    fun _ => rfl
  rw [hwrites, idsOf, resolved_byName, huses]
  simp only [List.filter_append, List.map_append, hread hbefore, hread hafter, hown,
    List.nil_append, List.append_nil, List.map_singleton]
  by_cases hid : referenceId index defaultSchema (before ++ .table u :: after) u = ""
  · simp [hid, distinctBy]
  · simp [hid, hu, distinctBy]

/-- A use by a single name that a use at the end declares as its alias is that table, unless this
is a common table expression, which declares nothing. -/
theorem lastDeclaring?_source (index : Index) (defaultSchema : Option String)
    (before after : List Mention) {u s : TableUse} {name : String} (hu : u.aliasName = none)
    (hs : s.aliasName.any fun declared => Text.lowerCase declared == Text.lowerCase name) :
    lastDeclaring? name
        (byName index defaultSchema (before ++ .table u :: (after ++ [.table s]))) =
      if s.namesOneOf (commonNames (before ++ after)) then
        lastDeclaring? name (byName index defaultSchema (before ++ after))
      else some ⟨s, index.tableId defaultSchema s.parts⟩ := by
  have hcommons : commonNames (before ++ .table u :: (after ++ [.table s])) =
      commonNames (before ++ after) := by
    simp [commonNames]
  have huses : tableUses (before ++ .table u :: (after ++ [.table s])) =
      tableUses before ++ ([u] ++ (tableUses after ++ [s])) := by
    simp [tableUses]
  have hothers : tableUses (before ++ after) = tableUses before ++ tableUses after := by
    simp [tableUses]
  have hnone : lastDeclaring? name (([u].filter fun v =>
      !v.namesOneOf (commonNames (before ++ after))).map fun v =>
        ⟨v, index.tableId defaultSchema v.parts⟩) = none := by
    cases hcommon : u.namesOneOf (commonNames (before ++ after)) <;>
      simp [lastDeclaring?, hcommon, hu]
  rw [byName, byName, hcommons, huses, hothers]
  simp only [List.filter_append, List.map_append, lastDeclaring?_append, hnone, Option.or_none]
  cases hcommon : s.namesOneOf (commonNames (before ++ after)) with
  | true => simp [hcommon, lastDeclaring?]
  | false => simp [hcommon, lastDeclaring?, hs]

end Usage

/-! ## Statements -/

structure CommonTable where
  name : Token
  body : List Token
  deriving DecidableEq, Repr

namespace CommonTable

def tokens (c : CommonTable) : List Token :=
  c.name :: .word "AS" :: .mark '(' :: (c.body ++ [.mark ')'])

def commonName (c : CommonTable) : String := Identifier.bare c.name.text

def bodyMentions (c : CommonTable) : List Mention := mentions 1 (c.body ++ [.mark ')'])

/-- Common table expressions that change no table. -/
structure IsProper (c : CommonTable) : Prop where
  name : c.name.isFreeName = true
  balanced : isBalanced c.body = true
  reads : ∀ t ∈ c.body, writeKeywords.any t.is = false

instance (c : CommonTable) : Decidable c.IsProper :=
  decidable_of_iff
    (c.name.isFreeName = true ∧ isBalanced c.body = true ∧
      ∀ t ∈ c.body, writeKeywords.any t.is = false)
    ⟨fun ⟨name, balanced, reads⟩ => ⟨name, balanced, reads⟩,
      fun h => ⟨h.name, h.balanced, h.reads⟩⟩

variable {c : CommonTable}

theorem IsProper.access_of_mem_bodyMentions (h : c.IsProper) {u : TableUse}
    (hu : .table u ∈ c.bodyMentions) : u.access = .read := by
  apply access_of_mem_mentions _ hu
  intro t ht
  rcases List.mem_append.mp ht with ht | ht
  · exact h.reads t ht
  · obtain rfl := List.mem_singleton.mp ht
    decide

def expression (c : CommonTable) : CommonExpression := ⟨c.name, none, .word "AS", c.body⟩

theorem IsProper.expression (h : c.IsProper) : c.expression.IsProper where
  name := (Bool.and_eq_true_iff.mp h.name).1
  columns := by simp [CommonTable.expression]
  mark := (by decide : (Token.word "AS").spells "AS" = true)
  body := h.balanced

theorem IsProper.mentions_tokens (h : c.IsProper) (rest : List Token) :
    mentions 0 (c.tokens ++ rest) = c.bodyMentions ++ mentions 0 rest := by
  have hname : c.name.isQuiet = true ∧ c.name.isFlat = true := by
    have hitem := isListToken_of_isItemToken (isItemToken_of_isFreeName h.name)
    obtain ⟨hflat, hquiet, -⟩ := isListToken_iff.mp hitem
    exact ⟨hquiet, hflat⟩
  have hlead : ∀ t ∈ [c.name, .word "AS"], t.isQuiet = true ∧ t.isFlat = true := by
    have has : (Token.word "AS").isQuiet = true ∧ (Token.word "AS").isFlat = true := by decide
    simpa using ⟨hname, has⟩
  have hencloses := enclosesReferences_of_balancedFrom h.balanced h.reads
  have hbody := mentions_append_inside _ 0 (Nat.le_refl _) hencloses rest
  have htokens : c.tokens ++ rest =
      [c.name, .word "AS"] ++ Token.mark '(' :: (c.body ++ [.mark ')'] ++ rest) := by
    simp [tokens]
  rw [htokens, mentions_append hlead, mentions_open]
  exact hbody

end CommonTable

theorem mentions_joined_commons {cs : List CommonTable} (h : ∀ c ∈ cs, c.IsProper)
    (rest : List Token) :
    mentions 0 ([Token.mark ','].intercalate (cs.map CommonTable.tokens) ++ rest) =
      cs.flatMap CommonTable.bodyMentions ++ mentions 0 rest := by
  induction cs with
  | nil => rfl
  | cons c cs ih =>
    have hc := (h c (by simp)).mentions_tokens
    have htail := ih fun d hd => h d (List.mem_cons_of_mem c hd)
    cases cs with
    | nil => simpa [List.intercalate_singleton] using hc rest
    | cons next cs =>
      rw [List.map_cons] at htail
      rw [List.map_cons, List.map_cons, joined_cons_cons, List.append_assoc, hc, List.cons_append,
        mentions_mark 0 rfl, htail, ← List.append_assoc]
      rfl

/-- An `UPDATE`, if there are assignments, or a `DELETE` that names its target by an alias. -/
structure AliasedChange where
  commons : List CommonTable
  target : Token
  assignments : Option (List Token)
  source : AliasedTable
  deriving DecidableEq, Repr

namespace AliasedChange

def commonTokens (x : AliasedChange) : List Token :=
  if x.commons.isEmpty then []
  else .word "WITH" :: [Token.mark ','].intercalate (x.commons.map CommonTable.tokens)

def targetTokens (x : AliasedChange) : List Token :=
  match x.assignments with
  | some assigned => .word "UPDATE" :: x.target :: .word "SET" :: assigned
  | none => [.word "DELETE", x.target]

def tokens (x : AliasedChange) : List Token :=
  x.commonTokens ++ (x.targetTokens ++ .word "FROM" :: x.source.tokens)

def use (x : AliasedChange) : TableUse := ⟨[x.target.text], none, .write, 0⟩

def commonMentions (x : AliasedChange) : List Mention :=
  x.commons.map (fun c => .commonTable c.commonName) ++ x.commons.flatMap CommonTable.bodyMentions

def assignmentMentions (x : AliasedChange) : List Mention := mentions 0 (x.assignments.getD [])

/-- What is mentioned besides the target and its source. -/
def otherMentions (x : AliasedChange) : List Mention := x.commonMentions ++ x.assignmentMentions

/-- Statements that change no table but their target, which spells the alias of the source in any
case and is no common table expression itself. -/
structure IsProper (x : AliasedChange) : Prop where
  commons : ∀ c ∈ x.commons, c.IsProper
  target : x.target.isPlainName = true ∧ x.target.is .TOP = false ∧ x.target.is .FROM = false
  assignments : ∀ assigned ∈ x.assignments, enclosesReferences 0 assigned = true ∧
    ∀ t ∈ assigned, writeKeywords.any t.is = false
  source : x.source.IsProper
  aliasName : Text.lowerCase (Identifier.bare x.target.text) = Text.lowerCase x.source.aliasName
  uncommon : x.use.namesOneOf (commonNames x.otherMentions) = false

instance (x : AliasedChange) : Decidable x.IsProper :=
  decidable_of_iff
    ((∀ c ∈ x.commons, c.IsProper) ∧
      (x.target.isPlainName = true ∧ x.target.is .TOP = false ∧ x.target.is .FROM = false) ∧
      (∀ assigned ∈ x.assignments, enclosesReferences 0 assigned = true ∧
        ∀ t ∈ assigned, writeKeywords.any t.is = false) ∧
      x.source.IsProper ∧
      Text.lowerCase (Identifier.bare x.target.text) = Text.lowerCase x.source.aliasName ∧
      x.use.namesOneOf (commonNames x.otherMentions) = false)
    ⟨fun ⟨commons, target, assignments, source, aliasName, uncommon⟩ =>
        ⟨commons, target, assignments, source, aliasName, uncommon⟩,
      fun h => ⟨h.commons, h.target, h.assignments, h.source, h.aliasName, h.uncommon⟩⟩

variable {x : AliasedChange}

theorem IsProper.oneTable_target (h : x.IsProper) {t : Token} (hreserved : t.isReserved = true)
    (has : t.is .AS = false) (hword : t.isWord = true) (rest : List Token) :
    oneTable .write 0 (x.target :: t :: rest) = ([.table x.use], t :: rest) := by
  have hmark : ∀ c, ∀ u ∈ (t :: rest).head?, u.isMark c = false := by
    intro c u hu
    obtain rfl : t = u := Option.some.inj hu
    exact Token.not_isMark_of_isWord hword c
  have hname : QualifiedName.IsProper ⟨x.target, []⟩ :=
    ⟨Token.isName_of_isPlainName h.target.1, by simp⟩
  have hparts : qualifiedName? (x.target :: t :: rest) = some ([x.target.text], t :: rest) :=
    hname.qualifiedName?_tokens_append (hmark '.')
  have hends : endsTable (t :: rest) = true := by simp [endsTable, hreserved, has]
  rw [oneTable, tableUse?, hparts, Option.map_some]
  simp only [skipGroup_of_head (hmark '('), aliasName?_of_endsTable hends]
  rfl

theorem IsProper.mentions_targetTokens (h : x.IsProper) (rest : List Token) :
    mentions 0 (x.targetTokens ++ .word "FROM" :: rest) =
      .table x.use :: (x.assignmentMentions ++ mentions 0 (.word "FROM" :: rest)) := by
  obtain ⟨-, htop, hfrom⟩ := h.target
  have hskipTop : ∀ ts, skipTop (x.target :: ts) = x.target :: ts := by
    intro ts
    simp [skipTop, afterKeyword?, htop]
  have hskipFrom : ∀ ts, skipKeyword .FROM (x.target :: ts) = x.target :: ts := by
    intro ts
    simp [skipKeyword, afterKeyword?, hfrom]
  cases hassigned : x.assignments with
  | some assigned =>
    have hupdate : (Token.word "UPDATE").keyword? = some .UPDATE := by decide
    have htarget := h.oneTable_target (t := .word "SET") (by decide) (by decide) rfl
    have hquiet : ∀ t ∈ [Token.word "SET"], t.isQuiet = true ∧ t.isFlat = true := by decide
    have hset : ∀ ts, mentions 0 (.word "SET" :: ts) = mentions 0 ts := mentions_append hquiet
    have hassignments := mentions_append_of_enclosesReferences (h.assignments assigned hassigned).1
    have htokens : x.targetTokens ++ .word "FROM" :: rest = .word "UPDATE" :: x.target ::
        .word "SET" :: (assigned ++ .word "FROM" :: rest) := by
      simp [targetTokens, hassigned]
    rw [htokens, mentions, mentionsAt, hupdate, depthAfter_of_isFlat (by decide)]
    simp only [hskipTop, htarget, hset, hassignments]
    rw [assignmentMentions, hassigned]
    rfl
  | none =>
    have hdelete : (Token.word "DELETE").keyword? = some .DELETE := by decide
    have htarget := h.oneTable_target (t := .word "FROM") (by decide) (by decide) rfl
    have htokens : x.targetTokens ++ .word "FROM" :: rest = .word "DELETE" :: x.target ::
        .word "FROM" :: rest := by
      simp [targetTokens, hassigned]
    have hnone : x.assignmentMentions = [] := by
      rw [assignmentMentions, hassigned, Option.getD_none, mentions]
    rw [htokens, mentions, mentionsAt, hdelete, depthAfter_of_isFlat (by decide)]
    simp only [hskipTop, hskipFrom, htarget, hnone]
    rfl

theorem IsProper.mentions_commonTokens (h : x.IsProper) {rest : List Token}
    (hrest : afterMark? ',' rest = none) :
    mentions 0 (x.commonTokens ++ rest) = x.commonMentions ++ mentions 0 rest := by
  unfold commonTokens commonMentions
  cases hcommons : x.commons with
  | nil => rfl
  | cons c cs =>
    have hproper : ∀ d ∈ c :: cs, d.IsProper := hcommons ▸ h.commons
    have hexpressions : ∀ d ∈ (c :: cs).map CommonTable.expression, d.IsProper := by
      intro d hd
      obtain ⟨e, he, rfl⟩ := List.mem_map.mp hd
      exact (hproper e he).expression
    have hdeclared := commonTables_joined hexpressions (by simp) rest
    have htokens : CommonExpression.tokens ∘ CommonTable.expression = CommonTable.tokens := rfl
    rw [hrest, List.append_nil, List.map_map, List.map_map, htokens] at hdeclared
    have hwith : (Token.word "WITH").keyword? = some .WITH := by decide
    rw [List.isEmpty_cons, if_neg (by decide), List.cons_append, mentions, mentionsAt, hwith,
      depthAfter_of_isFlat (by decide)]
    simp only [hdeclared, mentions_joined_commons hproper, List.append_assoc]
    rfl

/-- The tables of a statement are those of its common table expressions, its target, those of its
assignments and its source. -/
theorem IsProper.mentions_tokens (h : x.IsProper) :
    mentions 0 x.tokens =
      x.commonMentions ++ .table x.use :: (x.assignmentMentions ++ [.table x.source.use]) := by
  have hcomma : afterMark? ',' (x.targetTokens ++ .word "FROM" :: x.source.tokens) = none := by
    unfold targetTokens
    cases x.assignments <;> rfl
  have hsource : mentions 0 (.word "FROM" :: x.source.tokens) = [.table x.source.use] := by
    have hnone : afterMark? ',' ([] : List Token) = none := rfl
    have hlist := tableList_aliased (List.cons_ne_nil x.source []) (by simpa using h.source) hnone
    rw [List.map_singleton, List.intercalate_singleton, List.append_nil] at hlist
    rw [mentions_from, hlist, mentions]
    rfl
  rw [tokens, h.mentions_commonTokens hcomma, h.mentions_targetTokens, hsource]

theorem IsProper.access_of_mem_commonMentions (h : x.IsProper) {u : TableUse}
    (hu : .table u ∈ x.commonMentions) : u.access = .read := by
  rcases List.mem_append.mp hu with hu | hu
  · simp at hu
  · obtain ⟨c, hc, hu⟩ := List.mem_flatMap.mp hu
    exact (h.commons c hc).access_of_mem_bodyMentions hu

theorem IsProper.access_of_mem_later (h : x.IsProper) {u : TableUse}
    (hu : .table u ∈ x.assignmentMentions ++ [.table x.source.use]) : u.access = .read := by
  rcases List.mem_append.mp hu with hu | hu
  · apply access_of_mem_mentions _ hu
    cases hassigned : x.assignments with
    | none => simp
    | some assigned => exact (h.assignments assigned hassigned).2
  · obtain rfl := Mention.table.inj (List.mem_singleton.mp hu)
    rfl

section Written

variable {index : Index} {defaultSchema : Option String}

/-- The target refers to the table of its alias, and the alias of a common table expression to what
another use declares by it or to a table of that name. -/
theorem IsProper.referenceId_use (h : x.IsProper) :
    Usage.referenceId index defaultSchema (mentions 0 x.tokens) x.use =
      if x.source.use.namesOneOf (commonNames x.otherMentions) then
        ((Usage.lastDeclaring? x.source.aliasName
          (Usage.byName index defaultSchema x.otherMentions)).map ResolvedUse.id).getD
            (index.tableId defaultSchema [x.target.text])
      else x.source.id index defaultSchema := by
  have hcase : ∀ uses, Usage.lastDeclaring? x.use.lastPart uses =
      Usage.lastDeclaring? x.source.aliasName uses := by
    have hlast : x.use.lastPart = Identifier.bare x.target.text := rfl
    intro uses
    simp only [Usage.lastDeclaring?, hlast, h.aliasName]
  have hdeclares : x.source.use.aliasName.any fun declared =>
      Text.lowerCase declared == Text.lowerCase x.source.aliasName := by
    simp [AliasedTable.use]
  have hlast := Usage.lastDeclaring?_source index defaultSchema x.commonMentions
    x.assignmentMentions (u := x.use) rfl hdeclares
  have hsingle : (x.use.isSimple && x.use.aliasName.isNone) = true := rfl
  rw [Usage.referenceId, if_pos hsingle, hcase, h.mentions_tokens, hlast]
  rw [otherMentions]
  split
  · rw [use]
  · rw [Option.map_some, Option.getD_some, AliasedTable.id, AliasedTable.use]

theorem IsProper.writes_tokens (h : x.IsProper) :
    (Usage.ofTokens index defaultSchema x.tokens).writes =
      [Usage.referenceId index defaultSchema (mentions 0 x.tokens) x.use].filter
        fun id => !id.isEmpty := by
  have hcommons : commonNames (x.commonMentions ++
      .table x.use :: (x.assignmentMentions ++ [.table x.source.use])) =
        commonNames x.otherMentions := by
    simp [commonNames, otherMentions]
  rw [Usage.ofTokens, h.mentions_tokens]
  apply Usage.writes_ofMentions rfl (fun _ hv => h.access_of_mem_commonMentions hv)
    (fun _ hv => h.access_of_mem_later hv)
  rw [hcommons]
  exact h.uncommon

end Written

/-- The only table that a statement writes is that of its alias. The alias of a common table
expression is lost, so the target is the table that another use declares by it or a table of that
name. -/
theorem writes_of_aliasedChange (h : x.IsProper) {sql : String} (hsql : sqlTokens sql = x.tokens)
    (index : Index) (defaultSchema : Option String) :
    let usage := Usage.ofTokens index defaultSchema (sqlTokens sql)
    let isCommon := x.source.use.namesOneOf (commonNames x.otherMentions)
    let declaring? := Usage.lastDeclaring? x.source.aliasName
      (Usage.byName index defaultSchema x.otherMentions)
    (isCommon = false →
      usage.writes = [x.source.id index defaultSchema].filter fun id => !id.isEmpty) ∧
    (isCommon = true →
      usage.writes = [(declaring?.map ResolvedUse.id).getD
        (index.tableId defaultSchema [x.target.text])].filter fun id => !id.isEmpty) ∧
    (routineUsage index defaultSchema sql).affectedTables =
      usage.writes.filter fun id => !isTransient id := by
  intro usage isCommon declaring?
  have hwrites : usage.writes = [Usage.referenceId index defaultSchema (mentions 0 x.tokens)
      x.use].filter fun id => !id.isEmpty := by
    rw [← h.writes_tokens, ← hsql]
  refine ⟨fun hcommon => ?_, fun hcommon => ?_, rfl⟩
  · rw [hwrites, h.referenceId_use, if_neg (Bool.eq_false_iff.mp hcommon)]
  · rw [hwrites, h.referenceId_use, if_pos hcommon]

/-- A table that is updated by its alias, which a common table expression declares for another
one. -/
theorem writes_of_aliasedChange_update :
    let x : AliasedChange :=
      { commons := [⟨.word "c", sqlTokens "SELECT x FROM t a"⟩, ⟨.word "d", sqlTokens "SELECT 1"⟩]
        target := .word "A"
        assignments := some (sqlTokens "x = (SELECT max(x) FROM c)")
        source := ⟨⟨.word "dbo", [.word "s"]⟩, some (.word "AS"), .word "a"⟩ }
    let sql := "WITH c AS (SELECT x FROM t a), d AS (SELECT 1)
      UPDATE A SET x = (SELECT max(x) FROM c) FROM dbo.s AS a"
    x.IsProper ∧ sqlTokens sql = x.tokens ∧
      (Usage.ofTokens Catalog.empty.index (some "dbo") (sqlTokens sql)).writes = ["dbo.s"] ∧
      (routineUsage Catalog.empty.index (some "dbo") sql).affectedTables = ["dbo.s"] := by
  intro x sql
  have hfirst : sqlTokens "SELECT x FROM t a" =
      [.word "SELECT", .word "x", .word "FROM", .word "t", .word "a"] :=
    (sqlTokens_ofList _).trans (by decide +kernel)
  have hsecond : sqlTokens "SELECT 1" = [.word "SELECT", .word "1"] :=
    (sqlTokens_ofList _).trans (by decide +kernel)
  have hassignments : sqlTokens "x = (SELECT max(x) FROM c)" =
      [.word "x", .mark '=', .mark '(', .word "SELECT", .word "max", .mark '(', .word "x",
        .mark ')', .word "FROM", .word "c", .mark ')'] :=
    (sqlTokens_ofList _).trans (by decide +kernel)
  have hx : x.IsProper := by
    simp only [x, hfirst, hsecond, hassignments]
    decide +kernel
  have hsql : sqlTokens sql = x.tokens := by
    simp only [x, hfirst, hsecond, hassignments]
    exact (sqlTokens_ofList _).trans (by decide +kernel)
  have hsource : x.source.use.namesOneOf (commonNames x.otherMentions) = false := by
    simp only [x, hfirst, hsecond, hassignments]
    decide +kernel
  have hid : [x.source.id Catalog.empty.index (some "dbo")].filter (fun id => !id.isEmpty) =
      ["dbo.s"] := by decide +kernel
  have hkept : ["dbo.s"].filter (fun id => !isTransient id) = ["dbo.s"] := by decide +kernel
  obtain ⟨hwrites, -, haffected⟩ :=
    writes_of_aliasedChange hx hsql Catalog.empty.index (some "dbo")
  have hwrites := (hwrites hsource).trans hid
  exact ⟨hx, hsql, hwrites, by rw [haffected, hwrites, hkept]⟩

/-- The alias of a common table expression is reported as a table, whether it is the target of an
`UPDATE` or of a `DELETE`. -/
theorem writes_alias_of_commonTable :
    let update : AliasedChange :=
      { commons := [⟨.word "c", sqlTokens "SELECT x FROM t"⟩]
        target := .word "a"
        assignments := some (sqlTokens "x = 1")
        source := ⟨⟨.word "c", []⟩, none, .word "a"⟩ }
    let delete : AliasedChange := { update with assignments := none }
    let updating := "WITH c AS (SELECT x FROM t) UPDATE a SET x = 1 FROM c a"
    let deleting := "WITH c AS (SELECT x FROM t) DELETE a FROM c a"
    let writes := fun sql defaultSchema =>
      (Usage.ofTokens Catalog.empty.index defaultSchema (sqlTokens sql)).writes
    let affected := fun sql defaultSchema =>
      (routineUsage Catalog.empty.index defaultSchema sql).affectedTables
    (update.IsProper ∧ sqlTokens updating = update.tokens ∧
      writes updating none = ["a"] ∧ affected updating none = ["a"] ∧
      writes updating (some "dbo") = ["dbo.a"] ∧ affected updating (some "dbo") = ["dbo.a"]) ∧
      delete.IsProper ∧ sqlTokens deleting = delete.tokens ∧
      writes deleting none = ["a"] ∧ affected deleting (some "dbo") = ["dbo.a"] := by
  intro update delete updating deleting writes affected
  have hbody : sqlTokens "SELECT x FROM t" =
      [.word "SELECT", .word "x", .word "FROM", .word "t"] :=
    (sqlTokens_ofList _).trans (by decide +kernel)
  have hassignments : sqlTokens "x = 1" = [.word "x", .mark '=', .word "1"] :=
    (sqlTokens_ofList _).trans (by decide +kernel)
  have hupdating : sqlTokens updating = update.tokens := by
    simp only [update, hbody, hassignments]
    exact (sqlTokens_ofList _).trans (by decide +kernel)
  have hdeleting : sqlTokens deleting = delete.tokens := by
    simp only [delete, update, hbody]
    exact (sqlTokens_ofList _).trans (by decide +kernel)
  simp only [writes, affected, routineUsage, hupdating, hdeleting]
  simp only [delete, update, hbody, hassignments]
  decide +kernel

end AliasedChange

end Provenance
