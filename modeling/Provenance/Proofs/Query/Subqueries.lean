import Provenance.Proofs.Query.Bindings
import Provenance.Proofs.Query.FromClause
import Provenance.Proofs.Query.MentionDepth
import Provenance.Proofs.Query.NameChains
import Provenance.Proofs.Token.QualifiedNames
import Provenance.Query.Attribution

/-!
# Subqueries in a condition

A statement whose tables have aliases and whose items are qualified by them does not depend on the
subquery in its condition. The aliases of all depths share one table, though, and so do the common
table expressions: a subquery that declares an alias of the statement again moves it to another
table, and one that declares the name of a table as a common table expression hides the table.
-/

namespace Provenance

/-- Whether a token is a name that spells no keyword. -/
def Token.isFreeName (t : Token) : Bool := t.isName && t.keyword?.isNone

/-- An item of a select list that is a wildcard or a column of a table. -/
inductive QualifiedItem where
  | star
  | all (qualifier : Token)
  | column (qualifier name : Token)
  deriving DecidableEq, Repr

namespace QualifiedItem

def tokens : QualifiedItem → List Token
  | star => [.mark '*']
  | all q => [q, .mark '.', .mark '*']
  | column q c => [q, .mark '.', c]

def qualifier? : QualifiedItem → Option Token
  | star => none
  | all q => some q
  | column q _ => some q

/-- Whether the item is qualified by a name, in any case. -/
def isQualifiedBy (name : String) (item : QualifiedItem) : Bool :=
  item.qualifier?.any fun q => Text.lowerCase (Identifier.bare q.text) == Text.lowerCase name

def isProper : QualifiedItem → Bool
  | star => true
  | all q => q.isFreeName
  | column q c => q.isFreeName && c.isFreeName

end QualifiedItem

structure AliasedTable where
  name : QualifiedName
  /-- `AS`, if it is written. -/
  mark? : Option Token
  aliasToken : Token
  deriving DecidableEq, Repr

namespace AliasedTable

def tokens (r : AliasedTable) : List Token :=
  r.name.tokens ++ (r.mark?.toList ++ [r.aliasToken])

def aliasName (r : AliasedTable) : String := Identifier.bare r.aliasToken.text

def use (r : AliasedTable) : TableUse := ⟨r.name.parts, some r.aliasName, .read, 0⟩

def id (index : Index) (defaultSchema : Option String) (r : AliasedTable) : String :=
  index.tableId defaultSchema r.name.parts

def resolvedUse (index : Index) (defaultSchema : Option String) (r : AliasedTable) :
    ResolvedUse :=
  ⟨r.use, r.id index defaultSchema⟩

theorem id_resolvedUse (index : Index) (defaultSchema : Option String) (r : AliasedTable) :
    (r.resolvedUse index defaultSchema).id = r.id index defaultSchema := by
  rw [resolvedUse]

structure IsProper (r : AliasedTable) : Prop where
  name : r.name.IsProper
  mark : ∀ t ∈ r.mark?, t.is .AS = true
  aliasName : r.aliasToken.isPlainName = true ∧ r.aliasToken.is .AS = false

instance (r : AliasedTable) : Decidable r.IsProper :=
  decidable_of_iff
    (r.name.IsProper ∧ (∀ t ∈ r.mark?, t.is .AS = true) ∧
      (r.aliasToken.isPlainName = true ∧ r.aliasToken.is .AS = false))
    ⟨fun ⟨name, mark, aliasName⟩ => ⟨name, mark, aliasName⟩,
      fun h => ⟨h.name, h.mark, h.aliasName⟩⟩

end AliasedTable

/-- A statement that selects from tables where a subquery has rows. -/
structure ExistsQuery where
  items : List QualifiedItem
  tables : List AliasedTable

namespace ExistsQuery

def tokens (x : ExistsQuery) (inner : List Token) : List Token :=
  .word "SELECT" :: ([Token.mark ','].intercalate (x.items.map QualifiedItem.tokens) ++
    .word "FROM" :: ([Token.mark ','].intercalate (x.tables.map AliasedTable.tokens) ++
      .word "WHERE" :: .word "EXISTS" :: .mark '(' :: (inner ++ [.mark ')'])))

def isQualifier (x : ExistsQuery) (r : AliasedTable) : Bool :=
  x.items.any (QualifiedItem.isQualifiedBy r.aliasName)

def aliasKeys (x : ExistsQuery) : List String :=
  x.tables.map fun r => Text.lowerCase r.aliasName

/-- The aliases of the tables differ, and the items are qualified by them. -/
structure IsProper (x : ExistsQuery) : Prop where
  items : ∀ item ∈ x.items, item.isProper = true
  tables : ∀ r ∈ x.tables, r.IsProper
  nonempty : x.tables ≠ []
  aliases : x.aliasKeys.Nodup
  qualifiers : ∀ item ∈ x.items, item = .star ∨ ∃ r ∈ x.tables, item.isQualifiedBy r.aliasName

instance (x : ExistsQuery) : Decidable x.IsProper :=
  decidable_of_iff
    ((∀ item ∈ x.items, item.isProper = true) ∧ (∀ r ∈ x.tables, r.IsProper) ∧ x.tables ≠ [] ∧
      x.aliasKeys.Nodup ∧
      ∀ item ∈ x.items, item = .star ∨ ∃ r ∈ x.tables, item.isQualifiedBy r.aliasName)
    ⟨fun ⟨items, tables, nonempty, aliases, qualifiers⟩ =>
        ⟨items, tables, nonempty, aliases, qualifiers⟩,
      fun h => ⟨h.items, h.tables, h.nonempty, h.aliases, h.qualifiers⟩⟩

def innerMentions (inner : List Token) : List Mention := mentions 1 (inner ++ [.mark ')'])

/-- A subquery that takes away no name of the statement: an alias by which an item is qualified is
declared again for the same table only, and no table that an item stands for has the name of a
common table expression. -/
structure Keeps (index : Index) (defaultSchema : Option String) (x : ExistsQuery)
    (inner : List Token) : Prop where
  balanced : isBalanced inner = true
  aliases : ∀ r ∈ x.tables, x.isQualifier r →
    ∀ u ∈ Usage.lastDeclaring? r.aliasName (Usage.byName index defaultSchema (innerMentions inner)),
      u.id = r.id index defaultSchema
  tables : ∀ r ∈ x.tables, .star ∈ x.items ∨ x.isQualifier r →
    r.use.namesOneOf (commonNames (innerMentions inner)) = false

instance (index : Index) (defaultSchema : Option String) (x : ExistsQuery) (inner : List Token) :
    Decidable (x.Keeps index defaultSchema inner) :=
  decidable_of_iff
    (isBalanced inner = true ∧
      (∀ r ∈ x.tables, x.isQualifier r →
        ∀ u ∈ Usage.lastDeclaring? r.aliasName
          (Usage.byName index defaultSchema (innerMentions inner)),
          u.id = r.id index defaultSchema) ∧
      ∀ r ∈ x.tables, .star ∈ x.items ∨ x.isQualifier r →
        r.use.namesOneOf (commonNames (innerMentions inner)) = false)
    ⟨fun ⟨balanced, aliases, tables⟩ => ⟨balanced, aliases, tables⟩,
      fun h => ⟨h.balanced, h.aliases, h.tables⟩⟩

end ExistsQuery

/-! ## The select list -/

theorem outputItems_of_listTokens {pieces : List (List Token)}
    (hlist : ∀ t ∈ [Token.mark ','].intercalate pieces, isListToken t = true)
    (hpieces : ∀ piece ∈ pieces, isPiece piece = true)
    (hsequence : awaitsSequence (([Token.mark ','].intercalate pieces).reverse ++
      [.word "SELECT"]) = false) (rest : List Token) :
    outputItems (.word "SELECT" :: ([Token.mark ','].intercalate pieces ++
      .word "FROM" :: rest)) = pieces := by
  have hfrom : isQuantifier (.word "FROM") = false ∧ (Token.word "FROM").is .TOP = false := by
    decide
  apply outputItems_of_selectList _ hpieces
  rw [← List.nil_append (Token.word "SELECT" :: _)]
  apply selectList_append rfl (by simp [outside]) (by decide)
  · intro t ht
    rw [List.head?_append] at ht
    rcases Option.or_eq_some_iff.mp ht with ht | ⟨-, ht⟩
    · have hitem := isListToken_iff.mp (hlist t (List.mem_of_head? ht))
      obtain ⟨-, -, -, hquantifier, htop, -⟩ := hitem
      exact ⟨hquantifier, htop⟩
    · exact Option.some.inj ht ▸ hfrom
  · exact isBalanced_of_isFlat fun t ht => isFlat_of_isListToken (hlist t ht)
  · intro t ht
    obtain ⟨-, -, hends, -⟩ := isListToken_iff.mp (hlist t (outside_subset ht))
    exact hends
  · exact takeList_of_endsList (by decide) (by decide) hsequence

theorem mentions_of_listTokens {ts : List Token} (hts : ∀ t ∈ ts, isListToken t = true)
    (rest : List Token) : mentions 0 (.word "SELECT" :: (ts ++ rest)) = mentions 0 rest := by
  have hselect : (Token.word "SELECT").isQuiet = true ∧ (Token.word "SELECT").isFlat = true := by
    decide
  have hlist : ∀ t ∈ .word "SELECT" :: ts, t.isQuiet = true ∧ t.isFlat = true := by
    intro t ht
    rcases List.mem_cons.mp ht with rfl | ht
    · exact hselect
    · obtain ⟨hflat, hquiet, -⟩ := isListToken_iff.mp (hts t ht)
      exact ⟨hquiet, hflat⟩
  rw [← List.cons_append, mentions_append hlist]

theorem isItemToken_of_isFreeName {t : Token} (h : t.isFreeName = true) : isItemToken t = true := by
  simp only [Token.isFreeName, Bool.and_eq_true, Option.isNone_iff_eq_none] at h
  have hword := Token.isWord_of_isName h.1
  have hkeyword := Token.is_eq_false_of_keyword? h.2
  have hoption : t.spells "OPTION" = false := by
    cases hspells : t.spells "OPTION" with
    | false => rfl
    | true =>
      have hreserved := Token.isReserved_of_spells (by decide) hspells
      rw [Token.not_isReserved_of_isName h.1] at hreserved
      exact absurd hreserved (by decide)
  simp [isItemToken, isListToken, Token.isFlat, Token.isQuiet, Token.isReference,
    referenceKeywords, endsList, listEnders, isQuantifier, hkeyword, hoption,
    Token.not_isMark_of_isWord hword]

namespace QualifiedItem

variable {item : QualifiedItem}

theorem isItemToken_of_mem_tokens (h : item.isProper = true) {t : Token} (ht : t ∈ item.tokens) :
    isItemToken t = true := by
  have hstar : isItemToken (.mark '*') = true := by decide
  have hdot : isItemToken (.mark '.') = true := by decide
  cases item with
  | star =>
    obtain rfl := List.mem_singleton.mp ht
    exact hstar
  | all q =>
    rcases (by simpa [tokens] using ht) with rfl | rfl | rfl
    · exact isItemToken_of_isFreeName h
    · exact hdot
    · exact hstar
  | column q c =>
    obtain ⟨hq, hc⟩ := Bool.and_eq_true_iff.mp h
    rcases (by simpa [tokens] using ht) with rfl | rfl | rfl
    · exact isItemToken_of_isFreeName hq
    · exact hdot
    · exact isItemToken_of_isFreeName hc

theorem isPiece_tokens (h : item.isProper = true) : isPiece item.tokens = true :=
  isPiece_of_isItemToken (by cases item <;> rfl) fun _ ht => isItemToken_of_mem_tokens h ht

theorem awaitsSequence_tokens (item : QualifiedItem) (before : List Token) :
    awaitsSequence (item.tokens.reverse ++ before) = false := by
  have hdot : (Token.mark '.').spells "NEXT" = false := rfl
  have hstar : (Token.mark '*').spells "VALUE" = false := rfl
  cases item with
  | star => cases before <;> simp [tokens, awaitsSequence, hstar]
  | all q => simp [tokens, awaitsSequence, hdot]
  | column q c => simp [tokens, awaitsSequence, hdot]

variable {items : List QualifiedItem}

theorem awaitsSequence_joined (items : List QualifiedItem) :
    awaitsSequence (([Token.mark ','].intercalate (items.map tokens)).reverse ++
      [.word "SELECT"]) = false := by
  rcases List.eq_nil_or_concat items with rfl | ⟨front, last, rfl⟩
  · rfl
  · obtain ⟨more, hmore, -⟩ := joined_concat (front.map tokens) last.tokens
    rw [List.map_concat, List.concat_eq_append, hmore, List.reverse_append, List.append_assoc]
    exact last.awaitsSequence_tokens _

theorem isListToken_of_mem_joined (h : ∀ item ∈ items, item.isProper = true) :
    ∀ t ∈ [Token.mark ','].intercalate (items.map tokens), isListToken t = true := by
  apply forall_mem_joined (p := fun t => isListToken t = true) (by decide)
  intro piece hpiece t ht
  obtain ⟨item, hitem, rfl⟩ := List.mem_map.mp hpiece
  exact isListToken_of_isItemToken (isItemToken_of_mem_tokens (h item hitem) ht)

theorem outputItems_joined (h : ∀ item ∈ items, item.isProper = true) (rest : List Token) :
    outputItems (.word "SELECT" :: ([Token.mark ','].intercalate (items.map tokens) ++
      .word "FROM" :: rest)) = items.map tokens := by
  apply outputItems_of_listTokens (isListToken_of_mem_joined h) _ (awaitsSequence_joined items)
  intro piece hpiece
  obtain ⟨item, hitem, rfl⟩ := List.mem_map.mp hpiece
  exact isPiece_tokens (h item hitem)

end QualifiedItem

theorem ExistsQuery.IsProper.outputItems_tokens {x : ExistsQuery} (hx : x.IsProper)
    (inner : List Token) : outputItems (x.tokens inner) = x.items.map QualifiedItem.tokens :=
  QualifiedItem.outputItems_joined hx.items _

/-! ## The tables -/

theorem tableUse?_of_alias (access : Access) (depth : Nat) {ts : List Token} {parts : List String}
    (hname : ∀ after : List Token, (∀ t ∈ after.head?, t.isMark '.' = false) →
      qualifiedName? (ts ++ after) = some (parts, after))
    {mark? : Option Token} (hmark : ∀ t ∈ mark?, t.is .AS = true) {name : Token}
    (hplain : name.isPlainName = true) (has : mark? = none → name.is .AS = false)
    (rest : List Token) :
    tableUse? access depth (ts ++ (mark?.toList ++ name :: rest)) =
      some (⟨parts, some (Identifier.bare name.text), access, depth⟩, rest) := by
  have hword := Token.isWord_of_isName (Token.isName_of_isPlainName hplain)
  -- No mark stands behind the name, so it goes on neither with a part nor with arguments.
  have hhead : ∀ c, ∀ t ∈ (mark?.toList ++ name :: rest).head?, t.isMark c = false := by
    intro c t ht
    cases mark? with
    | none =>
      obtain rfl : name = t := by simpa using ht
      exact Token.not_isMark_of_isWord hword c
    | some mark =>
      obtain rfl : mark = t := by simpa using ht
      exact Token.not_isMark_of_isWord (Token.isWord_of_is (hmark mark rfl)) c
  have hgroup : skipGroup (mark?.toList ++ name :: rest) = mark?.toList ++ name :: rest :=
    skipGroup_of_head (hhead '(')
  have halias : aliasName? (mark?.toList ++ name :: rest) =
      some (Identifier.bare name.text, rest) := by
    cases mark? with
    | none => simp [aliasName?, has rfl, hplain]
    | some mark => simp [aliasName?, hmark mark rfl, hplain]
  rw [tableUse?, hname _ (hhead '.'), Option.map_some]
  simp only [hgroup, halias]

theorem AliasedTable.IsProper.tableUse?_tokens {r : AliasedTable} (h : r.IsProper)
    (rest : List Token) : tableUse? .read 0 (r.tokens ++ rest) = some (r.use, rest) := by
  obtain ⟨hplain, has⟩ := h.aliasName
  have htokens : r.tokens ++ rest = r.name.tokens ++ (r.mark?.toList ++ r.aliasToken :: rest) := by
    simp [tokens]
  rw [htokens]
  exact tableUse?_of_alias .read 0 (fun _ => h.name.qualifiedName?_tokens_append) h.mark hplain
    (fun _ => has) rest

theorem tableList_joined {α : Type} {tokens : α → List Token} {use : α → TableUse} {rs : List α}
    (hne : rs ≠ [])
    (h : ∀ r ∈ rs, ∀ rest, tableUse? .read 0 (tokens r ++ rest) = some (use r, rest))
    {rest : List Token} (hrest : afterMark? ',' rest = none) :
    tableList .read 0 ([Token.mark ','].intercalate (rs.map tokens) ++ rest) =
      (rs.map fun r => .table (use r), rest) := by
  induction rs with
  | nil => exact absurd rfl hne
  | cons r rs ih =>
    have hr := h r (by simp)
    cases rs with
    | nil =>
      rw [tableList_eq, List.map_singleton, List.intercalate_singleton, hr]
      simp only [hrest]
      rfl
    | cons next rs =>
      have htail := ih (List.cons_ne_nil next rs) fun s hs => h s (List.mem_cons_of_mem r hs)
      have hcomma : ∀ ts, afterMark? ',' (.mark ',' :: ts) = some ts := fun _ => rfl
      rw [List.map_cons, List.map_cons] at htail ⊢
      rw [tableList_eq, joined_cons_cons, List.append_assoc, hr]
      simp only [List.cons_append, hcomma, htail, List.map_cons]

theorem tableList_aliased {rs : List AliasedTable} (hne : rs ≠ [])
    (h : ∀ r ∈ rs, r.IsProper) {rest : List Token} (hrest : afterMark? ',' rest = none) :
    tableList .read 0 ([Token.mark ','].intercalate (rs.map AliasedTable.tokens) ++ rest) =
      (rs.map fun r => .table r.use, rest) :=
  tableList_joined hne (fun r hr => (h r hr).tableUse?_tokens) hrest

namespace ExistsQuery

variable {x : ExistsQuery}

/-- The statement mentions its tables, and then what the subquery mentions. -/
theorem IsProper.mentions_tokens (hx : x.IsProper) (inner : List Token) :
    mentions 0 (x.tokens inner) =
      (x.tables.map AliasedTable.use).map .table ++ innerMentions inner := by
  have hrest : ∀ ts, afterMark? ',' (.word "WHERE" :: ts) = none := fun _ => rfl
  have hquiet : ∀ t ∈ [Token.word "WHERE", .word "EXISTS"],
      t.isQuiet = true ∧ t.isFlat = true := by
    decide
  have hwhere : ∀ ts, mentions 0 (.word "WHERE" :: .word "EXISTS" :: ts) = mentions 0 ts :=
    mentions_append hquiet
  have hlist := QualifiedItem.isListToken_of_mem_joined hx.items
  rw [tokens, mentions_of_listTokens hlist, mentions_from,
    tableList_aliased hx.nonempty hx.tables (hrest _), hwhere, mentions_open, List.map_map]
  rfl

end ExistsQuery

/-! ## What the names stand for -/

namespace Usage

theorem lastDeclaring?_append (name : String) (us vs : List ResolvedUse) :
    lastDeclaring? name (us ++ vs) = (lastDeclaring? name vs).or (lastDeclaring? name us) := by
  rw [lastDeclaring?, List.reverse_append, List.find?_append]
  rfl

/-- Of the tables that have an alias and the uses inside parentheses the tables are read outside
parentheses. -/
theorem idsOf_topLevel_append {us vs : List ResolvedUse}
    (hus : ∀ u ∈ us, u.use.aliasName.isSome ∧ u.use.access = .read ∧ u.use.depth = 0)
    (hvs : ∀ v ∈ vs, 1 ≤ v.use.depth) :
    idsOf (fun u => u.access == .read && u.depth == 0) (resolved (us ++ vs)) =
      distinctBy Text.lowerCase ((us.map ResolvedUse.id).filter fun id => !id.isEmpty) := by
  have huse : ∀ b u, (ResolvedUse.followAlias b u).use = u.use := by
    intro b u
    unfold ResolvedUse.followAlias
    split <;> rfl
  have hfollow : ∀ b, us.map (ResolvedUse.followAlias b) = us := by
    intro b
    apply (List.map_congr_left fun u hu => ?_).trans (List.map_id us)
    have halias := (hus u hu).1
    have hsome : u.use.aliasName.isNone = false := by
      rw [← Option.not_isSome, halias]
      rfl
    simp [ResolvedUse.followAlias, hsome]
  have htop : ∀ u ∈ us.filter fun u => !u.id.isEmpty,
      (u.use.access == .read && u.use.depth == 0) = true := by
    intro u hu
    obtain ⟨-, haccess, hdepth⟩ := hus u (List.mem_filter.mp hu).1
    simp [haccess, hdepth]
  have hinner : ∀ u ∈ (vs.map (ResolvedUse.followAlias (declared (us ++ vs)))).filter
      fun u => !u.id.isEmpty, ¬ (u.use.access == .read && u.use.depth == 0) = true := by
    intro u hu
    obtain ⟨v, hv, rfl⟩ := List.mem_map.mp (List.mem_filter.mp hu).1
    have hdepth := hvs v hv
    simp only [huse, Bool.and_eq_true, beq_iff_eq]
    omega
  rw [idsOf, resolved, List.map_append, hfollow, List.filter_append, List.filter_append,
    List.filter_eq_self.mpr htop, List.filter_eq_nil_iff.mpr hinner, List.append_nil,
    List.filter_map]
  rfl

end Usage

namespace ExistsQuery

variable {x : ExistsQuery} {index : Index} {defaultSchema : Option String} {inner : List Token}

/-- The tables of the statement that a common table expression of the subquery does not hide. -/
def seenTables (x : ExistsQuery) (inner : List Token) : List AliasedTable :=
  x.tables.filter fun r => !r.use.namesOneOf (commonNames (innerMentions inner))

theorem mem_seenTables {r : AliasedTable} : r ∈ x.seenTables inner ↔
    r ∈ x.tables ∧ r.use.namesOneOf (commonNames (innerMentions inner)) = false := by
  simp [seenTables]

theorem IsProper.byName_tokens (hx : x.IsProper) (index : Index) (defaultSchema : Option String)
    (inner : List Token) :
    Usage.byName index defaultSchema (mentions 0 (x.tokens inner)) =
      (x.seenTables inner).map (AliasedTable.resolvedUse index defaultSchema) ++
        Usage.byName index defaultSchema (innerMentions inner) := by
  rw [hx.mentions_tokens, Usage.byName_tables_append, List.filter_map, List.map_map]
  rfl

theorem IsProper.lookup?_alias (hx : x.IsProper) (h : x.Keeps index defaultSchema inner)
    {r : AliasedTable} (hr : r ∈ x.tables) (hqualifier : x.isQualifier r = true) {name : String}
    (hname : Text.lowerCase name = Text.lowerCase r.aliasName) :
    (Usage.ofTokens index defaultSchema (x.tokens inner)).bindings.lookup? name =
      some (r.id index defaultSchema) := by
  have hseen : r ∈ x.seenTables inner := mem_seenTables.mpr ⟨hr, h.tables r hr (.inr hqualifier)⟩
  have houter : Usage.lastDeclaring? r.aliasName
      ((x.seenTables inner).map (AliasedTable.resolvedUse index defaultSchema)) =
        some (r.resolvedUse index defaultSchema) := by
    apply find?_eq_some_of_unique
    · exact List.mem_reverse.mpr (List.mem_map_of_mem hseen)
    · simp [AliasedTable.resolvedUse, AliasedTable.use]
    · intro u hu halias
      obtain ⟨s, hs, rfl⟩ := List.mem_map.mp (List.mem_reverse.mp hu)
      have hkey : Text.lowerCase s.aliasName = Text.lowerCase r.aliasName := by
        simpa [AliasedTable.resolvedUse, AliasedTable.use] using halias
      rw [List.inj_on_of_nodup_map hx.aliases (mem_seenTables.mp hs).1 hr hkey]
  have hlast : (Usage.lastDeclaring? r.aliasName
      (Usage.byName index defaultSchema (mentions 0 (x.tokens inner)))).map ResolvedUse.id =
        some (r.id index defaultSchema) := by
    rw [hx.byName_tokens, Usage.lastDeclaring?_append, houter]
    cases hinner : Usage.lastDeclaring? r.aliasName
        (Usage.byName index defaultSchema (innerMentions inner)) with
    | none => simp only [Option.none_or, Option.map_some, AliasedTable.id_resolvedUse]
    | some u => simp only [Option.some_or, Option.map_some, h.aliases r hr hqualifier u hinner]
  have hcase : ∀ uses, Usage.lastDeclaring? name uses = Usage.lastDeclaring? r.aliasName uses := by
    intro uses
    simp only [Usage.lastDeclaring?, hname]
  rw [Usage.ofTokens, Usage.lookup?_ofMentions, hcase, hlast, Option.some_or]

/-- The ids of the tables that have one, each once. -/
def tableIds (index : Index) (defaultSchema : Option String) (x : ExistsQuery) : List String :=
  distinctBy Text.lowerCase
    ((x.tables.map (AliasedTable.id index defaultSchema)).filter fun id => !id.isEmpty)

theorem tableIds_ne_nil (h : ∃ r ∈ x.tables, r.id index defaultSchema ≠ "") :
    x.tableIds index defaultSchema ≠ [] := by
  obtain ⟨r, hr, hne⟩ := h
  have hmem : r.id index defaultSchema ∈
      (x.tables.map (AliasedTable.id index defaultSchema)).filter fun id => !id.isEmpty :=
    List.mem_filter.mpr ⟨List.mem_map_of_mem hr, by simpa using hne⟩
  obtain ⟨id, hfound, -⟩ : ∃ id ∈ x.tableIds index defaultSchema,
      Text.lowerCase id = Text.lowerCase (r.id index defaultSchema) := exists_mem_distinctBy hmem
  exact List.ne_nil_of_mem hfound

theorem IsProper.topLevelReads_tokens (hx : x.IsProper) (h : x.Keeps index defaultSchema inner)
    (hstar : .star ∈ x.items) :
    (Usage.ofTokens index defaultSchema (x.tokens inner)).topLevelReads =
      x.tableIds index defaultSchema := by
  have hall : x.seenTables inner = x.tables :=
    List.filter_eq_self.mpr fun r hr => by simp [h.tables r hr (.inl hstar)]
  have hids : ((x.tables.map (AliasedTable.resolvedUse index defaultSchema)).map ResolvedUse.id) =
      x.tables.map (AliasedTable.id index defaultSchema) := by
    rw [List.map_map]
    exact List.map_congr_left fun r _ => r.id_resolvedUse index defaultSchema
  rw [Usage.ofTokens, Usage.ofMentions]
  simp only [hx.byName_tokens, hall]
  rw [Usage.idsOf_topLevel_append, hids, tableIds]
  · intro u hu
    obtain ⟨r, -, rfl⟩ := List.mem_map.mp hu
    exact ⟨rfl, rfl, rfl⟩
  · intro u hu
    obtain ⟨v, hv, -, rfl⟩ := Usage.mem_byName.mp hu
    exact one_le_depth_of_mem_mentions (staysInside_of_isBalanced h.balanced) hv

theorem IsProper.starTables_tokens (hx : x.IsProper) (h : x.Keeps index defaultSchema inner)
    (hstar : .star ∈ x.items) (hid : ∃ r ∈ x.tables, r.id index defaultSchema ≠ "") :
    (Scope.mk (Usage.ofTokens index defaultSchema (x.tokens inner)) index).starTables =
      x.tableIds index defaultSchema := by
  have hnonempty := List.isEmpty_eq_false_iff.mpr (tableIds_ne_nil hid)
  simp only [Scope.starTables, hx.topLevelReads_tokens h hstar, hnonempty, Bool.false_eq_true,
    if_false]

end ExistsQuery

/-! ## The columns -/

theorem Token.isWord_of_isFreeName {t : Token} (h : t.isFreeName = true) : t.isWord = true :=
  Token.isWord_of_isName (Bool.and_eq_true_iff.mp h).1

theorem QualifiedItem.ofTokens_tokens (item : QualifiedItem) :
    SelectItem.ofTokens item.tokens = ⟨none, item.tokens⟩ := by
  have hdot : (Token.mark '.').is .AS = false := rfl
  have hsign : (Token.mark '.').isMark '=' = false := rfl
  have hends : SelectItem.endsExpression (.mark '.') = false := rfl
  cases item <;>
    simp [tokens, SelectItem.ofTokens, SelectItem.marked?, SelectItem.assigned?,
      SelectItem.trailing?, hdot, hsign, hends]

namespace Scope

variable {i j : Usage} {index : Index}

theorem qualified?_singleton (scope : Scope) (name : String) :
    scope.qualified? [name] = scope.usage.bindings.lookup? name := by
  simp [qualified?, Identifier.lastTwo, Identifier.joinId]

theorem wildcard?_all (scope : Scope) {q : Token} (hq : q.isFreeName = true) :
    scope.wildcard? (QualifiedItem.all q).tokens =
      some (scope.usage.bindings.lookup? (Identifier.bare q.text)).toList := by
  have hword := Token.isWord_of_isFreeName hq
  have hstar : (Token.mark '*').isMark '*' = true := rfl
  have hdot : (Token.mark '.').isMark '.' = true := rfl
  simp [QualifiedItem.tokens, wildcard?, wildcardQualifier?, isDotted, hword, hstar, hdot,
    qualified?_singleton]

theorem origin?_pair (scope : Scope) (qualifier column : String) :
    scope.origin? [qualifier, column] =
      (scope.usage.bindings.lookup? qualifier).map (scope.originIn column) := by
  simp [origin?, qualified?_singleton]

/-- An item depends on the tables that its wildcard or its qualifier stands for only. -/
theorem itemColumns_qualifiedItem {item : QualifiedItem} (hproper : item.isProper = true)
    (hstar : item = .star → starTables ⟨i, index⟩ = starTables ⟨j, index⟩)
    (hlookup : ∀ q ∈ item.qualifier?,
      i.bindings.lookup? (Identifier.bare q.text) = j.bindings.lookup? (Identifier.bare q.text))
    (position : Nat) :
    itemColumns ⟨i, index⟩ item.tokens position = itemColumns ⟨j, index⟩ item.tokens position := by
  have hexpand : expand ⟨i, index⟩ = expand ⟨j, index⟩ := rfl
  unfold itemColumns
  rw [item.ofTokens_tokens]
  cases item with
  | star =>
    have hwildcard : ∀ usage, wildcard? ⟨usage, index⟩ QualifiedItem.star.tokens =
        some (starTables ⟨usage, index⟩) := fun _ => rfl
    simp only [hwildcard, hstar rfl, hexpand]
  | all q => simp only [wildcard?_all _ hproper, hlookup q rfl, hexpand]
  | column q c =>
    obtain ⟨hq, hc⟩ := Bool.and_eq_true_iff.mp hproper
    have hwords : ∀ t ∈ [q, c], t.isWord = true := by
      simp [Token.isWord_of_isFreeName hq, Token.isWord_of_isFreeName hc]
    obtain ⟨name, hname, hbare⟩ :
        ∃ name : Chain, chains [] (QualifiedItem.column q c).tokens = [name] ∧
          name.bareNames = [Identifier.bare q.text, Identifier.bare c.text] :=
      QualifiedName.exists_chain (n := ⟨q, [c]⟩) hwords
    have hchain : ∀ chain ∈ (chains [] (QualifiedItem.column q c).tokens).filter Chain.isColumn,
        origin? ⟨i, index⟩ chain.bareNames = origin? ⟨j, index⟩ chain.bareNames := by
      intro chain hchain
      obtain rfl : chain = name := by simpa [hname] using (List.mem_filter.mp hchain).1
      rw [hbare, origin?_pair, origin?_pair, hlookup q rfl]
      rfl
    have horigins : origins ⟨i, index⟩ (QualifiedItem.column q c).tokens =
        origins ⟨j, index⟩ (QualifiedItem.column q c).tokens := by
      rw [origins, origins, List.filterMap_congr hchain]
    have htyped : typed ⟨i, index⟩ = typed ⟨j, index⟩ := rfl
    have hwildcard : ∀ usage, wildcard? ⟨usage, index⟩ (QualifiedItem.column q c).tokens = none :=
      fun usage => QualifiedName.wildcard?_tokens (n := ⟨q, [c]⟩) (hwords c (by simp)) _
    simp only [hwildcard, outputColumn, horigins, htyped]

end Scope

/-- The output columns of a text. -/
def selectedColumns (index : Index) (defaultSchema : Option String) (sql : String) : List Column :=
  Scope.outputColumns ⟨Usage.ofTokens index defaultSchema (sqlTokens sql), index⟩
    (outputItems (sqlTokens sql))

namespace ExistsQuery

variable {x : ExistsQuery} {index : Index} {defaultSchema : Option String}

/-- Subqueries that keep the names of a statement do not change its columns. -/
theorem selectedColumns_congr (hx : x.IsProper)
    (hid : .star ∈ x.items → ∃ r ∈ x.tables, r.id index defaultSchema ≠ "")
    {inner inner' : List Token} (h : x.Keeps index defaultSchema inner)
    (h' : x.Keeps index defaultSchema inner') {sql sql' : String}
    (hsql : sqlTokens sql = x.tokens inner) (hsql' : sqlTokens sql' = x.tokens inner') :
    selectedColumns index defaultSchema sql = selectedColumns index defaultSchema sql' := by
  have hitem : ∀ item ∈ x.items, ∀ position,
      Scope.itemColumns ⟨Usage.ofTokens index defaultSchema (x.tokens inner), index⟩
          item.tokens position =
        Scope.itemColumns ⟨Usage.ofTokens index defaultSchema (x.tokens inner'), index⟩
          item.tokens position := by
    intro item hitem position
    apply Scope.itemColumns_qualifiedItem (hx.items item hitem)
    · rintro rfl
      rw [hx.starTables_tokens h hitem (hid hitem), hx.starTables_tokens h' hitem (hid hitem)]
    · intro q hq
      rcases hx.qualifiers item hitem with rfl | ⟨r, hr, hqualifier⟩
      · simp [QualifiedItem.qualifier?] at hq
      · have hname : Text.lowerCase (Identifier.bare q.text) = Text.lowerCase r.aliasName := by
          rw [QualifiedItem.isQualifiedBy, Option.mem_def.mp hq, Option.any_some] at hqualifier
          exact beq_iff_eq.mp hqualifier
        have hr' : x.isQualifier r = true := List.any_eq_true.mpr ⟨item, hitem, hqualifier⟩
        rw [hx.lookup?_alias h hr hr' hname, hx.lookup?_alias h' hr hr' hname]
  rw [selectedColumns, selectedColumns, hsql, hsql', hx.outputItems_tokens, hx.outputItems_tokens,
    Scope.outputColumns, Scope.outputColumns]
  refine congrArg uniqueNames (List.flatMap_congr ?_)
  rintro ⟨ts, position⟩ hmem
  obtain ⟨item, hx, rfl⟩ := List.mem_map.mp (List.fst_mem_of_mem_zipIdx hmem)
  exact hitem item hx position

/-- A subquery that declares an alias again for the same table, and one that declares none. -/
theorem selectedColumns_congr_orders :
    let orders : Table := ⟨"dbo.Orders", "Orders", "dbo", [.named "Id"]⟩
    let lines : Table := ⟨"dbo.Lines", "Lines", "dbo", [.named "OrderId", .named "Sku"]⟩
    let g : Catalog := { Catalog.empty with tables := [orders, lines] }
    let x : ExistsQuery := ⟨[.star, .column (.word "o") (.word "Id"), .all (.word "L")],
      [⟨⟨.word "dbo", [.word "Orders"]⟩, some (.word "AS"), .word "o"⟩,
        ⟨⟨.word "Lines", []⟩, none, .word "l"⟩]⟩
    let sql :=
      "SELECT *, o.Id, L.* FROM dbo.Orders AS o, Lines l WHERE EXISTS (SELECT 1 FROM Orders O)"
    let sql' := "SELECT *, o.Id, L.* FROM dbo.Orders AS o, Lines l WHERE EXISTS (DELETE TOP (1) r)"
    let inner := sqlTokens "SELECT 1 FROM Orders O"
    let inner' := sqlTokens "DELETE TOP (1) r"
    x.IsProper ∧ (.star ∈ x.items → ∃ r ∈ x.tables, r.id g.index (some "dbo") ≠ "") ∧
      x.Keeps g.index (some "dbo") inner ∧ x.Keeps g.index (some "dbo") inner' ∧
      sqlTokens sql = x.tokens inner ∧ sqlTokens sql' = x.tokens inner' ∧
      (selectedColumns g.index (some "dbo") sql).map Column.name =
        ["Id", "OrderId", "Sku", "Id_2", "OrderId_2", "Sku_2"] ∧
      selectedColumns g.index (some "dbo") sql = selectedColumns g.index (some "dbo") sql' := by
  intro orders lines g x sql sql' inner inner'
  have hinner : inner =
      [.word "SELECT", .word "1", .word "FROM", .word "Orders", .word "O"] :=
    (sqlTokens_ofList _).trans (by decide +kernel)
  have hinner' : inner' =
      [.word "DELETE", .word "TOP", .mark '(', .word "1", .mark ')', .word "r"] :=
    (sqlTokens_ofList _).trans (by decide +kernel)
  have hx : x.IsProper := by decide +kernel
  have hid : .star ∈ x.items → ∃ r ∈ x.tables, r.id g.index (some "dbo") ≠ "" := by
    decide +kernel
  have h : x.Keeps g.index (some "dbo") inner := by
    rw [hinner]
    decide +kernel
  have h' : x.Keeps g.index (some "dbo") inner' := by
    rw [hinner']
    decide +kernel
  have hsql : sqlTokens sql = x.tokens inner := by
    rw [hinner]
    exact (sqlTokens_ofList _).trans (by decide +kernel)
  have hsql' : sqlTokens sql' = x.tokens inner' := by
    rw [hinner']
    exact (sqlTokens_ofList _).trans (by decide +kernel)
  have hnames : (selectedColumns g.index (some "dbo") sql).map Column.name =
      ["Id", "OrderId", "Sku", "Id_2", "OrderId_2", "Sku_2"] := by
    rw [selectedColumns, hsql, hinner]
    decide +kernel
  exact ⟨hx, hid, h, h', hsql, hsql', hnames, selectedColumns_congr hx hid h h' hsql hsql'⟩

/-- Subqueries that change the columns: one that declares an alias again for another table, one that
declares the name of a table as a common table expression, and ones that read the only tables with
an id. -/
theorem selectedColumns_of_subquery :
    let regions : Table := ⟨"regions", "regions", "", [.named "Code"]⟩
    let g : Catalog := { Catalog.empty with tables := [regions] }
    let x : ExistsQuery := ⟨[.column (.word "o") (.word "Id")],
      [⟨⟨.word "orders", []⟩, none, .word "o"⟩]⟩
    let sql := "SELECT o.Id FROM orders o WHERE EXISTS (SELECT 1 FROM regions)"
    let moved := "SELECT o.Id FROM orders o WHERE EXISTS (SELECT 1 FROM regions o)"
    let hidden :=
      "SELECT o.Id FROM orders o WHERE EXISTS (WITH orders AS (SELECT 1) SELECT 1 FROM regions)"
    let y : ExistsQuery := ⟨[.star], [⟨⟨.delimited "[]", []⟩, none, .word "o"⟩]⟩
    let star := "SELECT * FROM [] o WHERE EXISTS (SELECT 1 FROM regions)"
    let bare := "SELECT * FROM [] o WHERE EXISTS (SELECT 1)"
    let sources := fun sql => (selectedColumns g.index none sql).map Column.sources
    (x.IsProper ∧ y.IsProper) ∧
      (sqlTokens sql = x.tokens (sqlTokens "SELECT 1 FROM regions") ∧
        sources sql = [[⟨"orders", "Id"⟩]]) ∧
      (sqlTokens moved = x.tokens (sqlTokens "SELECT 1 FROM regions o") ∧
        sources moved = [[⟨"regions", "Id"⟩]]) ∧
      (sqlTokens hidden = x.tokens (sqlTokens "WITH orders AS (SELECT 1) SELECT 1 FROM regions") ∧
        sources hidden = [[]]) ∧
      (sqlTokens star = y.tokens (sqlTokens "SELECT 1 FROM regions") ∧
        sources star = [[⟨"regions", "Code"⟩]]) ∧
      sqlTokens bare = y.tokens (sqlTokens "SELECT 1") ∧ sources bare = [] := by
  intro regions g x sql moved hidden y star bare sources
  have hinner : sqlTokens "SELECT 1 FROM regions" =
      [.word "SELECT", .word "1", .word "FROM", .word "regions"] :=
    (sqlTokens_ofList _).trans (by decide +kernel)
  have hsql : sqlTokens sql = x.tokens (sqlTokens "SELECT 1 FROM regions") := by
    rw [hinner]
    exact (sqlTokens_ofList _).trans (by decide +kernel)
  have hmoved : sqlTokens moved = x.tokens (sqlTokens "SELECT 1 FROM regions o") := by
    rw [sqlTokens_ofList, sqlTokens_ofList]
    decide +kernel
  have hhidden : sqlTokens hidden =
      x.tokens (sqlTokens "WITH orders AS (SELECT 1) SELECT 1 FROM regions") := by
    rw [sqlTokens_ofList, sqlTokens_ofList]
    decide +kernel
  have hstar : sqlTokens star = y.tokens (sqlTokens "SELECT 1 FROM regions") := by
    rw [hinner]
    exact (sqlTokens_ofList _).trans (by decide +kernel)
  have hbare : sqlTokens bare = y.tokens (sqlTokens "SELECT 1") := by
    rw [sqlTokens_ofList, sqlTokens_ofList]
    decide +kernel
  have hsources : sources sql = [[⟨"orders", "Id"⟩]] ∧ sources star = [[⟨"regions", "Code"⟩]] := by
    simp only [sources, selectedColumns, hsql, hstar, hinner]
    decide +kernel
  have hchanged : sources moved = [[⟨"regions", "Id"⟩]] ∧ sources hidden = [[]] ∧
      sources bare = [] := by
    simp only [sources, selectedColumns, hmoved, hhidden, hbare]
    rw [sqlTokens_ofList, sqlTokens_ofList, sqlTokens_ofList]
    decide +kernel
  exact ⟨⟨by decide +kernel, by decide +kernel⟩, ⟨hsql, hsources.1⟩, ⟨hmoved, hchanged.1⟩,
    ⟨hhidden, hchanged.2.1⟩, ⟨hstar, hsources.2⟩, hbare, hchanged.2.2⟩

end ExistsQuery

end Provenance
