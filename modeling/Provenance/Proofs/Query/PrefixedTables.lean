import Provenance.Proofs.Catalog.Resolution
import Provenance.Proofs.Query.Mentions
import Provenance.Proofs.Query.Usage

/-!
# Tables behind the name of a database

A database in front of a schema and a name, and a server in front of that, make no difference to the
table that is meant. Where the schema is left out between two full stops the name ends at them: the
database is read as the table, and what follows is searched like anything else.
-/

namespace Provenance

/-! ## Uses that count alike -/

/-- No common table expression hides a use with several parts, so it stands among the uses that are
resolved, and the others are the same whatever it is. -/
theorem Usage.exists_byName_append (index : Index) (defaultSchema : Option String)
    (before after : List Mention) :
    ∃ first later : List ResolvedUse, ∀ u : TableUse, u.isSimple = false →
      Usage.byName index defaultSchema (before ++ .table u :: after) =
        first ++ ⟨u, index.tableId defaultSchema u.parts⟩ :: later := by
  refine ⟨((tableUses before).filter fun v => !v.namesOneOf (commonNames (before ++ after))).map
      fun v => ⟨v, index.tableId defaultSchema v.parts⟩,
    ((tableUses after).filter fun v => !v.namesOneOf (commonNames (before ++ after))).map
      fun v => ⟨v, index.tableId defaultSchema v.parts⟩, ?_⟩
  intro u hu
  have hcommons : commonNames (before ++ .table u :: after) = commonNames (before ++ after) := by
    simp [commonNames]
  have huses : tableUses (before ++ .table u :: after) =
      tableUses before ++ u :: tableUses after := by
    simp [tableUses]
  have hown : u.namesOneOf (commonNames (before ++ after)) = false := by
    simp [TableUse.namesOneOf, hu]
  simp [byName, hcommons, huses, hown]

/-- Uses with several parts count alike for what is used if they agree in their alias, their place
and the id of their name. -/
theorem Usage.ofMentions_replace {index : Index} {defaultSchema : Option String} {u v : TableUse}
    (hu : u.isSimple = false) (hv : v.isSimple = false) (halias : u.aliasName = v.aliasName)
    (haccess : u.access = v.access) (hdepth : u.depth = v.depth)
    (hid : index.tableId defaultSchema u.parts = index.tableId defaultSchema v.parts)
    (before after : List Mention) :
    Usage.ofMentions index defaultSchema (before ++ .table u :: after) =
      Usage.ofMentions index defaultSchema (before ++ .table v :: after) := by
  obtain ⟨first, later, hbyName⟩ := exists_byName_append index defaultSchema before after
  rw [ofMentions, ofMentions, hbyName u hu, hbyName v hv, hid]
  generalize index.tableId defaultSchema v.parts = id
  -- The two uses declare the same, follow no alias and have the same id.
  have hdeclare : ∀ b, ResolvedUse.declare b ⟨u, id⟩ = ResolvedUse.declare b ⟨v, id⟩ := by
    intro b
    simp only [ResolvedUse.declare, halias]
  have hdeclared : declared (first ++ ⟨u, id⟩ :: later) = declared (first ++ ⟨v, id⟩ :: later) := by
    simp only [declared, List.foldl_append, List.foldl_cons, hdeclare]
  have hfollow : ∀ b, ResolvedUse.followAlias b ⟨u, id⟩ = ⟨u, id⟩ ∧
      ResolvedUse.followAlias b ⟨v, id⟩ = ⟨v, id⟩ := by
    intro b
    simp [ResolvedUse.followAlias, hu, hv]
  have hname : ∀ b, ResolvedUse.name b ⟨u, id⟩ = ResolvedUse.name b ⟨v, id⟩ := fun _ => rfl
  simp only [resolved, idsOf, hdeclared, List.map_append, List.map_cons, hfollow,
    List.filter_append, List.filter_cons]
  by_cases hempty : id.isEmpty
  · simp [hempty]
  · simp only [hempty, Bool.not_false, if_true, List.filter_cons, haccess, hdepth, hname,
      List.foldl_append, List.foldl_cons, apply_ite (List.map ResolvedUse.id), List.map_cons]

/-! ## Where a search arrives -/

/-- Whether a search for tables comes to a token behind others, whatever stands behind it. -/
def IsReached (front : List Token) (t : Token) : Prop :=
  ∃ ms level, ∀ rest, mentions 0 (front ++ t :: rest) = ms ++ mentions level (t :: rest)

theorem mentions_append_of_isQuiet {front : List Token} (h : ∀ t ∈ front, t.isQuiet = true)
    (depth : Nat) (rest : List Token) :
    mentions depth (front ++ rest) = mentions (front.foldl depthAfter depth) rest := by
  induction front generalizing depth with
  | nil => rfl
  | cons t front ih =>
    have htail := ih fun u hu => h u (List.mem_cons_of_mem t hu)
    rw [List.cons_append, mentions, mentionsAt_of_isQuiet (h t (by simp)), List.nil_append,
      List.foldl_cons]
    exact htail (depthAfter depth t)

theorem isReached_of_isQuiet {front : List Token} (h : ∀ t ∈ front, t.isQuiet = true) (t : Token) :
    IsReached front t :=
  ⟨[], front.foldl depthAfter 0, fun rest => mentions_append_of_isQuiet h 0 (t :: rest)⟩

/-! ## Tables behind `FROM` -/

/-- The alias behind a name, its arguments or its column list, and the tokens after it. -/
def aliasBehind (ts : List Token) : Option String × List Token :=
  match aliasName? (skipGroup ts) with
  | some (name, rest) => (some name, rest)
  | none => (none, skipGroup ts)

section From

variable {source : Token} {n : QualifiedName} {rest : List Token}

theorem tableUse?_name (hn : n.IsProper) (hrest : dottedParts rest = ([], rest)) (access : Access)
    (depth : Nat) :
    tableUse? access depth (n.tokens ++ rest) =
      some (⟨n.parts, (aliasBehind rest).1, access, depth⟩, (aliasBehind rest).2) := by
  rw [tableUse?, hn.qualifiedName?_append hrest, Option.map_some, aliasBehind]
  cases halias : aliasName? (skipGroup rest) <;> simp [halias]

theorem mentions_from_name (hsource : source.is .FROM = true) (hn : n.IsProper)
    (hrest : dottedParts rest = ([], rest)) (depth : Nat) :
    mentions depth (source :: (n.tokens ++ rest)) =
      .table ⟨n.parts, (aliasBehind rest).1, .read, depth⟩ ::
        match afterMark? ',' (aliasBehind rest).2 with
        | some next => mentions depth (source :: next)
        | none => mentions depth (aliasBehind rest).2 := by
  have hkeyword : source.keyword? = some .FROM := by simpa [Token.is] using hsource
  have hfrom : ∀ ts, mentions depth (source :: ts) =
      (tableList .read depth ts).1 ++ mentions depth (tableList .read depth ts).2 := by
    intro ts
    rw [mentions, mentionsAt, hkeyword, depthAfter_of_isFlat (Token.isFlat_of_is hsource)]
  rw [hfrom, tableList_eq, tableUse?_name hn hrest]
  cases hcomma : afterMark? ',' (aliasBehind rest).2 with
  | none => simp [hcomma]
  | some next => simp [hcomma, hfrom]

end From

/-! ## Names behind a database -/

/-- A table with its schema and its database, in front of which the server may stand. -/
structure DatabaseTable where
  database : QualifiedName
  schema : Token
  name : Token
  deriving DecidableEq, Repr

namespace DatabaseTable

def qualified (x : DatabaseTable) : QualifiedName := ⟨x.schema, [x.name]⟩

def whole (x : DatabaseTable) : QualifiedName :=
  ⟨x.database.first, x.database.further ++ [x.schema, x.name]⟩

/-- The database and the name, between which the schema is left out. -/
def shortTokens (x : DatabaseTable) : List Token :=
  x.database.tokens ++ [.mark '.', .mark '.', x.name]

structure IsProper (x : DatabaseTable) : Prop where
  database : x.database.IsProper
  schema : x.schema.isName = true
  name : x.name.isName = true

instance (x : DatabaseTable) : Decidable x.IsProper :=
  decidable_of_iff
    (x.database.IsProper ∧ x.schema.isName = true ∧ x.name.isName = true)
    ⟨fun ⟨database, schema, name⟩ => ⟨database, schema, name⟩,
      fun h => ⟨h.database, h.schema, h.name⟩⟩

variable {x : DatabaseTable}

theorem parts_whole (x : DatabaseTable) :
    x.whole.parts = x.database.parts ++ x.qualified.parts := by
  simp [whole, qualified, QualifiedName.parts]

theorem IsProper.isProper_qualified (h : x.IsProper) : x.qualified.IsProper where
  first := h.schema
  further := by
    intro t ht
    obtain rfl := List.mem_singleton.mp ht
    exact ⟨Token.isWord_of_isName h.name, Token.not_isNumber_of_isName h.name⟩

theorem IsProper.isProper_whole (h : x.IsProper) : x.whole.IsProper where
  first := h.database.first
  further := by
    intro t ht
    rcases List.mem_append.mp ht with ht | ht
    · exact h.database.further t ht
    · have hname : t.isName = true := by
        obtain rfl | rfl : t = x.schema ∨ t = x.name := by simpa using ht
        · exact h.schema
        · exact h.name
      exact ⟨Token.isWord_of_isName hname, Token.not_isNumber_of_isName hname⟩

theorem tableId_whole (h : ∀ part ∈ x.qualified.parts, Identifier.bare part ≠ "") (index : Index)
    (defaultSchema : Option String) :
    index.tableId defaultSchema x.whole.parts = index.tableId defaultSchema x.qualified.parts := by
  have htwo :
      2 ≤ (x.qualified.parts.filter fun part => !(Identifier.bare part).isEmpty).length := by
    have hall : ∀ part ∈ x.qualified.parts, (!(Identifier.bare part).isEmpty) = true := by
      intro part hpart
      simpa using h part hpart
    rw [List.filter_eq_self.mpr hall]
    exact Nat.le_refl 2
  rw [parts_whole, index.tableId_append htwo]

theorem IsProper.ofTokens_whole (h : x.IsProper)
    (hparts : ∀ part ∈ x.qualified.parts, Identifier.bare part ≠ "") {source : Token}
    (hsource : source.is .FROM = true) {front : List Token} (hfront : IsReached front source)
    {rest : List Token} (hrest : dottedParts rest = ([], rest)) (index : Index)
    (defaultSchema : Option String) :
    Usage.ofTokens index defaultSchema (front ++ source :: (x.whole.tokens ++ rest)) =
      Usage.ofTokens index defaultSchema (front ++ source :: (x.qualified.tokens ++ rest)) := by
  obtain ⟨ms, depth, hreached⟩ := hfront
  rw [Usage.ofTokens, Usage.ofTokens, hreached, hreached,
    mentions_from_name hsource h.isProper_whole hrest,
    mentions_from_name hsource h.isProper_qualified hrest]
  apply Usage.ofMentions_replace
  · simp [TableUse.isSimple, whole, QualifiedName.parts]
  · rfl
  · rfl
  · rfl
  · rfl
  · exact tableId_whole hparts index defaultSchema

theorem IsProper.mentions_shortTokens (h : x.IsProper) {source : Token}
    (hsource : source.is .FROM = true) (rest : List Token) (depth : Nat) :
    mentions depth (source :: (x.shortTokens ++ rest)) =
      .table ⟨x.database.parts, none, .read, depth⟩ :: mentions depth (x.name :: rest) := by
  have hstop : dottedParts (.mark '.' :: .mark '.' :: x.name :: rest) =
      ([], .mark '.' :: .mark '.' :: x.name :: rest) := rfl
  have hbehind : aliasBehind (.mark '.' :: .mark '.' :: x.name :: rest) =
      (none, .mark '.' :: .mark '.' :: x.name :: rest) := rfl
  have hcomma : afterMark? ',' (.mark '.' :: .mark '.' :: x.name :: rest) = none := rfl
  have htokens : x.shortTokens ++ rest =
      x.database.tokens ++ .mark '.' :: .mark '.' :: x.name :: rest := by
    simp [shortTokens]
  have hdot : ∀ ts, mentions depth (.mark '.' :: ts) = mentions depth ts := mentions_mark depth rfl
  rw [htokens, mentions_from_name hsource h.database hstop, hbehind]
  simp only [hcomma, hdot]

/-- A database in front of a schema and a name makes no difference to what a statement uses; empty
parts behind it are left out. Where the schema is left out between two full stops the database is
read as the table, and the name is searched like any token. -/
theorem ofTokens_behind_database (h : x.IsProper) {source : Token}
    (hsource : source.is .FROM = true) {front : List Token} (hfront : IsReached front source)
    {rest : List Token} (hrest : ∀ t ∈ rest.head?, t.isMark '.' = false) (index : Index)
    (defaultSchema : Option String) :
    ((∀ part ∈ x.qualified.parts, Identifier.bare part ≠ "") →
        Usage.ofTokens index defaultSchema (front ++ source :: (x.whole.tokens ++ rest)) =
          Usage.ofTokens index defaultSchema (front ++ source :: (x.qualified.tokens ++ rest))) ∧
      index.tableId defaultSchema x.whole.parts =
        index.tableId defaultSchema (x.database.parts ++
          x.qualified.parts.filter fun part => !(Identifier.bare part).isEmpty) ∧
      ∀ depth, mentions depth (source :: (x.shortTokens ++ rest)) =
        .table ⟨x.database.parts, none, .read, depth⟩ :: mentions depth (x.name :: rest) := by
  refine ⟨fun hparts => ?_, ?_, fun depth => ?_⟩
  · exact h.ofTokens_whole hparts hsource hfront (dottedParts_of_head hrest) index defaultSchema
  · rw [parts_whole]
    simp only [Index.tableId, List.map_append, List.filter_append, List.filter_map,
      List.filter_filter, Function.comp_def, Bool.and_self]
  · exact h.mentions_shortTokens hsource rest depth

/-- A delimited name that the catalog spells otherwise, behind a database. -/
theorem ofTokens_behind_database_shop :
    let lines : Table := ⟨"dbo.Order Lines", "Order Lines", "dbo", [.named "total"]⟩
    let index := ({ Catalog.empty with tables := [lines] } : Catalog).index
    let x : DatabaseTable := ⟨⟨.word "Shop", []⟩, .word "dbo", .delimited "[order lines]"⟩
    let front := [Token.word "SELECT", .word "total"]
    let rest := [Token.word "AS", .word "l"]
    x.IsProper ∧ IsReached front (.word "FROM") ∧
      (∀ t ∈ rest.head?, t.isMark '.' = false) ∧
      (∀ part ∈ x.qualified.parts, Identifier.bare part ≠ "") ∧
      (Usage.ofTokens index none (front ++ .word "FROM" :: (x.whole.tokens ++ rest))).reads =
        ["dbo.Order Lines"] ∧
      mentions 0 (.word "FROM" :: (x.shortTokens ++ rest)) =
        [.table ⟨["Shop"], none, .read, 0⟩] := by
  intro lines index x front rest
  have hx : x.IsProper := by decide +kernel
  have hsource : (Token.word "FROM").is .FROM = true := by decide +kernel
  have hfront : IsReached front (.word "FROM") := isReached_of_isQuiet (by decide +kernel) _
  have hrest : ∀ t ∈ rest.head?, t.isMark '.' = false := by decide +kernel
  have hparts : ∀ part ∈ x.qualified.parts, Identifier.bare part ≠ "" := by decide +kernel
  have hreads : (Usage.ofTokens index none
      (front ++ .word "FROM" :: (x.qualified.tokens ++ rest))).reads = ["dbo.Order Lines"] := by
    decide +kernel
  have hname : mentions 0 (x.name :: rest) = [] := by decide +kernel
  obtain ⟨hwhole, -, hshort⟩ := ofTokens_behind_database hx hsource hfront hrest index none
  refine ⟨hx, hfront, hrest, hparts, ?_, ?_⟩
  · rw [hwhole hparts, hreads]
  · rw [hshort, hname]
    rfl

/-- Where the schema is left out the table that is read is the one that the database names. -/
theorem reads_of_omitted_schema :
    let orders : Table := ⟨"dbo.orders", "orders", "dbo", [.named "total"]⟩
    let index := ({ Catalog.empty with tables := [orders] } : Catalog).index
    let reads := fun index defaultSchema sql =>
      (Usage.ofTokens index defaultSchema (sqlTokens sql)).reads
    reads Catalog.empty.index none "SELECT x FROM d..t" = ["d"] ∧
      reads Catalog.empty.index none "SELECT x FROM t" = ["t"] ∧
      reads index (some "dbo") "SELECT total FROM Shop..orders" = ["dbo.Shop"] ∧
      reads index (some "dbo") "SELECT total FROM orders" = ["dbo.orders"] := by
  intro orders index reads
  have hshort : sqlTokens "SELECT x FROM d..t" =
      [.word "SELECT", .word "x", .word "FROM", .word "d", .mark '.', .mark '.', .word "t"] :=
    (sqlTokens_ofList _).trans (by decide +kernel)
  have halone : sqlTokens "SELECT x FROM t" =
      [.word "SELECT", .word "x", .word "FROM", .word "t"] :=
    (sqlTokens_ofList _).trans (by decide +kernel)
  have hshop : sqlTokens "SELECT total FROM Shop..orders" =
      [.word "SELECT", .word "total", .word "FROM", .word "Shop", .mark '.', .mark '.',
        .word "orders"] :=
    (sqlTokens_ofList _).trans (by decide +kernel)
  have horders : sqlTokens "SELECT total FROM orders" =
      [.word "SELECT", .word "total", .word "FROM", .word "orders"] :=
    (sqlTokens_ofList _).trans (by decide +kernel)
  simp only [reads, hshort, halone, hshop, horders]
  decide +kernel

end DatabaseTable

end Provenance
