import Provenance.Definition.Object
import Provenance.Proofs.Definition.DeclaredRoutine
import Provenance.Proofs.Definition.Header
import Provenance.Proofs.Query.FirstSelect
import Provenance.Proofs.Query.SilentTokens
import Provenance.Proofs.Token.Boundary

/-!
# Statements in front of a definition

A script may have other statements in front of the definition. The header is found behind them.
The search for any other part does not begin at the header but at the first token, and may end in
those statements. What it finds is the same if they hold nothing at which it would end.
-/

namespace Provenance

/-- Whether a region is a line break outside literals, comments and delimited names. -/
def Region.isLineBreak : Region → Bool
  | plain c => !inLine c
  | _ => false

/-- Statements in front of a definition: a text that ends with a line break and defines nothing. -/
structure IsPreamble (p : String) : Prop where
  lineBreak : (regions p).getLast?.any Region.isLineBreak = true
  verbs : ∀ t ∈ sqlTokens p, isDefiningVerb t = false

instance (p : String) : Decidable (IsPreamble p) :=
  decidable_of_iff
    ((regions p).getLast?.any Region.isLineBreak = true ∧
      ∀ t ∈ sqlTokens p, isDefiningVerb t = false)
    ⟨fun ⟨lineBreak, verbs⟩ => ⟨lineBreak, verbs⟩, fun h => ⟨h.lineBreak, h.verbs⟩⟩

/-- The kind of object whose definition begins with tokens. -/
def definedKind? (ts : List Token) : Option ObjectKind :=
  (afterVerb? ts).bind fun rest => rest.head?.bind ObjectKind.ofToken?

/-! ## Headers -/

theorem isBoundary_of_not_inLine {c : Char} (h : inLine c = false) : isBoundary c = true := by
  have hc : c = '\n' ∨ c = '\r' := by
    simp only [inLine, Bool.and_eq_false_iff, bne_eq_false_iff_eq] at h
    exact h
  rcases hc with rfl | rfl <;> decide

theorem IsPreamble.sqlTokens_append {p : String} (h : IsPreamble p) (d : String) :
    sqlTokens (p ++ d) = sqlTokens p ++ sqlTokens d := by
  obtain ⟨r, hlast, hbreak⟩ := (Option.any_eq_true _ _).mp h.lineBreak
  cases r with
  | plain c =>
    have hc : inLine c = false := by simpa [Region.isLineBreak] using hbreak
    exact Provenance.sqlTokens_append (isBoundary_of_not_inLine hc) hlast d
  | literal _ | lineComment _ | blockComment _ | delimited _ => simp [Region.isLineBreak] at hbreak

theorem exists_of_afterVerb? {ts rest : List Token} (h : afterVerb? ts = some rest) :
    ∃ v more, ts = v :: (more ++ rest) ∧ isDefiningVerb v = true ∧
      ∀ t ∈ v :: more, ∃ k ∈ [Keyword.CREATE, .OR, .ALTER], t.is k = true := by
  cases ts with
  | nil => simp [afterVerb?] at h
  | cons t tail =>
    simp only [afterVerb?] at h
    split at h
    · rename_i hcreate
      cases hor : afterKeyword? .OR tail with
      | none =>
        rw [hor, Option.some.injEq] at h
        exact ⟨t, [], by rw [h]; rfl, by simp [isDefiningVerb, hcreate], by simp [hcreate]⟩
      | some alternative =>
        rw [hor, Option.some.injEq] at h
        obtain ⟨o, rfl, ho⟩ := afterKeyword?_cons hor
        cases halter : afterKeyword? .ALTER alternative with
        | none =>
          rw [skipKeyword, halter, Option.getD_none] at h
          exact ⟨t, [o], by rw [h]; rfl, by simp [isDefiningVerb, hcreate], by simp [hcreate, ho]⟩
        | some after =>
          rw [skipKeyword, halter, Option.getD_some] at h
          obtain ⟨u, rfl, hu⟩ := afterKeyword?_cons halter
          exact ⟨t, [o, u], by rw [h]; rfl, by simp [isDefiningVerb, hcreate],
            by simp [hcreate, ho, hu]⟩
    · simp only [Option.ite_none_right_eq_some, Option.some.injEq] at h
      obtain ⟨halter, rfl⟩ := h
      exact ⟨t, [], rfl, by simp [isDefiningVerb, halter], by simp [halter]⟩

theorem exists_of_definedKind? {ts : List Token} {kind : ObjectKind}
    (h : definedKind? ts = some kind) : ∃ v more u after, ts = v :: (more ++ u :: after) ∧
      isDefiningVerb v = true ∧ ObjectKind.ofToken? u = some kind ∧
      ∀ t ∈ v :: more, ∃ k ∈ [Keyword.CREATE, .OR, .ALTER], t.is k = true := by
  obtain ⟨rest, hverb, hkind⟩ := Option.bind_eq_some_iff.mp h
  obtain ⟨u, hhead, hu⟩ := Option.bind_eq_some_iff.mp hkind
  obtain ⟨after, rfl⟩ := List.head?_eq_some_iff.mp hhead
  obtain ⟨v, more, hts, hv, hwords⟩ := exists_of_afterVerb? hverb
  exact ⟨v, more, u, after, hts, hv, hu, hwords⟩

/-- A search for a header goes on behind tokens that define nothing, unless it ends in them. -/
theorem findHeader?_append {α : Type} (stop : Token → Bool) (kind? : Token → Option α)
    {ts : List Token} (hts : ∀ t ∈ ts, isDefiningVerb t = false) (us : List Token) :
    findHeader? stop kind? (ts ++ us) =
      if ts.any stop then none else findHeader? stop kind? us := by
  induction ts with
  | nil => rfl
  | cons t ts ih =>
    have ht := hts t (by simp)
    have htail := ih fun u hu => hts u (List.mem_cons_of_mem t hu)
    simp only [isDefiningVerb, Bool.or_eq_false_iff] at ht
    have hverb : afterVerb? (t :: (ts ++ us)) = none := by simp [afterVerb?, ht.1, ht.2]
    rw [List.cons_append, findHeader?_cons, hverb, List.any_cons]
    cases hstop : stop t <;> simp [htail]

theorem Header.ofTokens?_append {ts : List Token} (hts : ∀ t ∈ ts, isDefiningVerb t = false)
    (us : List Token) : ofTokens? (ts ++ us) = ofTokens? us := by
  rw [ofTokens?, findHeader?_append _ _ hts]
  simp [ofTokens?]

theorem Header.kind_of_definedKind? {ts : List Token} {kind : ObjectKind}
    (h : definedKind? ts = some kind) : ∃ name, ofTokens? ts = some ⟨kind, name⟩ := by
  obtain ⟨rest, hverb, hkind⟩ := Option.bind_eq_some_iff.mp h
  obtain ⟨u, hhead, hu⟩ := Option.bind_eq_some_iff.mp hkind
  obtain ⟨after, rfl⟩ := List.head?_eq_some_iff.mp hhead
  cases ts with
  | nil => simp [afterVerb?] at hverb
  | cons t ts =>
    rw [ofTokens?, findHeader?_cons, hverb]
    simp [hu]

/-! ## Tables -/

variable {p d : String} {kind : ObjectKind} {index : Index} {defaultSchema : Option String}

theorem IsPreamble.mentions_append (hp : IsPreamble p) (hd : definedKind? (sqlTokens d) = some kind)
    (hsilent : IsSilent (sqlTokens p)) :
    mentions 0 (sqlTokens (p ++ d)) = mentions 0 (sqlTokens d) := by
  obtain ⟨v, more, u, after, hts, hv, -⟩ := exists_of_definedKind? hd
  rw [hp.sqlTokens_append, hts]
  exact hsilent.mentions_append hv _

theorem IsPreamble.usage_append (hp : IsPreamble p) (hd : definedKind? (sqlTokens d) = some kind)
    (hsilent : IsSilent (sqlTokens p)) :
    Usage.ofTokens index defaultSchema (sqlTokens (p ++ d)) =
      Usage.ofTokens index defaultSchema (sqlTokens d) := by
  rw [Usage.ofTokens, hp.mentions_append hd hsilent, Usage.ofTokens]

/-! ## Signatures -/

/-- Whether a token is the keyword of a routine or ends the search for it. -/
def endsSignatureSearch (t : Token) : Bool :=
  isRoutineKeyword t || t.is .AS || t.is .BEGIN || t.is .SELECT

theorem afterRoutineKeyword?_append {ts : List Token}
    (hts : ∀ t ∈ ts, endsSignatureSearch t = false) (us : List Token) :
    afterRoutineKeyword? (ts ++ us) = afterRoutineKeyword? us := by
  induction ts with
  | nil => rfl
  | cons t ts ih =>
    have ht := hts t (by simp)
    simp only [endsSignatureSearch, isRoutineKeyword, Bool.or_eq_false_iff] at ht
    obtain ⟨⟨⟨⟨⟨hfunction, hprocedure⟩, hproc⟩, has⟩, hbegin⟩, hselect⟩ := ht
    rw [List.cons_append, afterRoutineKeyword?]
    simp only [hfunction, hprocedure, hproc, has, hbegin, hselect, Bool.or_self, Bool.false_eq_true,
      if_false]
    exact ih fun u hu => hts u (List.mem_cons_of_mem t hu)

theorem isRoutineKeyword_of_ofToken? {u : Token} (hu : ObjectKind.ofToken? u = some kind)
    (hkind : kind = .procedure ∨ kind = .function) : isRoutineKeyword u = true := by
  unfold ObjectKind.ofToken? at hu
  split at hu
  · obtain rfl := Option.some.inj hu
    simp at hkind
  split at hu
  · rename_i hprocedure
    simp only [Bool.or_eq_true] at hprocedure
    rcases hprocedure with h | h <;> simp [isRoutineKeyword, h]
  split at hu
  · rename_i hfunction
    simp [isRoutineKeyword, hfunction]
  split at hu
  · obtain rfl := Option.some.inj hu
    simp at hkind
  · simp at hu

theorem IsPreamble.signature_append (hp : IsPreamble p)
    (hd : definedKind? (sqlTokens d) = some kind) (hkind : kind = .procedure ∨ kind = .function)
    (hsearch : ∀ t ∈ sqlTokens p, endsSignatureSearch t = false) :
    Signature.parse (p ++ d) = Signature.parse d := by
  obtain ⟨v, more, u, after, hts, -, hu, hwords⟩ := exists_of_definedKind? hd
  have halone : afterRoutineKeyword? (sqlTokens d) = some after := by
    rw [hts]
    exact afterRoutineKeyword?_verb hwords (isRoutineKeyword_of_ofToken? hu hkind) after
  have hbehind : afterRoutineKeyword? (sqlTokens p ++ sqlTokens d) = some after := by
    rw [afterRoutineKeyword?_append hsearch, halone]
  have hparameters :
      parameterTokens (sqlTokens p ++ sqlTokens d) = parameterTokens (sqlTokens d) := by
    rw [parameterTokens, parameterTokens, halone, hbehind]
  rw [Signature.parse, hp.sqlTokens_append, Signature.ofTokens, hparameters]
  rfl

theorem IsPreamble.returnType?_append (hp : IsPreamble p)
    (hreturns : ∀ t ∈ sqlTokens p, t.is .RETURNS = false) (d : String) :
    returnType? (p ++ d) = returnType? d := by
  have hdrop : (sqlTokens (p ++ d)).dropWhile (fun t => !t.is .RETURNS) =
      (sqlTokens d).dropWhile fun t => !t.is .RETURNS := by
    rw [hp.sqlTokens_append]
    exact List.dropWhile_append_of_pos fun t ht => by simp [hreturns t ht]
  rw [returnType?, returnType?, hdrop]

/-! ## Views -/

theorem declaredColumns?_append {ts us : List Token} (hts : ∀ t ∈ ts, isDefiningVerb t = false)
    (hselect : ts.any (Token.is .SELECT) = true → declaredColumns? us = none) :
    declaredColumns? (ts ++ us) = declaredColumns? us := by
  cases hany : ts.any (Token.is .SELECT) with
  | false =>
    rw [declaredColumns?, findHeader?_append _ _ hts, hany]
    rfl
  | true =>
    rw [hselect hany, declaredColumns?, findHeader?_append _ _ hts, hany]
    rfl

/-- A view is the same behind statements that name no table and select nothing outside parentheses,
and nothing at all if the view declares its columns. -/
theorem IsPreamble.readView_append (hp : IsPreamble p)
    (hd : definedKind? (sqlTokens d) = some kind) (hsilent : IsSilent (sqlTokens p))
    (houtside : ∀ t ∈ outside 0 (sqlTokens p), t.is .SELECT = false)
    (hselect : (sqlTokens p).any (Token.is .SELECT) = true →
      declaredColumns? (sqlTokens d) = none) :
    readView index defaultSchema none (p ++ d) = readView index defaultSchema none d := by
  have hitems : outputItems (sqlTokens (p ++ d)) = outputItems (sqlTokens d) := by
    rw [hp.sqlTokens_append, outputItems, selectList_append_left hsilent.balanced houtside,
      outputItems]
  have hnames : declaredColumns? (sqlTokens (p ++ d)) = declaredColumns? (sqlTokens d) := by
    rw [hp.sqlTokens_append, declaredColumns?_append hp.verbs hselect]
  unfold readView
  simp only [hp.usage_append hd hsilent, hitems, hnames]

/-! ## Definitions -/

/-- Statements in front of a definition change neither its kind nor its name. They change a part of
what it says only if they name tables or hold one of the words by which this part is found. -/
theorem readObject?_append (hp : IsPreamble p) (hd : definedKind? (sqlTokens d) = some kind)
    (index : Index) (defaultSchema : Option String) :
    ∃ alone behind, readObject? index defaultSchema d = some alone ∧
      readObject? index defaultSchema (p ++ d) = some behind ∧
      behind.kind = alone.kind ∧ behind.name = alone.name ∧
      (IsSilent (sqlTokens p) → behind.references = alone.references) ∧
      ((∀ t ∈ sqlTokens p, endsSignatureSearch t = false) →
        behind.signature = alone.signature) ∧
      ((∀ t ∈ sqlTokens p, t.is .RETURNS = false) → behind.returnType = alone.returnType) ∧
      (IsSilent (sqlTokens p) → (∀ t ∈ outside 0 (sqlTokens p), t.is .SELECT = false) →
        ((sqlTokens p).any (Token.is .SELECT) = true → declaredColumns? (sqlTokens d) = none) →
        behind.view = alone.view) := by
  obtain ⟨name, halone⟩ := Header.kind_of_definedKind? hd
  have hbehind : Header.parse? (p ++ d) = some ⟨kind, name⟩ := by
    rw [Header.parse?, hp.sqlTokens_append, Header.ofTokens?_append hp.verbs, halone]
  have hsame : Header.parse? d = some ⟨kind, name⟩ := halone
  have hreferences : IsSilent (sqlTokens p) →
      routineUsage index defaultSchema (p ++ d) = routineUsage index defaultSchema d := by
    intro hsilent
    simp only [routineUsage, hp.usage_append hd hsilent]
  simp only [readObject?, hbehind, hsame, Option.map_some, Option.some.injEq]
  refine ⟨_, _, rfl, rfl, ?_⟩
  cases kind with
  | view =>
    exact ⟨rfl, rfl, fun _ => rfl, fun _ => rfl, fun _ => rfl, fun hsilent houtside hselect =>
      congrArg some (hp.readView_append hd hsilent houtside hselect)⟩
  | procedure =>
    exact ⟨rfl, rfl, fun hsilent => congrArg some (hreferences hsilent),
      fun hsearch => congrArg some (hp.signature_append hd (.inl rfl) hsearch), fun _ => rfl,
      fun _ _ _ => rfl⟩
  | function =>
    exact ⟨rfl, rfl, fun hsilent => congrArg some (hreferences hsilent),
      fun hsearch => congrArg some (hp.signature_append hd (.inr rfl) hsearch),
      fun hreturns => hp.returnType?_append hreturns d, fun _ _ _ => rfl⟩
  | trigger =>
    exact ⟨rfl, rfl, fun hsilent => congrArg some (hreferences hsilent), fun _ => rfl, fun _ => rfl,
      fun _ _ _ => rfl⟩

/-- A function behind a setting and the removal of a view. -/
theorem readObject?_append_function :
    let p := "SET NOCOUNT ON; -- AS\nIF (1 > 0) DROP VIEW v\nGO\n"
    let d := "CREATE FUNCTION f (@a int) RETURNS int AS BEGIN RETURN (SELECT x FROM dbo.Orders) END"
    IsPreamble p ∧ definedKind? (sqlTokens d) = some .function ∧ IsSilent (sqlTokens p) ∧
      (∀ t ∈ sqlTokens p, endsSignatureSearch t = false) ∧
      (∀ t ∈ sqlTokens p, t.is .RETURNS = false) ∧
      readObject? .empty none (p ++ d) = readObject? .empty none d := by
  intro p d
  have hpreamble : sqlTokens p = [.word "SET", .word "NOCOUNT", .word "ON", .mark ';', .word "IF",
      .mark '(', .word "1", .mark '>', .word "0", .mark ')', .word "DROP", .word "VIEW", .word "v",
      .word "GO"] :=
    (sqlTokens_ofList _).trans (by decide +kernel)
  have hp : IsPreamble p := by
    constructor
    · decide +kernel
    · rw [hpreamble]
      decide +kernel
  have hd : definedKind? (sqlTokens d) = some .function := by
    rw [sqlTokens_ofList]
    decide +kernel
  have hsilent : IsSilent (sqlTokens p) := by
    rw [hpreamble]
    decide +kernel
  have hsearch : ∀ t ∈ sqlTokens p, endsSignatureSearch t = false := by
    rw [hpreamble]
    decide +kernel
  have hreturns : ∀ t ∈ sqlTokens p, t.is .RETURNS = false := by
    rw [hpreamble]
    decide +kernel
  have houtside : ∀ t ∈ outside 0 (sqlTokens p), t.is .SELECT = false := by
    rw [hpreamble]
    decide +kernel
  have hselect : (sqlTokens p).any (Token.is .SELECT) = true →
      declaredColumns? (sqlTokens d) = none := by
    rw [hpreamble]
    decide +kernel
  obtain ⟨alone, behind, halone, hbehind, hkind, hname, hreferences, hsignature, htype, hview⟩ :=
    readObject?_append hp hd .empty none
  have heq : behind = alone := by
    cases alone
    cases behind
    exact ObjectSummary.mk.injEq .. ▸ ⟨hkind, hname, hview hsilent houtside hselect,
      hsignature hsearch, htype hreturns, hreferences hsilent⟩
  exact ⟨hp, hd, hsilent, hsearch, hreturns, by rw [halone, hbehind, heq]⟩

/-- Statements whose words are taken for those of the definition behind them. A procedure has no
parameters behind the removal of an earlier one, and writes the table of the deletion in front of
it. A view loses the names it declares behind a test for an earlier one, and has the columns of the
query in front of it. -/
theorem readObject?_append_of_statements :
    let drops := "DROP PROCEDURE IF EXISTS p\nGO\n"
    let deletes := "DELETE FROM dbo.Log\nGO\n"
    let procedure := "CREATE PROCEDURE p @a int AS SELECT x FROM dbo.Orders"
    let tests := "IF EXISTS (SELECT 1) DROP VIEW v\nGO\n"
    let selects := "SELECT 1 AS Done;\n"
    let view := "CREATE VIEW v (a) AS SELECT x FROM dbo.Orders"
    let signature := fun sql => (readObject? .empty none sql).bind ObjectSummary.signature
    let affected := fun sql => (readObject? .empty none sql).bind fun s =>
      s.references.map RoutineUsage.affectedTables
    let names := fun sql => (readObject? .empty none sql).bind fun s =>
      s.view.map fun v => v.columns.map Column.name
    (IsPreamble drops ∧ IsPreamble deletes ∧ IsPreamble tests ∧ IsPreamble selects) ∧
      definedKind? (sqlTokens procedure) = some .procedure ∧
      definedKind? (sqlTokens view) = some .view ∧
      (signature procedure = some ⟨[⟨"@a", "int", false⟩], true⟩ ∧
        signature (drops ++ procedure) = some ⟨[], false⟩) ∧
      (affected procedure = some [] ∧ affected (deletes ++ procedure) = some ["dbo.Log"]) ∧
      (names view = some ["a"] ∧ names (tests ++ view) = some ["x"] ∧
        names (selects ++ view) = some ["Done"]) := by
  intro drops deletes procedure tests selects view signature affected names
  have hpreambles : IsPreamble drops ∧ IsPreamble deletes ∧ IsPreamble tests ∧ IsPreamble selects :=
    ⟨by decide +kernel, by decide +kernel, by decide +kernel, by decide +kernel⟩
  refine ⟨hpreambles, ?_, ?_, ⟨?_, ?_⟩, ⟨?_, ?_⟩, ?_, ?_, ?_⟩ <;> decide +kernel

end Provenance
