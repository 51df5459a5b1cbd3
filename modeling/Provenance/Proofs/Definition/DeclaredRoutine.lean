import Mathlib.Data.List.Basic
import Provenance.Proofs.Definition.Declarations

/-!
# Routines with declared parameters

The signature of a routine has a parameter for each declaration after the name, whether the
declarations stand in parentheses or are followed by the body.
-/

namespace Provenance

/-- Whether tokens are `CREATE`, `ALTER` or `CREATE OR ALTER`. -/
def isVerb : List Token → Bool
  | [t] => t.is .CREATE || t.is .ALTER
  | [t, u, v] => t.is .CREATE && u.is .OR && v.is .ALTER
  | _ => false

def isRoutineKeyword (t : Token) : Bool :=
  t.is .FUNCTION || t.is .PROCEDURE || t.spells "PROC"

theorem mem_of_isVerb {ts : List Token} (h : isVerb ts = true) :
    ∀ t ∈ ts, ∃ k ∈ [Keyword.CREATE, .OR, .ALTER], t.is k = true := by
  match ts with
  | [] => simp [isVerb] at h
  | [t] =>
    simp only [isVerb, Bool.or_eq_true] at h
    simpa using h.imp_right .inr
  | [t, u] => simp [isVerb] at h
  | [t, u, v] =>
    simp only [isVerb, Bool.and_eq_true] at h
    simp [h.1.1, h.1.2, h.2]
  | t :: u :: v :: w :: ts => simp [isVerb] at h

theorem afterRoutineKeyword?_verb {verb : List Token}
    (hverb : ∀ t ∈ verb, ∃ k ∈ [Keyword.CREATE, .OR, .ALTER], t.is k = true) {kind : Token}
    (hkind : isRoutineKeyword kind = true) (rest : List Token) :
    afterRoutineKeyword? (verb ++ kind :: rest) = some rest := by
  induction verb with
  | nil =>
    unfold isRoutineKeyword at hkind
    rw [List.nil_append, afterRoutineKeyword?, if_pos hkind]
  | cons t verb ih =>
    obtain ⟨k, hk, ht⟩ := hverb t (by simp)
    have hother : ∀ j ∈ [Keyword.FUNCTION, .PROCEDURE, .AS, .BEGIN, .SELECT], t.is j = false := by
      have hdiffer : ∀ k ∈ [Keyword.CREATE, .OR, .ALTER],
          ∀ j ∈ [Keyword.FUNCTION, .PROCEDURE, .AS, .BEGIN, .SELECT], k ≠ j := by decide
      intro j hj
      exact Token.is_of_is ht (hdiffer k hk j hj)
    have hproc : t.spells "PROC" = false :=
      Token.not_spells_of_is ht (by
        rw [show Keyword.ofWord? "PROC" = none by decide +kernel]
        simp)
    have htail := ih fun u hu => hverb u (List.mem_cons_of_mem t hu)
    rw [List.cons_append, afterRoutineKeyword?]
    simpa [hproc, hother] using htail

theorem afterRoutineKeyword?_header {verb : List Token} (hverb : isVerb verb = true) {kind : Token}
    (hkind : isRoutineKeyword kind = true) (rest : List Token) :
    afterRoutineKeyword? (verb ++ kind :: rest) = some rest :=
  afterRoutineKeyword?_verb (mem_of_isVerb hverb) hkind rest

/-! ## Routines -/

/-- The parts of the definition of a routine. -/
structure DeclaredRoutine where
  verb : List Token
  kind : Token
  name : QualifiedName
  declarations : List Declaration
  /-- Whether the declarations stand in parentheses. -/
  enclosed : Bool
  rest : List Token
  deriving DecidableEq, Repr

namespace DeclaredRoutine

def declarationTokens (r : DeclaredRoutine) : List Token :=
  [Token.mark ','].intercalate (r.declarations.map Declaration.tokens)

def signatureTokens (r : DeclaredRoutine) : List Token :=
  if r.enclosed then .mark '(' :: (r.declarationTokens ++ .mark ')' :: r.rest)
  else r.declarationTokens ++ r.rest

def tokens (r : DeclaredRoutine) : List Token :=
  r.verb ++ r.kind :: (r.name.tokens ++ r.signatureTokens)

def signature (r : DeclaredRoutine) : Signature where
  parameters := r.declarations.map Declaration.parameter
  hasSignature := true

/-- Definitions with declarations in parentheses, or with declarations in which nothing begins a
body and which one follows if anything does. -/
structure IsProper (r : DeclaredRoutine) : Prop where
  verb : isVerb r.verb = true
  kind : isRoutineKeyword r.kind = true
  name : r.name.IsProper
  nonempty : r.declarations ≠ []
  declarations : ∀ d ∈ r.declarations, d.IsProper
  bare : r.enclosed = false → ∀ d ∈ r.declarations, d.IsBare
  rest : r.enclosed = false → ∀ t ∈ r.rest.head?, endsParameters t = true

instance (r : DeclaredRoutine) : Decidable r.IsProper :=
  decidable_of_iff
    (isVerb r.verb = true ∧ isRoutineKeyword r.kind = true ∧ r.name.IsProper ∧
      r.declarations ≠ [] ∧ (∀ d ∈ r.declarations, d.IsProper) ∧
      (r.enclosed = false → ∀ d ∈ r.declarations, d.IsBare) ∧
      (r.enclosed = false → ∀ t ∈ r.rest.head?, endsParameters t = true))
    ⟨fun ⟨verb, kind, name, nonempty, declarations, bare, rest⟩ =>
        ⟨verb, kind, name, nonempty, declarations, bare, rest⟩,
      fun h => ⟨h.verb, h.kind, h.name, h.nonempty, h.declarations, h.bare, h.rest⟩⟩

variable {r : DeclaredRoutine}

theorem parameterTokens_eq (hverb : isVerb r.verb = true) (hkind : isRoutineKeyword r.kind = true)
    (hname : r.name.IsProper)
    (hfirst : ∃ t ts, r.declarationTokens = t :: ts ∧ t.isVariable = true) :
    parameterTokens r.tokens = parameterList r.signatureTokens := by
  have hdot : ∀ t ∈ r.signatureTokens.head?, t.isMark '.' = false := by
    obtain ⟨t, ts, hts, ht⟩ := hfirst
    have hmark := Token.not_isMark_of_isWord (Token.isWord_of_isVariable ht) '.'
    have hopen : (Token.mark '(').isMark '.' = false := rfl
    unfold signatureTokens
    cases r.enclosed <;> simp [hts, hmark, hopen]
  have hname := hname.qualifiedName?_tokens_append hdot
  rw [parameterTokens, tokens, afterRoutineKeyword?_header hverb hkind]
  simp only [hname]

theorem IsProper.isPiece_of_mem (h : r.IsProper) :
    ∀ piece ∈ r.declarations.map Declaration.tokens, isPiece piece = true := by
  intro piece hpiece
  obtain ⟨d, hd, rfl⟩ := List.mem_map.mp hpiece
  exact (h.declarations d hd).isPiece_tokens

theorem IsProper.declarationTokens_eq_cons (h : r.IsProper) :
    ∃ t ts, r.declarationTokens = t :: ts ∧ t.isVariable = true := by
  obtain ⟨d, ds, hds⟩ := List.exists_cons_of_ne_nil h.nonempty
  have hname := (h.declarations d (by simp [hds])).name
  unfold declarationTokens
  rw [hds]
  cases ds with
  | nil => exact ⟨d.name, _, List.intercalate_singleton, hname⟩
  | cons next ds => exact ⟨d.name, _, joined_cons_cons .., hname⟩

theorem IsProper.parameterList_signatureTokens (h : r.IsProper) :
    parameterList r.signatureTokens = r.declarationTokens := by
  unfold parameterList signatureTokens
  cases henclosed : r.enclosed with
  | true =>
    have hbalanced : isBalanced r.declarationTokens = true := by
      have hjoined : HoldsOutside (fun _ => True) r.declarationTokens := by
        apply HoldsOutside.joined trivial
        intro piece hpiece
        have hpiece := h.isPiece_of_mem piece hpiece
        simp only [isPiece, Bool.and_eq_true] at hpiece
        exact ⟨hpiece.1.2, fun _ _ => trivial⟩
      exact hjoined.balanced
    simp [group?_of_isBalanced hbalanced]
  | false =>
    have houtside : HoldsOutside (fun t => endsParameters t = false) r.declarationTokens := by
      apply HoldsOutside.joined (by decide)
      intro piece hpiece
      obtain ⟨d, hd, rfl⟩ := List.mem_map.mp hpiece
      exact (h.bare henclosed d hd).holdsOutside (h.declarations d hd)
    have hbreak := houtside.breakOutside_append (h.rest henclosed)
    have hgroup : group? (r.declarationTokens ++ r.rest) = none := by
      obtain ⟨t, ts, hts, ht⟩ := h.declarationTokens_eq_cons
      have hopen := Token.not_isMark_of_isWord (Token.isWord_of_isVariable ht) '('
      simp [hts, group?, hopen]
    simp [hgroup, hbreak]

theorem IsProper.parameterTokens_tokens (h : r.IsProper) :
    parameterTokens r.tokens = r.declarationTokens := by
  rw [parameterTokens_eq h.verb h.kind h.name h.declarationTokens_eq_cons,
    h.parameterList_signatureTokens]

/-- Exactly the declared parameters are read from a definition, in their order. -/
theorem parse_declaredRoutine (h : r.IsProper) {sql : String} (hsql : sqlTokens sql = r.tokens) :
    Signature.parse sql = r.signature := by
  have hvariable : r.declarationTokens.any Token.isVariable = true := by
    obtain ⟨t, ts, hts, ht⟩ := h.declarationTokens_eq_cons
    simp [hts, ht]
  have hsplit : splitCommas r.declarationTokens = r.declarations.map Declaration.tokens :=
    splitCommas_intercalate h.isPiece_of_mem
  have hparameters : (r.declarations.map Declaration.tokens).filterMap parameter? =
      r.declarations.map Declaration.parameter := by
    rw [List.filterMap_map, ← List.filterMap_eq_map]
    apply List.filterMap_congr
    intro d hd
    exact (h.declarations d hd).parameter?_tokens
  rw [Signature.parse, hsql, Signature.ofTokens, h.parameterTokens_tokens]
  simp only [hvariable, if_true, hsplit, hparameters]
  rfl

/-- Types with arguments, a default with a call and a literal, a table and an output. -/
theorem parse_declaredRoutine_procedure :
    let r : DeclaredRoutine :=
      { verb := [.word "CREATE", .word "OR", .word "ALTER"]
        kind := .word "Proc"
        name := ⟨.word "dbo", [.delimited "[p]"]⟩
        declarations :=
          [{ name := .word "@a", marker := none, type := sqlTokens "decimal(10, 2)",
             readOnly := none, initial := some (sqlTokens "0"), output := some (.word "out") },
           { name := .word "@b", marker := none, type := sqlTokens "dbo.t",
             readOnly := some (.word "READONLY"), initial := none, output := none },
           { name := .word "@c", marker := none, type := sqlTokens "int", readOnly := none,
             initial := some (sqlTokens "f((1), 'OUT')"), output := none }]
        enclosed := false
        rest := sqlTokens "AS RETURN" }
    let sql := "CREATE OR ALTER Proc dbo.[p] @a decimal(10, 2) = 0 out, @b dbo.t READONLY,
      @c int = f((1), 'OUT') AS RETURN"
    r.IsProper ∧ sqlTokens sql = r.tokens ∧ Signature.parse sql = r.signature ∧
      r.signature = ⟨[⟨"@a", "decimal(10,2)", true⟩, ⟨"@b", "dbo.t", false⟩,
        ⟨"@c", "int", false⟩], true⟩ := by
  intro r sql
  have h : r.IsProper := by decide +kernel
  have hsql : sqlTokens sql = r.tokens := by decide +kernel
  have hsignature : r.signature = ⟨[⟨"@a", "decimal(10,2)", true⟩, ⟨"@b", "dbo.t", false⟩,
      ⟨"@c", "int", false⟩], true⟩ := by decide +kernel
  exact ⟨h, hsql, parse_declaredRoutine h hsql, hsignature⟩

end DeclaredRoutine

end Provenance
