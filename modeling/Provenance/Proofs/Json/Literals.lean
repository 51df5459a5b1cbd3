import Provenance.Json.Lexer
import Provenance.Json.Printer

/-!
# Reading written string literals

Every character is read from its escape, and a text is made up of the codes of its characters
since none of them is a surrogate. A literal that denotes nothing is read as one again.
-/

namespace Provenance

theorem Text.not_isSurrogate (c : Char) :
    (isHighSurrogate c.toNat || isLowSurrogate c.toNat) = false := by
  have hvalid : c.toNat < 0xD800 ∨ 0xDFFF < c.toNat ∧ c.toNat < 0x110000 := c.valid
  simp only [isHighSurrogate, isLowSurrogate, Bool.or_eq_false_iff, Bool.and_eq_false_iff,
    decide_eq_false_iff_not]
  omega

theorem Text.ofCodes?_toNat (cs : List Char) : ofCodes? (cs.map Char.toNat) = some cs := by
  induction cs with
  | nil => rfl
  | cons c cs ih =>
    have hc := not_isSurrogate c
    cases cs with
    | nil => simp [ofCodes?, hc]
    | cons d cs =>
      rw [Bool.or_eq_false_iff] at hc
      rw [List.map_cons, List.map_cons, ofCodes?, ← List.map_cons, ih]
      simp [hc]

namespace Json

theorem hexDigit?_digitChar : ∀ n < 16, hexDigit? (Nat.digitChar n) = some n := by decide

theorem hexValue?_controlDigits {c : Char} (hc : c < ' ') :
    hexValue? ('0' :: '0' :: controlDigits c) = some c.toNat := by
  have hlt : c.toNat < 32 := hc
  have hhigh := hexDigit?_digitChar (c.toNat / 16) (by omega)
  have hlow := hexDigit?_digitChar (c.toNat % 16) (by omega)
  have hzero : hexDigit? '0' = some 0 := by decide
  simp only [hexValue?, controlDigits, List.foldlM_cons, List.foldlM_nil, hhigh, hlow, hzero,
    Option.map_some, Option.bind_eq_bind, Option.bind_some, Option.pure_def]
  congr 1
  omega

/-- What a literal holds with one more code in front. -/
def withCode (code : Nat) (rest : List Char) : Option (List Nat × List Char) :=
  (literalCodes? rest).map fun read => (code :: read.1, read.2)

theorem literalCodes?_short {e : Char} {code : Nat} (hu : e ≠ 'u')
    (h : escapedCode? e = some code) (rest : List Char) :
    literalCodes? ('\\' :: e :: rest) = withCode code rest := by
  rw [literalCodes?, h, withCode]
  · cases literalCodes? rest <;> rfl
  · rintro a b c d tail rfl
    exact absurd rfl hu

theorem literalCodes?_unicode {a b c d : Char} {code : Nat}
    (h : hexValue? [a, b, c, d] = some code) (rest : List Char) :
    literalCodes? ('\\' :: 'u' :: a :: b :: c :: d :: rest) = withCode code rest := by
  rw [literalCodes?, h, withCode]
  cases literalCodes? rest <;> rfl

theorem literalCodes?_plain {c : Char} (hquote : c ≠ '"') (hslash : c ≠ '\\')
    (hc : ¬ c < ' ') (rest : List Char) :
    literalCodes? (c :: rest) = withCode c.toNat rest := by
  rw [literalCodes?, if_neg hc, withCode]
  · cases literalCodes? rest <;> rfl
  · exact hquote
  · rintro a b c d tail rfl
    exact absurd rfl hslash
  · rintro e tail rfl
    exact absurd rfl hslash

theorem literalCodes?_escape (c : Char) (rest : List Char) :
    literalCodes? (escape c ++ rest) = withCode c.toNat rest := by
  unfold escape
  split
  case h_8 hquote hslash _ _ _ _ _ =>
    split
    case isTrue hc =>
      exact literalCodes?_unicode (hexValue?_controlDigits hc) rest
    case isFalse hc =>
      exact literalCodes?_plain hquote hslash hc rest
  all_goals exact literalCodes?_short (by decide) rfl rest

theorem literalCodes?_flatMap_escape (cs rest : List Char) :
    literalCodes? (cs.flatMap escape ++ '"' :: rest) = some (cs.map Char.toNat, rest) := by
  induction cs with
  | nil => rfl
  | cons c cs ih =>
    rw [List.flatMap_cons, List.append_assoc, literalCodes?_escape, withCode, ih]
    rfl

/-- A written literal is read as it is. -/
theorem lexeme?_writeLiteral (literal : Literal) (rest : List Char) :
    ∃ body, writeLiteral literal = '"' :: body ∧
      lexeme? '"' (body ++ rest) = some (.string literal, rest) := by
  cases literal with
  | none => exact ⟨_, rfl, rfl⟩
  | some s =>
    refine ⟨s.toList.flatMap escape ++ ['"'], rfl, ?_⟩
    rw [List.append_assoc, lexeme?, List.singleton_append, literalCodes?_flatMap_escape]
    simp only [Option.map_some, Text.ofCodes?_toNat, String.ofList_toList]

end Json

end Provenance
