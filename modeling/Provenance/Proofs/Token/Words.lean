import Provenance.Proofs.Text.Lowered
import Provenance.Token.Basic

/-!
# Keywords and reserved words

Every keyword is a reserved word, so a word in ASCII letters that is not reserved spells none.
Neither does a variable.
-/

namespace Provenance

theorem Keyword.mem_every (k : Keyword) : k ∈ Keyword.every := by
  cases k <;> decide +kernel

theorem Keyword.spelling_mem_reservedSpellings (k : Keyword) :
    k.spelling ∈ reservedSpellings := by
  have hevery : ∀ k ∈ Keyword.every, k.spelling ∈ reservedSpellings := by decide +kernel
  exact hevery k k.mem_every

theorem Keyword.spelling_of_ofWord? {w : String} {k : Keyword}
    (h : Keyword.ofWord? w = some k) : k.spelling = Text.capitalised w := by
  have hk := List.find?_some h
  simpa using hk

theorem Keyword.ofWord?_of_at {w : String} (h : w.toList.head? = some '@') :
    Keyword.ofWord? w = none := by
  have hevery : ∀ k ∈ Keyword.every, k.spelling.toList.head? ≠ some '@' := by decide +kernel
  cases hk : Keyword.ofWord? w with
  | none => rfl
  | some k =>
    have hspelling := Keyword.spelling_of_ofWord? hk
    obtain ⟨cs, hw⟩ : ∃ cs, w.toList = '@' :: cs := by
      cases hw : w.toList with
      | nil => simp [hw] at h
      | cons c cs =>
        obtain rfl : c = '@' := by simpa [hw] using h
        exact ⟨cs, rfl⟩
    have hat : Text.capitals '@' = ['@'] := by decide +kernel
    have hhead : k.spelling.toList.head? = some '@' := by
      rw [hspelling, Text.capitalised, String.toList_ofList, hw, List.flatMap_cons, hat]
      rfl
    exact absurd hhead (hevery k k.mem_every)

theorem spellsReserved_of_ofWord? {w : String} {k : Keyword}
    (hascii : ∀ c ∈ w.toList, c.toNat < 128) (h : Keyword.ofWord? w = some k) :
    spellsReserved w = true := by
  have hk := Keyword.spelling_of_ofWord? h
  rw [Text.capitalised_of_ascii hascii] at hk
  rw [spellsReserved, ← hk, List.contains_iff_mem]
  exact k.spelling_mem_reservedSpellings

theorem spellsReserved_of_equalIgnoringCase {v w : String} (hw : spellsReserved w = true)
    (h : Text.equalIgnoringCase v w = true) : spellsReserved v = true := by
  rw [spellsReserved, Text.asciiUpper_eq_of_equalIgnoringCase h]
  exact hw

namespace Token

/-- Whether a token is written in ASCII letters if it is an unquoted word. -/
def isAscii : Token → Bool
  | word w => w.toList.all fun c => c.toNat < 128
  | _ => true

theorem isReserved_of_keyword? {t : Token} {k : Keyword} (hascii : t.isAscii = true)
    (h : t.keyword? = some k) : t.isReserved = true := by
  cases t with
  | word w =>
    apply spellsReserved_of_ofWord? _ h
    simpa [isAscii] using hascii
  | delimited d => simp [keyword?] at h
  | mark c => simp [keyword?] at h

theorem isReserved_of_spells {t : Token} {w : String} (hw : spellsReserved w = true)
    (h : t.spells w = true) : t.isReserved = true := by
  cases t with
  | word v => exact spellsReserved_of_equalIgnoringCase hw h
  | delimited d => simp [spells] at h
  | mark c => simp [spells] at h

theorem not_isReserved_of_isName {t : Token} (h : t.isName = true) : t.isReserved = false := by
  simp only [isName, Bool.and_eq_true, Bool.not_eq_true'] at h
  exact h.1.1.2

theorem not_isNumber_of_isName {t : Token} (h : t.isName = true) : t.isNumber = false := by
  simp only [isName, Bool.and_eq_true, Bool.not_eq_true'] at h
  exact h.1.2

theorem isWord_of_isName {t : Token} (h : t.isName = true) : t.isWord = true := by
  simp only [isName, Bool.and_eq_true] at h
  exact h.1.1.1

theorem isName_of_isPlainName {t : Token} (h : t.isPlainName = true) : t.isName = true := by
  simp only [isPlainName, Bool.and_eq_true] at h
  exact h.1

theorem isWord_of_is {t : Token} {k : Keyword} (h : t.is k = true) : t.isWord = true := by
  cases t with
  | word w => rfl
  | delimited d => rfl
  | mark c => simp [is, keyword?] at h

theorem isWord_of_spells {t : Token} {w : String} (h : t.spells w = true) : t.isWord = true := by
  cases t with
  | word v => rfl
  | delimited d => rfl
  | mark c => simp [spells] at h

theorem isWord_of_isReserved {t : Token} (h : t.isReserved = true) : t.isWord = true := by
  cases t with
  | word w => rfl
  | delimited d => rfl
  | mark c => simp [isReserved] at h

theorem isWord_of_isVariable {t : Token} (h : t.isVariable = true) : t.isWord = true := by
  cases t with
  | word w => rfl
  | delimited d => rfl
  | mark c => simp [isVariable, beginsWith] at h

theorem not_isMark_of_isWord {t : Token} (h : t.isWord = true) (c : Char) :
    t.isMark c = false := by
  cases t with
  | mark d => simp [isWord] at h
  | word w => rfl
  | delimited d => rfl

theorem is_of_is {t : Token} {j k : Keyword} (h : t.is j = true) (hne : j ≠ k) :
    t.is k = false := by
  have hkeyword : t.keyword? = some j := by simpa [is] using h
  simpa [is, hkeyword] using hne

theorem is_eq_false_of_keyword? {t : Token} (h : t.keyword? = none) (k : Keyword) :
    t.is k = false := by
  simp [is, h]

theorem keyword?_of_isVariable {t : Token} (h : t.isVariable = true) : t.keyword? = none := by
  cases t with
  | word w =>
    apply Keyword.ofWord?_of_at
    cases hw : w.toList.head? with
    | none => simp [isVariable, beginsWith, hw] at h
    | some c =>
      obtain rfl : c = '@' := by simpa [isVariable, beginsWith, hw] using h
      rfl
  | delimited d => rfl
  | mark c => rfl

theorem keyword?_of_spells {t : Token} {w : String} (h : t.spells w = true) :
    t.keyword? = Keyword.ofWord? w := by
  cases t with
  | word v =>
    have hlower : Text.asciiLower v = Text.asciiLower w := Text.equalIgnoringCase_iff.mp h
    have hcapitals : Text.capitalised v = Text.capitalised w := by
      rw [← Text.capitalised_asciiLower, hlower, Text.capitalised_asciiLower]
    simp [keyword?, Keyword.ofWord?, hcapitals]
  | delimited d => simp [spells] at h
  | mark c => simp [spells] at h

theorem is_eq_of_spells {t : Token} {w : String} (h : t.spells w = true) (k : Keyword) :
    t.is k = (word w).is k := by
  rw [is, keyword?_of_spells h, is, keyword?]

theorem not_spells_of_is {t : Token} {w : String} {k : Keyword} (h : t.is k = true)
    (hw : Keyword.ofWord? w ≠ some k) : t.spells w = false := by
  cases hspells : t.spells w with
  | false => rfl
  | true =>
    rw [is, keyword?_of_spells hspells, beq_iff_eq] at h
    exact absurd h hw

theorem not_spells_of_spells {t : Token} {v w : String} (h : t.spells v = true)
    (hne : Text.equalIgnoringCase v w = false) : t.spells w = false := by
  cases t with
  | word u =>
    cases hw : (word u).spells w with
    | false => rfl
    | true =>
      have hsame := Text.equalIgnoringCase_trans (Text.equalIgnoringCase_symm h) hw
      rw [hne] at hsame
      contradiction
  | delimited d => rfl
  | mark c => rfl

theorem keyword?_of_isName {t : Token} (hascii : t.isAscii = true) (h : t.isName = true) :
    t.keyword? = none := by
  cases hk : t.keyword? with
  | none => rfl
  | some k =>
    have hreserved := isReserved_of_keyword? hascii hk
    rw [not_isReserved_of_isName h] at hreserved
    exact absurd hreserved (by decide)

end Token

end Provenance
