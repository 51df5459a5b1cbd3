import Provenance.Token.Lex
import Provenance.Identifier

/-!
# Classes of characters

Blanks, word characters and punctuation marks exclude each other, and so do the characters that
open literals and delimited names. Trimming takes nothing from a text whose ends are not blank.
-/

namespace Provenance

namespace Text

theorem exists_range_of_inRanges {n : Nat} {ranges : List (Nat × Nat)}
    (h : inRanges n ranges = true) : ∃ r ∈ ranges, r.1 ≤ n ∧ n ≤ r.2 := by
  induction ranges with
  | nil => simp [inRanges] at h
  | cons r rest ih =>
    rw [inRanges] at h
    split at h
    · simp at h
    · rename_i hlow
      rcases Bool.or_eq_true _ _ ▸ h with h | h
      · exact ⟨r, by simp, by omega, of_decide_eq_true h⟩
      · obtain ⟨s, hs, hn⟩ := ih h
        exact ⟨s, by simp [hs], hn⟩

def blankCodes : List Nat := blankRanges.flatMap fun r => List.range' r.1 (r.2 + 1 - r.1)

theorem mem_blankCodes_of_isBlank {c : Char} (h : isBlank c = true) : c.toNat ∈ blankCodes := by
  obtain ⟨r, hr, hlow, hhigh⟩ := exists_range_of_inRanges h
  apply List.mem_flatMap.mpr
  refine ⟨r, hr, ?_⟩
  rw [List.mem_range'_1]
  omega

theorem inWord_of_isBlank {c : Char} (h : isBlank c = true) : inWord c = false := by
  have hcodes : ∀ n ∈ blankCodes, inWord (Char.ofNat n) = false := by decide +kernel
  rw [← Char.ofNat_toNat c]
  exact hcodes _ (mem_blankCodes_of_isBlank h)

theorem isBlank_of_inWord {c : Char} (h : inWord c = true) : isBlank c = false := by
  cases hb : isBlank c with
  | false => rfl
  | true => simp [inWord_of_isBlank hb] at h

theorem inWord_of_mem_punctuation {c : Char} (h : c ∈ punctuation) : inWord c = false := by
  have hmarks : punctuation.all (fun d => !inWord d) = true := by decide +kernel
  exact Bool.not_eq_true' _ ▸ List.all_eq_true.mp hmarks c h

theorem isBlank_of_mem_punctuation {c : Char} (h : c ∈ punctuation) : isBlank c = false := by
  have hmarks : punctuation.all (fun d => !isBlank d) = true := by decide +kernel
  exact Bool.not_eq_true' _ ▸ List.all_eq_true.mp hmarks c h

theorem trimEnd_eq_self {cs : List Char}
    (h : ∀ c, cs.getLast? = some c → isBlank c = false) : trimEnd cs = cs := by
  unfold trimEnd
  rw [← List.head?_reverse] at h
  cases hcs : cs.reverse with
  | nil => simpa using hcs.symm
  | cons c rest =>
    rw [List.dropWhile_cons_of_neg (by simp [h c (by simp [hcs])]), ← hcs, List.reverse_reverse]

theorem trimChars_eq_self {cs : List Char} (hhead : ∀ c, cs.head? = some c → isBlank c = false)
    (hlast : ∀ c, cs.getLast? = some c → isBlank c = false) : trimChars cs = cs := by
  unfold trimChars
  cases cs with
  | nil => rfl
  | cons c rest =>
    rw [List.dropWhile_cons_of_neg (by simp [hhead c rfl])]
    exact trimEnd_eq_self hlast

theorem trimChars_trimChars (cs : List Char) : trimChars (trimChars cs) = trimChars cs := by
  have hfront : trimChars cs <+: cs.dropWhile isBlank := by
    have hsuffix := List.dropWhile_suffix isBlank (l := (cs.dropWhile isBlank).reverse)
    rwa [← List.reverse_prefix, List.reverse_reverse] at hsuffix
  apply trimChars_eq_self
  · intro c hc
    obtain ⟨rest, hrest⟩ := hfront
    have hhead := List.head?_dropWhile_not isBlank cs
    rw [← hrest, List.head?_append, hc] at hhead
    simpa using hhead
  · intro c hc
    have hlast := List.head?_dropWhile_not isBlank (cs.dropWhile isBlank).reverse
    rw [trimChars, trimEnd, List.getLast?_reverse] at hc
    rw [hc] at hlast
    simpa using hlast

theorem trimChars_of_inWord {cs : List Char} (h : ∀ c ∈ cs, inWord c = true) :
    trimChars cs = cs := by
  apply trimChars_eq_self
  · intro c hc
    exact isBlank_of_inWord (h c (List.mem_of_head? hc))
  · intro c hc
    exact isBlank_of_inWord (h c (List.mem_of_getLast? hc))

theorem trim_eq_self_iff {s : String} : trim s = s ↔ trimChars s.toList = s.toList := by
  rw [← String.toList_inj, trim, String.toList_ofList]

end Text

namespace Identifier

theorem toNat_lt_of_le {c last : Char} (h : c.val ≤ last.val) (hlast : last.toNat < 128) :
    c.toNat < 128 :=
  Nat.lt_of_le_of_lt (UInt32.le_iff_toNat_le.mp h) hlast

theorem toNat_lt_of_isAlphanum {c : Char} (h : c.isAlphanum = true) : c.toNat < 128 := by
  rcases Bool.or_eq_true_iff.mp h with halpha | hdigit
  · rcases Bool.or_eq_true_iff.mp halpha with hupper | hlower
    · have hz : c.val ≤ 'Z'.val := (of_decide_eq_true hupper).2
      exact toNat_lt_of_le hz (by decide)
    · have hz : c.val ≤ 'z'.val := of_decide_eq_true (Bool.and_eq_true_iff.mp hlower).2
      exact toNat_lt_of_le hz (by decide)
  · have hnine : c.val ≤ '9'.val := of_decide_eq_true (Bool.and_eq_true_iff.mp hdigit).2
    exact toNat_lt_of_le hnine (by decide)

theorem toNat_lt_of_isRegularNext {c : Char} (h : isRegularNext c = true) : c.toNat < 128 := by
  simp only [isRegularNext, Bool.or_eq_true, beq_iff_eq] at h
  rcases h with (((h | rfl) | rfl) | rfl) | rfl
  · exact toNat_lt_of_isAlphanum h
  all_goals decide

theorem isRegularNext_of_isRegularFirst {c : Char} (h : isRegularFirst c = true) :
    isRegularNext c = true := by
  unfold isRegularFirst at h
  unfold isRegularNext Char.isAlphanum
  rcases Bool.or_eq_true _ _ ▸ h with h | h <;> simp [h]

theorem inWord_of_isRegularNext {c : Char} (h : isRegularNext c = true) :
    Text.inWord c = true := by
  have hcodes : ∀ n < 128, isRegularNext (Char.ofNat n) = true →
      Text.inWord (Char.ofNat n) = true := by decide +kernel
  have hc := hcodes c.toNat (toNat_lt_of_isRegularNext h)
  rw [Char.ofNat_toNat] at hc
  exact hc h

end Identifier

end Provenance
