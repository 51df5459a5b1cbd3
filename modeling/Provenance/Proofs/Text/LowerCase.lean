import Provenance.Proofs.Text.Case
import Provenance.Text.LowerCase

/-!
# Lower case of texts

The image of a character depends on its neighbours only as far as the next character that is not
case-ignorable. A text in ASCII has its small letters as its lower case.
-/

namespace Provenance.Text

theorem lowerImage_congr {before after after' : List Char} {c : Char}
    (h : meetsCased after = meetsCased after') :
    lowerImage before c after = lowerImage before c after' := by
  simp [lowerImage, isFinal, h]

theorem lowerImage_of_ascii (before : List Char) {c : Char} (hc : c.toNat < 128)
    (after : List Char) : lowerImage before c after = [c.toLower] := by
  have hsigma : c ≠ 'Σ' := by
    rintro rfl
    exact absurd hc (by decide)
  have hdotted : c ≠ 'İ' := by
    rintro rfl
    exact absurd hc (by decide)
  rw [lowerImage, if_neg hsigma, if_neg hdotted, lowerChar, if_pos hc]

theorem length_lowerImage_congr (before before' : List Char) (c : Char)
    (after after' : List Char) :
    (lowerImage before c after).length = (lowerImage before' c after').length := by
  unfold lowerImage
  split
  · rfl
  · split <;> rfl

theorem length_lowerChars_append (before before' cs ds : List Char) :
    (lowerChars before (cs ++ ds)).length =
      (lowerChars before' cs).length + (lowerChars (cs.reverse ++ before) ds).length := by
  induction cs generalizing before before' with
  | nil => simp [lowerChars]
  | cons c cs ih =>
    rw [List.cons_append, lowerChars, lowerChars, List.length_append, List.length_append,
      ih (c :: before) (c :: before'), length_lowerImage_congr before before' c (cs ++ ds) cs]
    simp [Nat.add_assoc]

theorem lowerChars_of_ascii (before : List Char) {cs : List Char}
    (h : ∀ c ∈ cs, c.toNat < 128) : lowerChars before cs = cs.map Char.toLower := by
  induction cs generalizing before with
  | nil => rfl
  | cons c cs ih =>
    rw [lowerChars, lowerImage_of_ascii before (h c (by simp)), ih _ fun d hd => h d (by simp [hd])]
    rfl

theorem meetsCased_append (cs : List Char) {b : Char} (hb : isCaseIgnorable b = false)
    (tail : List Char) : meetsCased (cs ++ b :: tail) = meetsCased (cs ++ [b]) := by
  unfold meetsCased
  rw [List.dropWhile_append, List.dropWhile_append]
  split
  · simp [hb]
  · rename_i hne
    cases hdrop : cs.dropWhile isCaseIgnorable with
    | nil => simp [hdrop] at hne
    | cons d ds => rfl

/-- Past a character in ASCII that is not case-ignorable, what follows no longer counts. -/
theorem lowerChars_append (before cs : List Char) {b : Char} (hb : isCaseIgnorable b = false)
    (hascii : b.toNat < 128) (tail : List Char) :
    lowerChars before (cs ++ b :: tail) =
      lowerChars before (cs ++ [b]) ++ lowerChars (b :: (cs.reverse ++ before)) tail := by
  induction cs generalizing before with
  | nil => simp [lowerChars, lowerImage_of_ascii _ hascii]
  | cons c cs ih =>
    have himage : lowerImage before c (cs ++ b :: tail) = lowerImage before c (cs ++ [b]) :=
      lowerImage_congr (meetsCased_append cs hb tail)
    rw [List.cons_append, lowerChars, himage, ih, List.cons_append, lowerChars]
    simp

theorem toList_lowerCase (s : String) : (lowerCase s).toList = lowerChars [] s.toList :=
  String.toList_ofList

/-! ## Marks below the letters -/

/-- No capital above ASCII has a small letter before `k`. -/
theorem le_smallLetter {runs : List CaseRun} (hruns : ∀ run ∈ runs, 0x6B ≤ run.target) {n : Nat}
    (hn : 0x6B ≤ n) : 0x6B ≤ smallLetter n runs := by
  induction runs with
  | nil => exact hn
  | cons run runs ih =>
    unfold smallLetter
    split
    · exact hn
    split
    · exact Nat.le_add_right_of_le (hruns run (by simp))
    · exact ih fun other hother => hruns other (List.mem_cons_of_mem run hother)

section Marks

variable {m : Char}

theorem lowerChar_ne_mark (hm : 0 < m.toNat ∧ m.toNat < 65) {c : Char} (hc : ¬ c.toNat < 128) :
    lowerChar c ≠ m := by
  have hruns : ∀ run ∈ caseRuns, 0x6B ≤ run.target := by decide +kernel
  have hsmall := le_smallLetter hruns (n := c.toNat) (by omega)
  rw [lowerChar, if_neg hc]
  intro hmark
  have hcode := congrArg Char.toNat hmark
  by_cases hvalid : (smallLetter c.toNat caseRuns).isValidChar
  · have hsame : (Char.ofNat (smallLetter c.toNat caseRuns)).toNat =
        smallLetter c.toNat caseRuns := by
      rw [Char.ofNat, dif_pos hvalid]
      rfl
    omega
  · have hzero : (Char.ofNat (smallLetter c.toNat caseRuns)).toNat = 0 := by
      rw [Char.ofNat, dif_neg hvalid]
      rfl
    omega

theorem toLower_of_lt {c : Char} (hc : c.toNat < 128) (h : c.toNat < 65 ∨ c.toLower.toNat < 65) :
    c.toLower = c :=
  char_of_ascii (p := fun c => c.toNat < 65 ∨ c.toLower.toNat < 65 → c.toLower = c)
    (by decide +kernel) hc h

theorem mark_mem_lowerImage (hm : 0 < m.toNat ∧ m.toNat < 65) {before after : List Char}
    {c : Char} : m ∈ lowerImage before c after ↔ c = m := by
  by_cases hc : c.toNat < 128
  · rw [lowerImage_of_ascii _ hc, List.mem_singleton]
    constructor
    · rintro rfl
      exact (toLower_of_lt hc (.inr hm.2)).symm
    · rintro rfl
      exact (toLower_of_lt hc (.inl hm.2)).symm
  · have hne : c ≠ m := by
      rintro rfl
      omega
    have hlower := lowerChar_ne_mark hm hc
    have himages : m ≠ 'σ' ∧ m ≠ 'ς' ∧ m ≠ 'i' ∧ m ≠ '\u0307' := by
      refine ⟨?_, ?_, ?_, ?_⟩ <;> (rintro rfl; exact absurd hm.2 (by decide))
    unfold lowerImage
    split
    · split <;> simp [hne, himages]
    split
    · simp [hne, himages]
    · simp [hne, Ne.symm hlower]

theorem mark_mem_lowerChars (hm : 0 < m.toNat ∧ m.toNat < 65) {before cs : List Char} :
    m ∈ lowerChars before cs ↔ m ∈ cs := by
  induction cs generalizing before with
  | nil => simp [lowerChars]
  | cons c cs ih =>
    rw [lowerChars, List.mem_append, mark_mem_lowerImage hm, ih, List.mem_cons, eq_comm]

theorem mark_mem_lowerCase (hm : 0 < m.toNat ∧ m.toNat < 65) {s : String} :
    m ∈ (lowerCase s).toList ↔ m ∈ s.toList := by
  rw [toList_lowerCase]
  exact mark_mem_lowerChars hm

end Marks

theorem dot_mem_lowerCase {s : String} : '.' ∈ (lowerCase s).toList ↔ '.' ∈ s.toList :=
  mark_mem_lowerCase (by decide)

/-! ## Lower case and ASCII case -/

theorem isCaseIgnorable_toLower (c : Char) : isCaseIgnorable c.toLower = isCaseIgnorable c :=
  toLower_congr (by decide +kernel) c

theorem isCased_toLower (c : Char) : isCased c.toLower = isCased c :=
  toLower_congr (by decide +kernel) c

theorem meetsCased_map_toLower (cs : List Char) :
    meetsCased (cs.map Char.toLower) = meetsCased cs := by
  have hignorable : isCaseIgnorable ∘ Char.toLower = isCaseIgnorable := by
    funext c
    exact isCaseIgnorable_toLower c
  rw [meetsCased, List.dropWhile_map, hignorable, List.head?_map, Option.any_map]
  simp only [isCased_toLower, meetsCased]

theorem lowerImage_toLower (before : List Char) (c : Char) (after : List Char) :
    lowerImage (before.map Char.toLower) c.toLower (after.map Char.toLower) =
      lowerImage before c after := by
  by_cases hc : c.toNat < 128
  · have hlower : c.toLower.toNat < 128 ∧ c.toLower.toLower = c.toLower :=
      char_of_ascii (p := fun c => c.toLower.toNat < 128 ∧ c.toLower.toLower = c.toLower)
        (by decide +kernel) hc
    rw [lowerImage_of_ascii _ hlower.1, lowerImage_of_ascii _ hc, hlower.2]
  · have hfinal : isFinal (before.map Char.toLower) (after.map Char.toLower) =
        isFinal before after := by
      rw [isFinal, meetsCased_map_toLower, meetsCased_map_toLower, isFinal]
    rw [toLower_of_not_ascii hc, lowerImage, hfinal, lowerImage]

theorem lowerChars_map_toLower (before cs : List Char) :
    lowerChars (before.map Char.toLower) (cs.map Char.toLower) = lowerChars before cs := by
  induction cs generalizing before with
  | nil => rfl
  | cons c cs ih =>
    rw [List.map_cons, lowerChars, lowerChars, lowerImage_toLower, ← List.map_cons, ih]

/-- The case of ASCII letters is lost in the lower case. -/
@[simp] theorem lowerCase_asciiLower (s : String) : lowerCase (asciiLower s) = lowerCase s := by
  rw [lowerCase, asciiLower, String.toList_ofList, lowerCase]
  exact congrArg String.ofList (lowerChars_map_toLower [] s.toList)

theorem lowerCase_eq_of_equalIgnoringCase {a b : String} (h : equalIgnoringCase a b = true) :
    lowerCase a = lowerCase b := by
  rw [← lowerCase_asciiLower a, equalIgnoringCase_iff.mp h, lowerCase_asciiLower]

end Provenance.Text
