import Mathlib.Data.List.Forall2
import Provenance.Proofs.Token.Hidden

/-!
# Masked texts

Masking keeps the layout of a text: each character stays or becomes a space in its place, and a
line break always stays. What is left holds no literal and no comment, and none arises where
spaces have come in, so a masked text is its own mask.
-/

namespace Provenance

/-- Whether `d` may stand in a masked text where the text itself has `c`. -/
def MasksTo (c d : Char) : Prop := d = c ∨ d = ' ' ∧ c ≠ '\n' ∧ c ≠ '\r'

namespace Region

theorem masksTo_blankOut (c : Char) : MasksTo c (blankOut c) := by
  unfold blankOut
  split
  · exact .inl rfl
  · rename_i h
    simp only [Bool.or_eq_true, beq_iff_eq, not_or] at h
    exact .inr ⟨rfl, h⟩

theorem masksTo_masked (r : Region) : List.Forall₂ MasksTo r.text r.masked := by
  cases hidden : r.isHidden with
  | true =>
    rw [masked_of_isHidden hidden, List.forall₂_map_right_iff, List.forall₂_same]
    exact fun c _ => masksTo_blankOut c
  | false =>
    rw [masked_of_not_isHidden hidden, List.forall₂_same]
    exact fun c _ => .inl rfl

theorem length_masked (r : Region) : r.masked.length = r.text.length :=
  (masksTo_masked r).length_eq.symm

end Region

/-! ## Layout -/

theorem length_flatMap_masked (rs : List Region) :
    (rs.flatMap Region.masked).length = (textOf rs).length := by
  simp only [textOf, List.length_flatMap, Region.length_masked]

theorem masksTo_maskedFrom (before : Option Char) (cs : List Char) :
    List.Forall₂ MasksTo cs (maskedFrom before cs) := by
  fun_induction regionsFrom before cs with
  | case1 before =>
    rw [maskedFrom_nil]
    exact .nil
  | case2 before c rest ih =>
    rw [maskedFrom_cons]
    nth_rewrite 1 [← nextRegion_append before c rest]
    exact List.rel_append (Region.masksTo_masked _) ih

theorem toList_mask (s : String) : (mask s).toList = maskedFrom none s.toList := by
  rw [mask, String.toList_ofList, maskedFrom, regions]

theorem length_mask (s : String) : (mask s).length = s.length := by
  rw [← String.length_toList, ← String.length_toList, toList_mask]
  exact (masksTo_maskedFrom none s.toList).length_eq.symm

theorem masksTo_of_getElem? {s : String} {i : Nat} {c : Char} (h : s.toList[i]? = some c) :
    ∃ d, (mask s).toList[i]? = some d ∧ MasksTo c d := by
  obtain ⟨hlength, hget⟩ := List.forall₂_iff_get.mp (masksTo_maskedFrom none s.toList)
  obtain ⟨hi, rfl⟩ := List.getElem?_eq_some_iff.mp h
  rw [toList_mask]
  exact ⟨_, List.getElem?_eq_getElem (hlength ▸ hi), hget i hi (hlength ▸ hi)⟩

theorem getElem?_mask_lineBreak_iff {s : String} {i : Nat} {c : Char} (hc : c = '\n' ∨ c = '\r') :
    (mask s).toList[i]? = some c ↔ s.toList[i]? = some c := by
  constructor
  · intro h
    have hi : i < s.toList.length := by
      rw [(masksTo_maskedFrom none s.toList).length_eq, ← toList_mask]
      exact (List.getElem?_eq_some_iff.mp h).1
    obtain ⟨d, hd, hmasks⟩ := masksTo_of_getElem? (List.getElem?_eq_getElem hi)
    obtain rfl : c = d := Option.some.inj (h.symm.trans hd)
    rcases hmasks with heq | ⟨hspace, -⟩
    · rw [List.getElem?_eq_getElem hi, heq]
    · rcases hc with rfl | rfl <;> exact absurd hspace (by decide)
  · intro h
    obtain ⟨d, hd, rfl | ⟨-, hn, hr⟩⟩ := masksTo_of_getElem? h
    · exact hd
    · exact absurd hc (not_or.mpr ⟨hn, hr⟩)

/-! ## Delimited names -/

/-- Whether a name that `o` opens runs up to the first character that closes it, or to the end of
the text if none does. -/
def RunsToClosing (o : Char) (body rest : List Char) : Prop :=
  closes (closer o) body = true ∧ rest.head? ≠ some (closer o) ∨
    closes (closer o) body = false ∧ rest = []

theorem runsToClosing_splitDelimited (o : Char) (cs : List Char) :
    RunsToClosing o (splitDelimited (closer o) cs).1 (splitDelimited (closer o) cs).2 := by
  by_cases hrest : (splitDelimited (closer o) cs).2 = []
  · rw [hrest]
    cases hcloses : closes (closer o) (splitDelimited (closer o) cs).1 with
    | true => exact .inl ⟨hcloses, by simp⟩
    | false => exact .inr ⟨hcloses, rfl⟩
  · exact .inl (closes_splitDelimited hrest)

theorem exists_nextRegion {before : Option Char} {cs : List Char} {front back : List Region}
    {r : Region} (h : regionsFrom before cs = front ++ r :: back) :
    ∃ before' c rest, nextRegion before' c rest = (r, textOf back) := by
  induction front generalizing before cs with
  | nil =>
    cases cs with
    | nil => simp [regionsFrom] at h
    | cons c rest =>
      rw [regionsFrom_cons] at h
      obtain ⟨rfl, rfl⟩ := List.cons.inj h
      exact ⟨before, c, rest, by rw [textOf_regionsFrom]⟩
  | cons f front ih =>
    cases cs with
    | nil => simp [regionsFrom] at h
    | cons c rest =>
      rw [regionsFrom_cons, List.cons_append] at h
      exact ih (List.cons.inj h).2

/-- A region that a bracket or double quote opens is kept as it is and runs up to where it
closes. -/
theorem masked_of_opening {before : Option Char} {cs : List Char} {front back : List Region}
    {r : Region} (h : regionsFrom before cs = front ++ r :: back) {o : Char} {body : List Char}
    (htext : r.text = o :: body) (ho : o = '[' ∨ o = '"') :
    r.masked = r.text ∧ RunsToClosing o body (textOf back) := by
  obtain ⟨before', c, rest, hnext⟩ := exists_nextRegion h
  obtain ⟨tail, hhead⟩ := text_nextRegion before' c rest
  rw [hnext] at hhead
  obtain ⟨rfl, -⟩ := List.cons.inj (htext.symm.trans hhead)
  rw [nextRegion_delimited ho] at hnext
  obtain ⟨rfl, hback⟩ := Prod.mk.inj hnext
  obtain ⟨-, rfl⟩ := List.cons.inj htext
  rw [← hback]
  exact ⟨rfl, runsToClosing_splitDelimited o rest⟩

/-! ## Masking twice -/

theorem head?_maskedFrom_ne_quote (before : Option Char) (cs : List Char) :
    (maskedFrom before cs).head? ≠ some '\'' := by
  intro h
  rcases head?_maskedFrom h with hcs | hspace
  · obtain ⟨rest, rfl⟩ := List.head?_eq_some_iff.mp hcs
    rw [maskedFrom_cons] at h
    simp [nextRegion, Region.masked, Region.blankOut] at h
  · exact absurd hspace (by decide)

theorem maskedFrom_blanks {blanks : List Char} (h : blanks.all Text.isBlank = true)
    (before : Option Char) (cs : List Char) :
    maskedFrom before (blanks ++ cs) = blanks ++ maskedFrom (blanks.getLast?.or before) cs := by
  induction blanks generalizing before with
  | nil => rfl
  | cons b blanks ih =>
    obtain ⟨hb, htail⟩ := Bool.and_eq_true_iff.mp h
    have hplain : nextRegion before b (blanks ++ cs) = (.plain b, blanks ++ cs) := by
      apply nextRegion_of_class hb (by decide)
      rintro (rfl | rfl) <;> exact absurd hb (by decide)
    have hlast : (b :: blanks).getLast?.or before = blanks.getLast?.or (some b) := by
      rw [← List.singleton_append, List.getLast?_append, Option.or_assoc]
      rfl
    rw [List.cons_append, maskedFrom_plain hplain, ih htail, hlast]
    rfl

theorem nextRegion_plain_maskedFrom {before : Option Char} {c : Char} {rest : List Char}
    (h : nextRegion before c rest = (.plain c, rest)) (before' : Option Char) :
    nextRegion before' c (maskedFrom (some c) rest) =
      (.plain c, maskedFrom (some c) rest) := by
  have hhead : ∀ d, d ≠ ' ' → rest.head? ≠ some d → (maskedFrom (some c) rest).head? ≠ some d := by
    intro d hd hrest hmasked
    exact (head?_maskedFrom hmasked).elim hrest hd
  rw [nextRegion_eq_plain_iff] at h
  simp only [opensRegion, Bool.or_eq_false_iff, Bool.and_eq_false_imp, beq_iff_eq,
    beq_eq_false_iff_ne] at h
  obtain ⟨⟨⟨⟨⟨hquote, hbracket⟩, hdouble⟩, hline⟩, hblock⟩, -⟩ := h
  apply nextRegion_plain hquote hbracket hdouble
  · exact fun hc => hhead '-' (by decide) (hline hc)
  · exact fun hc => hhead '*' (by decide) (hblock hc)
  · exact fun _ => head?_maskedFrom_ne_quote (some c) rest

theorem splitDelimited_maskedFrom {o : Char} (ho : o = '[' ∨ o = '"') (before : Option Char)
    (rest : List Char) :
    splitDelimited (closer o) ((splitDelimited (closer o) rest).1 ++
        maskedFrom before (splitDelimited (closer o) rest).2) =
      ((splitDelimited (closer o) rest).1,
        maskedFrom before (splitDelimited (closer o) rest).2) := by
  have hspace : closer o ≠ ' ' := by rcases ho with rfl | rfl <;> decide
  by_cases hrest : (splitDelimited (closer o) rest).2 = []
  · have hwhole := splitDelimited_append (closer o) rest
    rw [hrest, List.append_nil] at hwhole
    rw [hrest, maskedFrom_nil, List.append_nil, hwhole]
    exact Prod.ext hwhole hrest
  · obtain ⟨hcloses, hhead⟩ := closes_splitDelimited hrest
    apply splitDelimited_of_closes hcloses
    intro hmasked
    exact (head?_maskedFrom hmasked).elim hhead hspace

/-- A masked text is its own mask, whatever stands before it. -/
theorem maskedFrom_maskedFrom (before before' : Option Char) (cs : List Char) :
    maskedFrom before' (maskedFrom before cs) = maskedFrom before cs := by
  fun_induction regionsFrom before cs generalizing before' with
  | case1 before => rw [maskedFrom_nil, maskedFrom_nil]
  | case2 before c rest ih =>
    rw [maskedFrom_cons]
    cases hidden : (nextRegion before c rest).1.isHidden with
    | true =>
      rw [masked_of_isHidden hidden, maskedFrom_blanks (isBlank_blankOut _), ih]
    | false =>
      rw [masked_of_not_isHidden hidden]
      rcases nextRegion_of_not_isHidden hidden with ho | ⟨hplain, -⟩
      · rw [nextRegion_delimited ho] at ih ⊢
        simp only [Region.text, List.cons_append] at ih ⊢
        rw [maskedFrom_cons, nextRegion_delimited ho, splitDelimited_maskedFrom ho]
        simp only [Region.masked, List.cons_append, ih]
      · rw [hplain] at ih ⊢
        have hmasked := nextRegion_plain_maskedFrom hplain before'
        exact (maskedFrom_plain hmasked).trans (congrArg (c :: ·) (ih (some c)))

/-- A masked text is laid out as the text itself: only spaces have come in, none for a line break.
A delimited name is kept in its place up to where it closes. Masking again changes nothing. -/
theorem mask_layout (s : String) :
    (mask s).length = s.length ∧
      (∀ (i : Nat) (c : Char), s.toList[i]? = some c →
        ∃ d, (mask s).toList[i]? = some d ∧ (d = c ∨ d = ' ' ∧ c ≠ '\n' ∧ c ≠ '\r')) ∧
      (∀ (i : Nat) (c : Char), c = '\n' ∨ c = '\r' →
        ((mask s).toList[i]? = some c ↔ s.toList[i]? = some c)) ∧
      (∀ (front back : List Region) (r : Region) (o : Char) (body : List Char),
        regions s = front ++ r :: back → r.text = o :: body → o = '[' ∨ o = '"' →
          s.toList = textOf front ++ r.text ++ textOf back ∧
            (∃ front' back' : List Char, (mask s).toList = front' ++ r.text ++ back' ∧
              front'.length = (textOf front).length) ∧
            RunsToClosing o body (textOf back)) ∧
      mask (mask s) = mask s := by
  refine ⟨length_mask s, fun i c h => masksTo_of_getElem? h,
    fun i c hc => getElem?_mask_lineBreak_iff hc, ?_, ?_⟩
  · intro front back r o body hregions htext ho
    obtain ⟨hkept, hruns⟩ := masked_of_opening hregions htext ho
    refine ⟨?_, ⟨front.flatMap Region.masked, back.flatMap Region.masked, ?_,
      length_flatMap_masked front⟩, hruns⟩
    · have hwhole := textOf_regionsFrom none s.toList
      rw [show regionsFrom none s.toList = regions s from rfl, hregions] at hwhole
      rw [← hwhole]
      simp [textOf]
    · rw [mask, String.toList_ofList, hregions, List.flatMap_append, List.flatMap_cons, hkept,
        List.append_assoc]
  · rw [← String.toList_inj, toList_mask, toList_mask, maskedFrom_maskedFrom]

/-- The quote in brackets opens no literal, and the line break in the literal stays. -/
example : mask "[a'b]]],N'c\n--' d/*[*/" = "[a'b]]],   \n    d     " := by decide +kernel

end Provenance
