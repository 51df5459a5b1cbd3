import Provenance.Proofs.Token.Pieces

/-!
# Texts put together

A text that ends with a plain character which nothing can run into, such as a line break or an
opening parenthesis, is read by itself: its tokens come first, and those of the text behind it
follow.
-/

namespace Provenance

/-- Whether a character that opens nothing by itself opens nothing with what follows it either, and
belongs to no word. -/
def isBoundary (c : Char) : Bool := !Text.inWord c && c != '-' && c != '/'

theorem nextRegion_boundary {before : Option Char} {c : Char} (hc : isBoundary c = true)
    (h : nextRegion before c [] = (.plain c, [])) (rest : List Char) :
    nextRegion before c rest = (.plain c, rest) := by
  simp only [isBoundary, Bool.and_eq_true, Bool.not_eq_true', bne_iff_ne] at hc
  obtain ⟨⟨hword, hdash⟩, hslash⟩ := hc
  have hletter : c ≠ 'N' ∧ c ≠ 'n' := by
    constructor
    all_goals
      rintro rfl
      exact absurd hword (by decide)
  rw [nextRegion_eq_plain_iff] at h ⊢
  simp only [opensRegion, Bool.or_eq_false_iff] at h ⊢
  simp [h.1.1.1.1.1, h.1.1.1.1.2, h.1.1.1.2, hdash, hslash, hletter.1, hletter.2]

theorem nextToken_single {c : Char} (hc : c ≠ '[' ∧ c ≠ '"') (hword : Text.inWord c = false)
    (cs : List Char) : nextToken c cs = ((nextToken c []).1, cs) := by
  have hopen : ¬ (c = '[' ∨ c = '"') := not_or.mpr hc
  simp only [nextToken, Bool.or_eq_true, decide_eq_true_eq, if_neg hopen, hword]
  split
  · rfl
  · simp only [Bool.false_eq_true, if_false]
    split <;> rfl

/-! ## Longer texts -/

/-- Whether a longer text is cut into the tokens of a shorter one and then some more, also after a
word that may run into it. -/
structure RunsOn (cs longer : List Char) (more : List Token) : Prop where
  word : longer.takeWhile Text.inWord = cs.takeWhile Text.inWord
  rest : lexChars (longer.dropWhile Text.inWord) = lexChars (cs.dropWhile Text.inWord) ++ more

namespace RunsOn

variable {cs longer : List Char} {more : List Token}

theorem lexChars_append (h : RunsOn cs longer more) : lexChars longer = lexChars cs ++ more := by
  by_cases hword : cs.takeWhile Text.inWord = []
  · have hcs := List.takeWhile_append_dropWhile (p := Text.inWord) (l := cs)
    have hlonger := List.takeWhile_append_dropWhile (p := Text.inWord) (l := longer)
    rw [hword, List.nil_append] at hcs
    rw [h.word, hword, List.nil_append] at hlonger
    rw [← hcs, ← hlonger, h.rest]
  · rw [lexChars_eq cs hword, lexChars_eq longer (h.word ▸ hword), h.word, h.rest]
    rfl

theorem of_lexChars {c : Char} (hc : Text.inWord c = false)
    (h : lexChars (c :: longer) = lexChars (c :: cs) ++ more) :
    RunsOn (c :: cs) (c :: longer) more := by
  constructor
  · simp [hc]
  · simpa [hc] using h

theorem plain (h : RunsOn cs longer more) {c : Char} (hc : c ≠ '[' ∧ c ≠ '"') :
    RunsOn (c :: cs) (c :: longer) more := by
  cases hword : Text.inWord c with
  | true =>
    constructor
    · simp [hword, h.word]
    · simp [hword, h.rest]
  | false =>
    apply of_lexChars hword
    rw [lexChars, lexChars, nextToken_single hc hword longer, nextToken_single hc hword cs,
      h.lexChars_append, List.append_assoc]

theorem blanks (h : RunsOn cs longer more) {blanks : List Char} (hne : blanks ≠ [])
    (hblanks : blanks.all Text.isBlank = true) :
    RunsOn (blanks ++ cs) (blanks ++ longer) more := by
  cases blanks with
  | nil => exact absurd rfl hne
  | cons b blanks =>
    have hlonger := GoesOnAs.lexChars_blanks hblanks longer
    have hcs := GoesOnAs.lexChars_blanks hblanks cs
    apply of_lexChars (Text.inWord_of_isBlank (Bool.and_eq_true_iff.mp hblanks).1)
    exact hlonger.trans (h.lexChars_append.trans (congrArg (· ++ more) hcs.symm))

end RunsOn

/-! ## Texts that end plainly -/

variable {before : Option Char} {cs : List Char} {c : Char}

/-- The first region of a text stays what it is when another text follows. -/
theorem nextRegion_append_text {d : Char} {rest : List Char}
    (hrest : (nextRegion before d rest).2 ≠ []) (ds : List Char) :
    nextRegion before d (rest ++ ds) =
      ((nextRegion before d rest).1, (nextRegion before d rest).2 ++ ds) := by
  have hhead : ((nextRegion before d rest).2 ++ ds).head? = (nextRegion before d rest).2.head? :=
    List.head?_append_of_ne_nil _ hrest
  have hregion := nextRegion_continues hrest (.inl hhead)
  have htext := nextRegion_append before d rest
  obtain ⟨tail, htail⟩ := text_nextRegion before d rest
  rw [htail] at hregion htext
  rw [List.cons_append, List.cons.injEq] at htext
  rwa [List.tail_cons, ← List.append_assoc, htext.2] at hregion

theorem eq_singleton_of_plain {d : Char} {rest : List Char}
    (hrest : (nextRegion before d rest).2 = []) (h : (nextRegion before d rest).1 = .plain c) :
    d = c ∧ rest = [] := by
  have htext := nextRegion_append before d rest
  rw [hrest, h, List.append_nil, Region.text, List.cons.injEq] at htext
  exact ⟨htext.1.symm, htext.2.symm⟩

theorem regionsFrom_ne_nil (hcs : cs ≠ []) : regionsFrom before cs ≠ [] := by
  cases cs with
  | nil => exact absurd rfl hcs
  | cons d rest => simp [regionsFrom_cons]

theorem runsOn_singleton (hc : isBoundary c = true)
    (h : nextRegion before c [] = (.plain c, [])) (ds : List Char) :
    RunsOn (maskedFrom before [c]) (maskedFrom before (c :: ds)) (tokensFrom (some c) ds) := by
  have hopen : c ≠ '[' ∧ c ≠ '"' := by
    rw [nextRegion_eq_plain_iff] at h
    constructor
    all_goals
      rintro rfl
      simp [opensRegion] at h
  rw [maskedFrom_plain h, maskedFrom_plain (nextRegion_boundary hc h ds), maskedFrom_nil]
  simp only [isBoundary, Bool.and_eq_true, Bool.not_eq_true'] at hc
  apply RunsOn.of_lexChars hc.1.1
  have hsingle : lexChars [c] = (nextToken c []).1.toList := by
    rw [lexChars, nextToken_single hopen hc.1.1, lexChars, List.append_nil]
  rw [hsingle, lexChars, nextToken_single hopen hc.1.1]
  rfl

theorem runsOn_delimited {o : Char} (ho : o = '[' ∨ o = '"') {rest ds : List Char}
    {more : List Token} (hrest : (splitDelimited (closer o) rest).2 ≠ [])
    (h : RunsOn
      (maskedFrom (o :: (splitDelimited (closer o) rest).1).getLast?
        (splitDelimited (closer o) rest).2)
      (maskedFrom (o :: (splitDelimited (closer o) rest).1).getLast?
        ((splitDelimited (closer o) rest).2 ++ ds)) more) :
    RunsOn (maskedFrom before (o :: rest)) (maskedFrom before (o :: (rest ++ ds))) more := by
  have hmasked : ∀ es, ∃ tail, maskedFrom before (o :: es) = o :: tail := by
    intro es
    rw [maskedFrom_cons, nextRegion_delimited ho]
    exact ⟨_, rfl⟩
  have hopen : Text.inWord o = false := by rcases ho with rfl | rfl <;> decide
  have hsplit : splitDelimited (closer o) (rest ++ ds) =
      ((splitDelimited (closer o) rest).1, (splitDelimited (closer o) rest).2 ++ ds) := by
    obtain ⟨hcloses, hhead⟩ := closes_splitDelimited hrest
    have hnext : ((splitDelimited (closer o) rest).2 ++ ds).head? ≠ some (closer o) := by
      rwa [List.head?_append_of_ne_nil _ hrest]
    have hlonger := splitDelimited_of_closes hcloses hnext
    rwa [← List.append_assoc, splitDelimited_append] at hlonger
  have htokens : tokensFrom before (o :: (rest ++ ds)) = tokensFrom before (o :: rest) ++ more := by
    have hlonger := h.lexChars_append
    rw [tokensFrom_opening ho, tokensFrom_opening ho, hsplit]
    rw [tokensFrom, hlonger]
    rfl
  obtain ⟨tail, htail⟩ := hmasked rest
  obtain ⟨longer, hlonger⟩ := hmasked (rest ++ ds)
  rw [tokensFrom, tokensFrom, htail, hlonger] at htokens
  rw [htail, hlonger]
  exact RunsOn.of_lexChars hopen htokens

theorem runsOn_maskedFrom (hc : isBoundary c = true)
    (h : (regionsFrom before cs).getLast? = some (.plain c)) (ds : List Char) :
    RunsOn (maskedFrom before cs) (maskedFrom before (cs ++ ds)) (tokensFrom (some c) ds) := by
  fun_induction regionsFrom before cs with
  | case1 before => simp at h
  | case2 before d rest ih =>
    by_cases hrest : (nextRegion before d rest).2 = []
    · rw [hrest, regionsFrom, List.getLast?_singleton, Option.some.injEq] at h
      obtain ⟨rfl, rfl⟩ := eq_singleton_of_plain hrest h
      exact runsOn_singleton hc (Prod.ext h hrest) ds
    · rw [List.getLast?_cons_of_ne_nil (regionsFrom_ne_nil hrest)] at h
      have hnext := nextRegion_append_text hrest ds
      have htail := ih h
      obtain ⟨tail, htext⟩ := text_nextRegion before d rest
      rw [List.cons_append]
      cases hidden : (nextRegion before d rest).1.isHidden with
      | true =>
        rw [maskedFrom_cons, maskedFrom_cons, hnext, masked_of_isHidden hidden]
        apply htail.blanks _ (isBlank_blankOut _)
        simp [htext]
      | false =>
        rcases nextRegion_of_not_isHidden hidden with ho | ⟨hplain, hd⟩
        · rw [nextRegion_delimited ho] at hrest htail
          exact runsOn_delimited ho hrest htail
        · rw [hplain] at hnext htail
          rw [maskedFrom_plain hplain, maskedFrom_plain hnext]
          exact htail.plain hd

theorem tokensFrom_append (hc : isBoundary c = true)
    (h : (regionsFrom before cs).getLast? = some (.plain c)) (ds : List Char) :
    tokensFrom before (cs ++ ds) = tokensFrom before cs ++ tokensFrom (some c) ds :=
  (runsOn_maskedFrom hc h ds).lexChars_append

/-- The tokens of a text behind a boundary follow those before it. -/
theorem sqlTokens_append {s : String} (hc : isBoundary c = true)
    (h : (regions s).getLast? = some (.plain c)) (t : String) :
    sqlTokens (s ++ t) = sqlTokens s ++ sqlTokens t := by
  have hword : (some c).any Text.inWord = none.any Text.inWord := by
    simp only [isBoundary, Bool.and_eq_true, Bool.not_eq_true'] at hc
    exact hc.1.1
  have hfresh : tokensFrom (some c) t.toList = tokensFrom none t.toList := by
    rw [tokensFrom, maskedFrom, regionsFrom_congr t.toList hword]
    rfl
  rw [sqlTokens_eq_tokensFrom, String.toList_append, tokensFrom_append hc h, hfresh,
    ← sqlTokens_eq_tokensFrom, ← sqlTokens_eq_tokensFrom]

end Provenance
