import Provenance.Definition.Object
import Provenance.Proofs.Token.Regions

/-!
# Literals and comments are invisible

Blanks between tokens may be more or fewer, so a text has the same tokens when a single space
stands for each of its literals and comments. What they contain is not read.
-/

namespace Provenance

/-- The characters of a text with a single space for each literal and comment. -/
def Region.collapsed (r : Region) : List Char := if r.isHidden then [' '] else r.text

/-! ## Texts that go on alike -/

/-- Whether two texts are cut into the same tokens, also after a word that may run into them. -/
structure GoesOnAs (cs ds : List Char) : Prop where
  word : cs.takeWhile Text.inWord = ds.takeWhile Text.inWord
  rest : lexChars (cs.dropWhile Text.inWord) = lexChars (ds.dropWhile Text.inWord)

theorem not_inWord_dropWhile (cs : List Char) {c : Char}
    (h : (cs.dropWhile Text.inWord).head? = some c) : Text.inWord c = false := by
  have hnot := List.head?_dropWhile_not Text.inWord cs
  rw [h] at hnot
  simpa using hnot

theorem lexChars_eq (cs : List Char) (h : cs.takeWhile Text.inWord ≠ []) :
    lexChars cs = .word (String.ofList (cs.takeWhile Text.inWord)) ::
      lexChars (cs.dropWhile Text.inWord) := by
  have hword := lexChars_word h (List.all_eq_true.mp List.all_takeWhile)
    fun c hc => not_inWord_dropWhile cs hc
  rwa [List.takeWhile_append_dropWhile] at hword

namespace GoesOnAs

variable {cs ds : List Char}

theorem lexChars_eq (h : GoesOnAs cs ds) : lexChars cs = lexChars ds := by
  by_cases hword : cs.takeWhile Text.inWord = []
  · have hcs := List.takeWhile_append_dropWhile (p := Text.inWord) (l := cs)
    have hds := List.takeWhile_append_dropWhile (p := Text.inWord) (l := ds)
    rw [hword, List.nil_append] at hcs
    rw [← h.word, hword, List.nil_append] at hds
    rw [← hcs, ← hds, h.rest]
  · rw [Provenance.lexChars_eq cs hword, Provenance.lexChars_eq ds (h.word ▸ hword), h.word, h.rest]

theorem of_lexChars (hcs : ∀ c, cs.head? = some c → Text.inWord c = false)
    (hds : ∀ c, ds.head? = some c → Text.inWord c = false)
    (h : lexChars cs = lexChars ds) : GoesOnAs cs ds := by
  have hword : ∀ {es : List Char}, (∀ c, es.head? = some c → Text.inWord c = false) →
      es.takeWhile Text.inWord = [] ∧ es.dropWhile Text.inWord = es := by
    intro es hes
    cases es with
    | nil => simp
    | cons c es => simp [hes c rfl]
  constructor
  · rw [(hword hcs).1, (hword hds).1]
  · rw [(hword hcs).2, (hword hds).2, h]

theorem plain (h : GoesOnAs cs ds) {c : Char} (hc : c ≠ '[' ∧ c ≠ '"') :
    GoesOnAs (c :: cs) (c :: ds) := by
  by_cases hword : Text.inWord c = true
  · constructor
    · simp [hword, h.word]
    · simp [hword, h.rest]
  · apply of_lexChars (by simpa using hword) (by simpa using hword)
    have hopen : ¬ (c = '[' ∨ c = '"') := not_or.mpr hc
    have hnext : ∀ es, nextToken c es = ((nextToken c []).1, es) := by
      intro es
      simp only [nextToken, Bool.or_eq_true, decide_eq_true_eq, if_neg hopen, if_neg hword]
      split
      · rfl
      · split <;> rfl
    rw [lexChars, lexChars, hnext cs, hnext ds, h.lexChars_eq]

theorem delimited (h : GoesOnAs cs ds) {o : Char} (ho : o = '[' ∨ o = '"') {body : List Char}
    (hcs : splitDelimited (closer o) (body ++ cs) = (body, cs))
    (hds : splitDelimited (closer o) (body ++ ds) = (body, ds)) :
    GoesOnAs (o :: (body ++ cs)) (o :: (body ++ ds)) := by
  have hopen : Text.inWord o = false := by rcases ho with rfl | rfl <;> decide
  apply of_lexChars (by simpa using hopen) (by simpa using hopen)
  rw [lexChars_delimited ho, lexChars_delimited ho, hcs, hds, h.lexChars_eq]

theorem lexChars_blanks {blanks : List Char} (hblanks : blanks.all Text.isBlank = true)
    (cs : List Char) : lexChars (blanks ++ cs) = lexChars cs := by
  induction blanks with
  | nil => rfl
  | cons b blanks ih =>
    obtain ⟨hb, htail⟩ := Bool.and_eq_true_iff.mp hblanks
    rw [List.cons_append, lexChars]
    simp [nextToken, hb, ih htail]

theorem blanks (h : GoesOnAs cs ds) {a b : List Char} (ha : a.all Text.isBlank = true)
    (hb : b.all Text.isBlank = true) (hane : a ≠ []) (hbne : b ≠ []) :
    GoesOnAs (a ++ cs) (b ++ ds) := by
  have hword : ∀ {es fs : List Char}, es.all Text.isBlank = true → es ≠ [] →
      ∀ c, (es ++ fs).head? = some c → Text.inWord c = false := by
    intro es fs hes hne c hc
    cases es with
    | nil => exact absurd rfl hne
    | cons e es =>
      obtain rfl : e = c := by simpa using hc
      exact Text.inWord_of_isBlank (Bool.and_eq_true_iff.mp hes).1
  apply of_lexChars (hword ha hane) (hword hb hbne)
  rw [lexChars_blanks ha, lexChars_blanks hb, h.lexChars_eq]

end GoesOnAs

/-! ## Collapsed texts -/

/-- A text that follows the character `before`, with a space for each literal and comment. -/
def collapsedFrom (before : Option Char) (cs : List Char) : List Char :=
  (regionsFrom before cs).flatMap Region.collapsed

theorem collapsedFrom_cons (before : Option Char) (c : Char) (rest : List Char) :
    collapsedFrom before (c :: rest) = (nextRegion before c rest).1.collapsed ++
      collapsedFrom (nextRegion before c rest).1.text.getLast? (nextRegion before c rest).2 := by
  rw [collapsedFrom, regionsFrom_cons, List.flatMap_cons]
  rfl

theorem masked_of_isHidden {r : Region} (h : r.isHidden = true) :
    r.masked = r.text.map Region.blankOut := by
  cases r <;> simp_all [Region.isHidden, Region.masked, Region.text]

theorem masked_of_not_isHidden {r : Region} (h : r.isHidden = false) : r.masked = r.text := by
  cases r <;> simp_all [Region.isHidden, Region.masked, Region.text]

theorem nextRegion_of_not_isHidden {before : Option Char} {c : Char} {rest : List Char}
    (h : (nextRegion before c rest).1.isHidden = false) :
    (c = '[' ∨ c = '"') ∨ nextRegion before c rest = (.plain c, rest) ∧ c ≠ '[' ∧ c ≠ '"' := by
  revert h
  fun_cases nextRegion before c rest <;> simp_all [Region.isHidden]

theorem head?_collapsedFrom {before : Option Char} {cs : List Char} {d : Char}
    (h : (collapsedFrom before cs).head? = some d) : cs.head? = some d ∨ d = ' ' := by
  cases cs with
  | nil => simp [collapsedFrom, regionsFrom] at h
  | cons c rest =>
    obtain ⟨tail, htext⟩ := text_nextRegion before c rest
    rw [collapsedFrom_cons, Region.collapsed] at h
    split at h
    · right
      simpa using h.symm
    · left
      simpa [htext] using h

theorem isBlank_blankOut (cs : List Char) : (cs.map Region.blankOut).all Text.isBlank = true := by
  rw [List.all_map, List.all_eq_true]
  intro c _
  unfold Function.comp Region.blankOut
  split
  · rename_i hbreak
    simp only [Bool.or_eq_true, beq_iff_eq] at hbreak
    rcases hbreak with rfl | rfl <;> decide
  · decide

theorem tokensFrom_of_isHidden {before : Option Char} {c : Char} {rest : List Char}
    (h : (nextRegion before c rest).1.isHidden = true) :
    tokensFrom before (c :: rest) =
      tokensFrom (nextRegion before c rest).1.text.getLast? (nextRegion before c rest).2 := by
  rw [tokensFrom, maskedFrom_cons, masked_of_isHidden h,
    GoesOnAs.lexChars_blanks (isBlank_blankOut _)]
  rfl

/-- A delimited name ends where it does as long as no closing character comes after it. -/
theorem goesOnAs_delimited {o : Char} (ho : o = '[' ∨ o = '"') {rest cs ds : List Char}
    (h : GoesOnAs cs ds)
    (hcs : ∀ d, cs.head? = some d → (splitDelimited (closer o) rest).2.head? = some d ∨ d = ' ')
    (hds : ∀ d, ds.head? = some d → (splitDelimited (closer o) rest).2.head? = some d ∨ d = ' ')
    (hnil : (splitDelimited (closer o) rest).2 = [] → cs = ds) :
    GoesOnAs (o :: ((splitDelimited (closer o) rest).1 ++ cs))
      (o :: ((splitDelimited (closer o) rest).1 ++ ds)) := by
  by_cases hrest : (splitDelimited (closer o) rest).2 = []
  · rw [hnil hrest]
    exact ⟨rfl, rfl⟩
  obtain ⟨hcloses, hhead⟩ := closes_splitDelimited hrest
  have hspace : closer o ≠ ' ' := by rcases ho with rfl | rfl <;> decide
  have hsplit : ∀ {es : List Char},
      (∀ d, es.head? = some d → (splitDelimited (closer o) rest).2.head? = some d ∨ d = ' ') →
        splitDelimited (closer o) ((splitDelimited (closer o) rest).1 ++ es) =
          ((splitDelimited (closer o) rest).1, es) := by
    intro es hes
    apply splitDelimited_of_closes hcloses
    intro hclose
    rcases hes _ hclose with h | h
    · exact hhead h
    · exact hspace h
  exact h.delimited ho (hsplit hcs) (hsplit hds)

/-- A masked text and a collapsed one have the same tokens. -/
theorem goesOnAs_maskedFrom (before : Option Char) (cs : List Char) :
    GoesOnAs (maskedFrom before cs) (collapsedFrom before cs) := by
  fun_induction regionsFrom before cs with
  | case1 before =>
    rw [maskedFrom_nil, collapsedFrom, regionsFrom]
    exact ⟨rfl, rfl⟩
  | case2 before c rest ih =>
    obtain ⟨tail, htext⟩ := text_nextRegion before c rest
    rw [maskedFrom_cons, collapsedFrom_cons]
    cases hidden : (nextRegion before c rest).1.isHidden with
    | true =>
      rw [masked_of_isHidden hidden, Region.collapsed, if_pos hidden]
      apply ih.blanks (isBlank_blankOut _) (by decide) _ (by simp)
      simp [htext]
    | false =>
      rw [masked_of_not_isHidden hidden, Region.collapsed, hidden]
      rcases nextRegion_of_not_isHidden hidden with ho | ⟨hplain, hc⟩
      · rw [nextRegion_delimited ho] at ih ⊢
        apply goesOnAs_delimited ho ih
        · exact fun d hd => head?_maskedFrom hd
        · exact fun d hd => head?_collapsedFrom hd
        · intro hrest
          simp only
          rw [hrest, maskedFrom_nil, collapsedFrom, regionsFrom]
          rfl
      · rw [hplain] at ih ⊢
        exact ih.plain hc

theorem sqlTokens_eq_collapsed (s : String) :
    sqlTokens s = lexChars ((regions s).flatMap Region.collapsed) := by
  rw [sqlTokens_eq_tokensFrom]
  exact (goesOnAs_maskedFrom none s.toList).lexChars_eq

/-! ## Readers -/

/-- Whether no reader tells two texts apart. -/
structure ReadAlike (s t : String) : Prop where
  tokens : sqlTokens s = sqlTokens t
  header : Header.parse? s = Header.parse? t
  view : ∀ index defaultSchema known,
    readView index defaultSchema known s = readView index defaultSchema known t
  signature : Signature.parse s = Signature.parse t
  returnType : returnType? s = returnType? t
  usage : ∀ index defaultSchema,
    routineUsage index defaultSchema s = routineUsage index defaultSchema t
  object : ∀ index defaultSchema,
    readObject? index defaultSchema s = readObject? index defaultSchema t

theorem readAlike_of_sqlTokens {s t : String} (h : sqlTokens s = sqlTokens t) : ReadAlike s t := by
  have hheader : Header.parse? s = Header.parse? t := by simp only [Header.parse?, h]
  have hview : ∀ index defaultSchema known,
      readView index defaultSchema known s = readView index defaultSchema known t := by
    intro index defaultSchema known
    simp only [readView, h]
  have hsignature : Signature.parse s = Signature.parse t := by simp only [Signature.parse, h]
  have hreturn : returnType? s = returnType? t := by simp only [returnType?, h]
  have husage : ∀ index defaultSchema,
      routineUsage index defaultSchema s = routineUsage index defaultSchema t := by
    intro index defaultSchema
    simp only [routineUsage, h]
  refine ⟨h, hheader, hview, hsignature, hreturn, husage, ?_⟩
  intro index defaultSchema
  simp only [readObject?, hheader, hview, hsignature, hreturn, husage]

/-- A literal or comment may be replaced by a space, or by any other literal or comment, and the
text is read as before. -/
theorem readAlike_of_isHidden {s : String} {front back : List Region} {r : Region}
    (hregions : regions s = front ++ r :: back) (hr : r.isHidden = true) :
    s.toList = textOf front ++ r.text ++ textOf back ∧
      ReadAlike s (String.ofList (textOf front ++ ' ' :: textOf back)) ∧
      ∀ (t : String) (other : Region), other.isHidden = true →
        regions t = front ++ other :: back → ReadAlike s t := by
  have hcollapsed : ∀ other : Region, other.collapsed = [' '] →
      (front ++ other :: back).flatMap Region.collapsed =
        (front ++ r :: back).flatMap Region.collapsed := by
    intro other hother
    have hspace : r.collapsed = [' '] := if_pos hr
    simp only [List.flatMap_append, List.flatMap_cons, hother, hspace]
  refine ⟨?_, ?_, ?_⟩
  · rw [← textOf_regionsFrom none s.toList, show regionsFrom none s.toList = regions s from rfl,
      hregions]
    simp [textOf]
  · apply readAlike_of_sqlTokens
    have hreplaced : regions (String.ofList (textOf front ++ ' ' :: textOf back)) =
        front ++ .plain ' ' :: back := by
      rw [regions, String.toList_ofList]
      exact regionsFrom_replace hregions hr
    rw [sqlTokens_eq_collapsed, sqlTokens_eq_collapsed, hregions, hreplaced,
      hcollapsed (.plain ' ') rfl]
  · intro t other hother ht
    apply readAlike_of_sqlTokens
    rw [sqlTokens_eq_collapsed, sqlTokens_eq_collapsed, hregions, ht,
      hcollapsed other (if_pos hother)]

/-- A literal between a delimited name and a line comment, each with a quote in it. -/
theorem readAlike_of_isHidden_literal :
    let s := "SELECT [a'b],N'it''s, FROM u'--N'\nAS c FROM t"
    let front := "SELECT ".toList.map Region.plain ++ [.delimited "[a'b]".toList, .plain ',']
    let r := Region.literal "N'it''s, FROM u'".toList
    let back := Region.lineComment "--N'".toList :: "\nAS c FROM t".toList.map Region.plain
    regions s = front ++ r :: back ∧ r.isHidden = true ∧
      ReadAlike s "SELECT [a'b], --N'\nAS c FROM t" := by
  intro s front r back
  have hregions : regions s = front ++ r :: back := by decide +kernel
  have hreplaced : String.ofList (textOf front ++ ' ' :: textOf back) =
      "SELECT [a'b], --N'\nAS c FROM t" := by decide +kernel
  have halike := (readAlike_of_isHidden hregions rfl).2.1
  exact ⟨hregions, rfl, hreplaced ▸ halike⟩

end Provenance
