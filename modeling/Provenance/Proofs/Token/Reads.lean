import Provenance.Proofs.Text.Classes
import Provenance.Token.Render

/-!
# Reading a text piece by piece

The tokens of a text are found by masking all of it and cutting up the result. A piece that is
followed by a character which cannot run into it is read by itself, whatever stands around it.
-/

namespace Provenance

/-- A text that follows the character `before`, with literals and comments blanked out. -/
def maskedFrom (before : Option Char) (cs : List Char) : List Char :=
  (regionsFrom before cs).flatMap Region.masked

/-- The tokens of a text that follows the character `before`. -/
def tokensFrom (before : Option Char) (cs : List Char) : List Token :=
  lexChars (maskedFrom before cs)

theorem sqlTokens_eq_tokensFrom (s : String) : sqlTokens s = tokensFrom none s.toList := by
  simp [sqlTokens, lex, mask, regions, tokensFrom, maskedFrom]

/-- A text given by its characters is read from them. A literal is such a text, and its tokens are
computed faster from the characters than from the text that they are packed into. -/
theorem sqlTokens_ofList (cs : List Char) : sqlTokens (String.ofList cs) = tokensFrom none cs := by
  rw [sqlTokens_eq_tokensFrom, String.toList_ofList]

theorem maskedFrom_nil (before : Option Char) : maskedFrom before [] = [] := by
  rw [maskedFrom, regionsFrom]
  rfl

theorem maskedFrom_cons (before : Option Char) (c : Char) (rest : List Char) :
    maskedFrom before (c :: rest) =
      (nextRegion before c rest).1.masked ++
        maskedFrom (nextRegion before c rest).1.text.getLast? (nextRegion before c rest).2 := by
  rw [maskedFrom, regionsFrom, List.flatMap_cons]
  rfl

@[simp] theorem tokensFrom_nil (before : Option Char) : tokensFrom before [] = [] := by
  rw [tokensFrom, maskedFrom_nil, lexChars]

/-! ## Plain characters -/

theorem nextRegion_plain {before : Option Char} {c : Char} {rest : List Char}
    (hquote : c ≠ '\'') (hbracket : c ≠ '[') (hdouble : c ≠ '"')
    (hline : c = '-' → rest.head? ≠ some '-') (hblock : c = '/' → rest.head? ≠ some '*')
    (hliteral : c = 'N' ∨ c = 'n' → rest.head? ≠ some '\'') :
    nextRegion before c rest = (.plain c, rest) := by
  unfold nextRegion
  split
  · exact absurd rfl hquote
  · exact absurd rfl (hline rfl)
  · exact absurd rfl (hblock rfl)
  · exact absurd rfl hbracket
  · exact absurd rfl hdouble
  · rw [if_neg]
    intro h
    simp only [Bool.and_eq_true, Bool.or_eq_true, decide_eq_true_eq] at h
    exact hliteral h.1 rfl
  · rfl

theorem nextRegion_of_class {p : Char → Bool} {before : Option Char} {c : Char}
    {rest : List Char} (hc : p c = true)
    (hopen : ['\'', '[', '"', '-', '/'].any p = false)
    (hliteral : c = 'N' ∨ c = 'n' → rest.head? ≠ some '\'') :
    nextRegion before c rest = (.plain c, rest) := by
  have hne : ∀ d ∈ ['\'', '[', '"', '-', '/'], c ≠ d := by
    rintro d hd rfl
    exact List.any_eq_false.mp hopen c hd hc
  apply nextRegion_plain (hne _ (by simp)) (hne _ (by simp)) (hne _ (by simp)) _ _ hliteral
  · exact fun h => absurd h (hne _ (by simp))
  · exact fun h => absurd h (hne _ (by simp))

theorem maskedFrom_plain {before : Option Char} {c : Char} {rest : List Char}
    (h : nextRegion before c rest = (.plain c, rest)) :
    maskedFrom before (c :: rest) = c :: maskedFrom (some c) rest := by
  rw [maskedFrom_cons, h]
  rfl

theorem head?_maskedFrom {before : Option Char} {cs : List Char} {d : Char}
    (h : (maskedFrom before cs).head? = some d) : cs.head? = some d ∨ d = ' ' := by
  cases cs with
  | nil => simp [maskedFrom_nil] at h
  | cons c rest =>
    rw [maskedFrom_cons] at h
    unfold nextRegion at h
    split at h
    case h_6 =>
      split at h
      · rename_i hn
        simp only [Bool.and_eq_true, Bool.or_eq_true, decide_eq_true_eq] at hn
        rcases hn.1 with rfl | rfl <;>
          simp [Region.masked, Region.blankOut] at h <;> simp [← h]
      · left
        simpa [Region.masked] using h
    all_goals simp [Region.masked, Region.blankOut] at h
    all_goals simp [← h]

/-! ## Words -/

theorem maskedFrom_word {w rest : List Char} (hw : ∀ c ∈ w, Text.inWord c = true)
    (hrest : rest.head? ≠ some '\'') (before : Option Char) :
    maskedFrom before (w ++ rest) = w ++ maskedFrom (w.getLast?.or before) rest := by
  induction w generalizing before with
  | nil => rfl
  | cons c w ih =>
    have hc := hw c (by simp)
    have hplain : nextRegion before c (w ++ rest) = (.plain c, w ++ rest) := by
      apply nextRegion_of_class hc (by decide)
      intro _
      cases w with
      | nil => exact hrest
      | cons d w =>
        intro h
        obtain rfl : d = '\'' := by simpa using h
        exact absurd (hw '\'' (by simp)) (by decide)
    have hlast : (c :: w).getLast?.or before = w.getLast?.or (some c) := by
      rw [← List.singleton_append, List.getLast?_append, Option.or_assoc]
      rfl
    rw [List.cons_append, maskedFrom_plain hplain, ih (fun d hd => hw d (by simp [hd])), hlast]
    rfl

theorem takeWhile_inWord_append {w rest : List Char} (hw : ∀ c ∈ w, Text.inWord c = true)
    (hrest : ∀ c, rest.head? = some c → Text.inWord c = false) :
    (w ++ rest).takeWhile Text.inWord = w := by
  rw [List.takeWhile_append_of_pos hw]
  cases rest with
  | nil => simp
  | cons c rest => simp [hrest c rfl]

theorem dropWhile_inWord_append {w rest : List Char} (hw : ∀ c ∈ w, Text.inWord c = true)
    (hrest : ∀ c, rest.head? = some c → Text.inWord c = false) :
    (w ++ rest).dropWhile Text.inWord = rest := by
  rw [List.dropWhile_append_of_pos hw]
  cases rest with
  | nil => rfl
  | cons c rest => simp [hrest c rfl]

theorem lexChars_word {w rest : List Char} (hne : w ≠ []) (hw : ∀ c ∈ w, Text.inWord c = true)
    (hrest : ∀ c, rest.head? = some c → Text.inWord c = false) :
    lexChars (w ++ rest) = .word (String.ofList w) :: lexChars rest := by
  cases w with
  | nil => exact absurd rfl hne
  | cons c w =>
    have hc := hw c (by simp)
    have hw' : ∀ d ∈ w, Text.inWord d = true := fun d hd => hw d (by simp [hd])
    have hopen : ¬ (c = '[' ∨ c = '"') := by
      rintro (rfl | rfl) <;> exact absurd hc (by decide)
    rw [List.cons_append, lexChars]
    simp [nextToken, Text.isBlank_of_inWord hc, hopen, hc, takeWhile_inWord_append hw' hrest,
      dropWhile_inWord_append hw' hrest]

theorem tokensFrom_word {w rest : List Char} (hne : w ≠ [])
    (hw : ∀ c ∈ w, Text.inWord c = true)
    (hrest : ∀ c, rest.head? = some c → Text.inWord c = false ∧ c ≠ '\'')
    (before : Option Char) :
    tokensFrom before (w ++ rest) =
      .word (String.ofList w) :: tokensFrom (w.getLast?.or before) rest := by
  have hquote : rest.head? ≠ some '\'' := fun h => (hrest _ h).2 rfl
  rw [tokensFrom, maskedFrom_word hw hquote, lexChars_word hne hw]
  · rfl
  · intro c hc
    rcases head?_maskedFrom hc with h | rfl
    · exact (hrest c h).1
    · decide

/-! ## Delimited names -/

/-- Whether a text ends with the first character that closes it. A closing character written
twice closes nothing. -/
def closes (close : Char) : List Char → Bool
  | [] => false
  | [c] => c == close
  | c :: d :: rest => if c = close then d = close && closes close rest else closes close (d :: rest)

theorem splitDelimited_of_closes {close : Char} {body rest : List Char}
    (hbody : closes close body = true) (hrest : rest.head? ≠ some close) :
    splitDelimited close (body ++ rest) = (body, rest) := by
  fun_induction closes close body with
  | case1 => simp at hbody
  | case2 c =>
    obtain rfl : c = close := by simpa using hbody
    cases rest with
    | nil => simp [splitDelimited]
    | cons d rest =>
      have hd : d ≠ c := fun h => hrest (by simp [h])
      simp [splitDelimited, hd]
  | case3 d rest' ih =>
    simp only [Bool.and_eq_true, decide_eq_true_eq] at hbody
    obtain ⟨rfl, hbody⟩ := hbody
    simp [splitDelimited, ih hbody]
  | case4 c d rest' hc ih =>
    have htail := ih hbody
    rw [List.cons_append] at htail
    simp [splitDelimited, hc, htail]

def closer (opening : Char) : Char := if opening = '[' then ']' else '"'

theorem nextRegion_delimited {before : Option Char} {o : Char} (ho : o = '[' ∨ o = '"')
    (rest : List Char) :
    nextRegion before o rest =
      (.delimited (o :: (splitDelimited (closer o) rest).1),
        (splitDelimited (closer o) rest).2) := by
  rcases ho with rfl | rfl <;> rfl

theorem lexChars_delimited {o : Char} (ho : o = '[' ∨ o = '"') (rest : List Char) :
    lexChars (o :: rest) =
      .delimited (String.ofList (o :: (splitDelimited (closer o) rest).1)) ::
        lexChars (splitDelimited (closer o) rest).2 := by
  have hblank : Text.isBlank o = false := by rcases ho with rfl | rfl <;> decide
  rw [lexChars]
  simp [nextToken, hblank, ho, closer]

theorem tokensFrom_delimited {o : Char} {body rest : List Char} (ho : o = '[' ∨ o = '"')
    (hbody : closes (closer o) body = true) (hrest : rest.head? ≠ some (closer o))
    (before : Option Char) :
    tokensFrom before (o :: body ++ rest) =
      .delimited (String.ofList (o :: body)) :: tokensFrom (o :: body).getLast? rest := by
  have hmasked : (maskedFrom (o :: body).getLast? rest).head? ≠ some (closer o) := by
    intro h
    rcases head?_maskedFrom h with h | h
    · exact hrest h
    · rcases ho with rfl | rfl <;> exact absurd h (by decide)
  rw [tokensFrom, List.cons_append, maskedFrom_cons, nextRegion_delimited ho,
    splitDelimited_of_closes hbody hrest]
  change lexChars (o :: (body ++ maskedFrom (o :: body).getLast? rest)) = _
  rw [lexChars_delimited ho, splitDelimited_of_closes hbody hmasked]
  rfl

/-! ## Marks and blanks -/

theorem lexChars_mark {c : Char} (hc : c ∈ punctuation) (rest : List Char) :
    lexChars (c :: rest) = .mark c :: lexChars rest := by
  have hword := Text.inWord_of_mem_punctuation hc
  have hopen : ¬ (c = '[' ∨ c = '"') := by
    rintro (rfl | rfl) <;> exact absurd hc (by decide)
  rw [lexChars]
  simp [nextToken, Text.isBlank_of_mem_punctuation hc, hopen, hword, hc]

theorem lexChars_blank {c : Char} (hc : Text.isBlank c = true) (rest : List Char) :
    lexChars (c :: rest) = lexChars rest := by
  rw [lexChars]
  simp [nextToken, hc]

theorem tokensFrom_mark {c : Char} {rest : List Char} (hc : c ∈ punctuation)
    (hline : c = '-' → rest.head? ≠ some '-') (hblock : c = '/' → rest.head? ≠ some '*')
    (before : Option Char) :
    tokensFrom before (c :: rest) = .mark c :: tokensFrom (some c) rest := by
  have hword := Text.inWord_of_mem_punctuation hc
  have hplain : nextRegion before c rest = (.plain c, rest) := by
    apply nextRegion_plain _ _ _ hline hblock
    · rintro (rfl | rfl) <;> exact absurd hword (by decide)
    all_goals
      rintro rfl
      exact absurd hc (by decide)
  rw [tokensFrom, maskedFrom_plain hplain, lexChars_mark hc, tokensFrom]

theorem tokensFrom_blank {c : Char} (hc : Text.isBlank c = true) (before : Option Char)
    (rest : List Char) : tokensFrom before (c :: rest) = tokensFrom (some c) rest := by
  have hword := Text.inWord_of_isBlank hc
  have hplain : nextRegion before c rest = (.plain c, rest) := by
    apply nextRegion_of_class hc (by decide)
    rintro (rfl | rfl) <;> exact absurd hc (by decide)
  rw [tokensFrom, maskedFrom_plain hplain, lexChars_blank hc, tokensFrom]

/-! ## Whole tokens -/

namespace Token

/-- Whether a token is no delimited name or has the character that closes it. -/
def isClosed : Token → Bool
  | delimited d =>
    match d.toList with
    | o :: body => closes (closer o) body
    | [] => false
  | _ => true

/-- Whether a token can be written so that it is read again. -/
def isWhole : Token → Bool
  | word w => !w.toList.isEmpty && w.toList.all Text.inWord
  | delimited d =>
    match d.toList with
    | o :: body => (o == '[' || o == '"') && closes (closer o) body
    | [] => false
  | mark c => punctuation.contains c

/-- Whether a character can stand right after a token without running into it. -/
def admits (c : Char) : Token → Bool
  | word _ => !Text.inWord c && c != '\''
  | delimited d => d.toList.head?.all fun o => c != closer o
  | mark '-' => c != '-'
  | mark '/' => c != '*'
  | mark _ => true

end Token

theorem lexChars_token {t : Token} {rest : List Char} (ht : t.isWhole = true)
    (hrest : ∀ c, rest.head? = some c → t.admits c = true) :
    lexChars (t.text.toList ++ rest) = t :: lexChars rest := by
  cases t with
  | word w =>
    simp only [Token.isWhole, Bool.and_eq_true, Bool.not_eq_true', List.isEmpty_eq_false_iff,
      List.all_eq_true] at ht
    have hnext : ∀ c, rest.head? = some c → Text.inWord c = false := by
      intro c hc
      have hadmits : Text.inWord c = false ∧ c ≠ '\'' := by
        simpa [Token.admits] using hrest c hc
      exact hadmits.1
    have hlex := lexChars_word ht.1 ht.2 hnext
    rwa [String.ofList_toList] at hlex
  | delimited d =>
    cases hd : d.toList with
    | nil => simp [Token.isWhole, hd] at ht
    | cons o body =>
      simp only [Token.isWhole, hd, Bool.and_eq_true, Bool.or_eq_true, beq_iff_eq] at ht
      have hnext : rest.head? ≠ some (closer o) := by
        intro h
        simpa [Token.admits, hd] using hrest _ h
      have hlex := lexChars_delimited ht.1 (body ++ rest)
      rw [splitDelimited_of_closes ht.2 hnext, ← hd, String.ofList_toList] at hlex
      rw [Token.text, hd]
      exact hlex
  | mark c =>
    have hc : c ∈ punctuation := by simpa [Token.isWhole] using ht
    have htext : (Token.mark c).text.toList = [c] := String.toList_singleton c
    rw [htext]
    exact lexChars_mark hc rest

theorem isWhole_of_nextToken {c : Char} {rest : List Char} {t : Token}
    (h : (nextToken c rest).1 = some t) (hclosed : t.isClosed = true) : t.isWhole = true := by
  unfold nextToken at h
  split at h
  · simp at h
  split at h
  · rename_i ho
    obtain rfl := Option.some.inj h
    simp only [Token.isClosed, String.toList_ofList] at hclosed
    simp only [Token.isWhole, String.toList_ofList, Bool.and_eq_true]
    exact ⟨by simpa using ho, hclosed⟩
  split at h
  · rename_i hword
    obtain rfl := Option.some.inj h
    simp only [Token.isWhole, String.toList_ofList, List.isEmpty_cons, Bool.not_false,
      Bool.true_and, List.all_eq_true, List.mem_cons]
    rintro d (rfl | hd)
    · exact hword
    · exact List.all_eq_true.mp List.all_takeWhile d hd
  split at h
  · rename_i hmark
    obtain rfl := Option.some.inj h
    exact hmark
  · simp at h

theorem isWhole_of_mem_lexChars {cs : List Char} {t : Token} (h : t ∈ lexChars cs)
    (hclosed : t.isClosed = true) : t.isWhole = true := by
  fun_induction lexChars cs with
  | case1 => simp at h
  | case2 c rest ih =>
    rcases List.mem_append.mp h with h | h
    · exact isWhole_of_nextToken (Option.mem_toList.mp h) hclosed
    · exact ih h

/-- Every token of SQL text is whole unless it is a name that is never closed. -/
theorem isWhole_of_mem_sqlTokens {sql : String} {t : Token} (h : t ∈ sqlTokens sql)
    (hclosed : t.isClosed = true) : t.isWhole = true :=
  isWhole_of_mem_lexChars h hclosed

/-! ## Pieces of text -/

/-- In front of `rest` a text is read as the tokens `ts`, whatever stands before it. -/
def Reads (text : List Char) (ts : List Token) (rest : List Char) : Prop :=
  ∀ before, tokensFrom before (text ++ rest) = ts ++ tokensFrom (text.getLast?.or before) rest

namespace Reads

variable {a b rest : List Char} {ts us : List Token}

theorem nil : Reads [] [] rest := fun _ => rfl

theorem append (ha : Reads a ts (b ++ rest)) (hb : Reads b us rest) :
    Reads (a ++ b) (ts ++ us) rest := by
  intro before
  rw [List.append_assoc, ha, hb, List.getLast?_append, Option.or_assoc, List.append_assoc]

theorem sqlTokens_eq (h : Reads a ts []) : sqlTokens (String.ofList a) = ts := by
  have htokens := h none
  rw [List.append_nil, tokensFrom_nil, List.append_nil] at htokens
  rw [sqlTokens_eq_tokensFrom, String.toList_ofList, htokens]

theorem concat {s t : String} (hs : Reads s.toList ts (t.toList ++ rest))
    (ht : Reads t.toList us rest) : Reads (s ++ t).toList (ts ++ us) rest := by
  rw [String.toList_append]
  exact hs.append ht

theorem sqlTokens_toList_eq {s : String} (h : Reads s.toList ts []) : sqlTokens s = ts := by
  rw [← String.ofList_toList (s := s)]
  exact h.sqlTokens_eq

theorem blanks {cs : List Char} (h : cs.all Text.isBlank = true) : Reads cs [] rest := by
  induction cs with
  | nil => exact nil
  | cons c cs ih =>
    obtain ⟨hblank, htail⟩ := Bool.and_eq_true_iff.mp h
    have hc : Reads [c] [] (cs ++ rest) := fun before => tokensFrom_blank hblank before _
    exact hc.append (ih htail)

theorem token {t : Token} (ht : t.isWhole = true)
    (hrest : ∀ c, rest.head? = some c → t.admits c = true) : Reads t.text.toList [t] rest := by
  intro before
  cases t with
  | word w =>
    simp only [Token.isWhole, Bool.and_eq_true, Bool.not_eq_true', List.isEmpty_eq_false_iff,
      List.all_eq_true] at ht
    have hnext : ∀ c, rest.head? = some c → Text.inWord c = false ∧ c ≠ '\'' := by
      intro c hc
      simpa [Token.admits] using hrest c hc
    have htokens := tokensFrom_word ht.1 ht.2 hnext before
    rwa [String.ofList_toList] at htokens
  | delimited d =>
    cases hd : d.toList with
    | nil => simp [Token.isWhole, hd] at ht
    | cons o body =>
      simp only [Token.isWhole, hd, Bool.and_eq_true, Bool.or_eq_true, beq_iff_eq] at ht
      have hnext : rest.head? ≠ some (closer o) := by
        intro h
        simpa [Token.admits, hd] using hrest _ h
      have htokens := tokensFrom_delimited ht.1 ht.2 hnext before
      rw [← hd, String.ofList_toList] at htokens
      simp only [Token.text]
      rw [htokens, hd]
      rfl
  | mark c =>
    have hc : c ∈ punctuation := by simpa [Token.isWhole] using ht
    have hline : c = '-' → rest.head? ≠ some '-' := by
      rintro rfl h
      simpa [Token.admits] using hrest _ h
    have hblock : c = '/' → rest.head? ≠ some '*' := by
      rintro rfl h
      simpa [Token.admits] using hrest _ h
    have htext : (Token.mark c).text.toList = [c] := String.toList_singleton c
    rw [htext]
    exact tokensFrom_mark hc hline hblock before

end Reads

end Provenance
