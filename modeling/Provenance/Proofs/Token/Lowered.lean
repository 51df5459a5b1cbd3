import Provenance.Proofs.Text.Lowered
import Provenance.Proofs.Token.Regions

/-!
# Tokens in small letters

A text in small letters has the tokens of the text, in small letters. Each is what it was: a word,
a keyword, a name or a mark.
-/

namespace Provenance

/-! ## Tokens -/

namespace Token

def lowered : Token → Token
  | word w => word (Text.asciiLower w)
  | delimited d => delimited (Text.asciiLower d)
  | mark c => mark c.toLower

variable (t : Token)

@[simp] theorem lowered_text : t.lowered.text = Text.asciiLower t.text := by
  cases t with
  | word w => rfl
  | delimited d => rfl
  | mark c => exact (Text.asciiLower_ofList [c]).symm

@[simp] theorem lowered_isWord : t.lowered.isWord = t.isWord := by cases t <;> rfl

@[simp] theorem lowered_isMark {c : Char} (hlower : c.toLower = c) (hupper : c.toUpper = c) :
    t.lowered.isMark c = t.isMark c := by
  cases t with
  | word w => rfl
  | delimited d => rfl
  | mark d => exact Text.toLower_beq hlower hupper d

@[simp] theorem lowered_keyword? : t.lowered.keyword? = t.keyword? := by
  cases t with
  | word w => simp [lowered, keyword?, Keyword.ofWord?]
  | delimited d => rfl
  | mark c => rfl

@[simp] theorem lowered_is (k : Keyword) : t.lowered.is k = t.is k := by simp [is]

@[simp] theorem lowered_spells (w : String) : t.lowered.spells w = t.spells w := by
  cases t with
  | word v => simp [lowered, spells]
  | delimited d => rfl
  | mark c => rfl

theorem lowered_beginsWith {p : Char → Bool} (hp : ∀ c : Char, p c.toLower = p c) :
    t.lowered.beginsWith p = t.beginsWith p := by
  cases t with
  | word w =>
    simp only [lowered, beginsWith, Text.toList_asciiLower, List.head?_map, Option.any_map, hp]
  | delimited d => rfl
  | mark c => rfl

@[simp] theorem lowered_beginsWith_eq {c : Char} (hlower : c.toLower = c)
    (hupper : c.toUpper = c) : t.lowered.beginsWith (· == c) = t.beginsWith (· == c) :=
  lowered_beginsWith t (Text.toLower_beq hlower hupper)

@[simp] theorem lowered_isVariable : t.lowered.isVariable = t.isVariable := by
  simp [isVariable]

@[simp] theorem lowered_isNumber : t.lowered.isNumber = t.isNumber :=
  lowered_beginsWith t Text.isDigit_toLower

@[simp] theorem lowered_isReserved : t.lowered.isReserved = t.isReserved := by
  cases t with
  | word w => simp [lowered, isReserved, spellsReserved]
  | delimited d => rfl
  | mark c => rfl

@[simp] theorem lowered_isName : t.lowered.isName = t.isName := by simp [isName]

@[simp] theorem lowered_isPlainName : t.lowered.isPlainName = t.isPlainName := by
  simp [isPlainName]

@[simp] theorem lowered_nesting : t.lowered.nesting = t.nesting := by simp [nesting]

end Token

/-! ## Regions -/

def Region.lowered : Region → Region
  | literal cs => literal (cs.map Char.toLower)
  | lineComment cs => lineComment (cs.map Char.toLower)
  | blockComment cs => blockComment (cs.map Char.toLower)
  | delimited cs => delimited (cs.map Char.toLower)
  | plain c => plain c.toLower

@[simp] theorem Region.lowered_text (r : Region) :
    r.lowered.text = r.text.map Char.toLower := by
  cases r <;> rfl

theorem Region.lowered_masked (r : Region) : r.lowered.masked = r.masked.map Char.toLower := by
  have hblank : ∀ c : Char, blankOut c.toLower = (blankOut c).toLower := by
    intro c
    by_cases hbreak : c = '\n' ∨ c = '\r'
    · rcases hbreak with rfl | rfl <;> rfl
    · simp [blankOut, hbreak]
  cases r <;> simp [lowered, masked, hblank]

theorem splitDelimited_lowered {close : Char} (hlower : close.toLower = close)
    (hupper : close.toUpper = close) (cs : List Char) :
    splitDelimited close (cs.map Char.toLower) =
      ((splitDelimited close cs).1.map Char.toLower,
        (splitDelimited close cs).2.map Char.toLower) := by
  have hclose : ∀ c : Char, c.toLower = close ↔ c = close := Text.toLower_eq_iff hlower hupper
  fun_induction splitDelimited close cs with
  | case1 => rfl
  | case2 => rfl
  | case3 rest tail ih => simp [splitDelimited, hlower, ih, tail]
  | case4 d rest hd => simp [splitDelimited, hlower, hclose, hd]
  | case5 c d rest hc tail ih =>
    simp only [List.map_cons] at ih ⊢
    simp [splitDelimited, hclose, hc, ih, tail]

theorem splitLine_lowered (cs : List Char) :
    splitLine (cs.map Char.toLower) =
      ((splitLine cs).1.map Char.toLower, (splitLine cs).2.map Char.toLower) := by
  have hline : inLine ∘ Char.toLower = inLine := by
    funext c
    simp [inLine, bne]
  simp [splitLine, List.takeWhile_map, List.dropWhile_map, hline]

theorem exists_cons_of_map_toLower {c : Char} (hlower : c.toLower = c) (hupper : c.toUpper = c)
    {cs ds : List Char} (h : cs.map Char.toLower = c :: ds) : ∃ es, cs = c :: es := by
  obtain ⟨d, es, rfl, hd, -⟩ := List.map_eq_cons_iff.mp h
  exact ⟨es, by rw [(Text.toLower_eq_iff hlower hupper d).mp hd]⟩

theorem splitBlock_lowered (depth : Nat) (cs : List Char) :
    splitBlock depth (cs.map Char.toLower) =
      ((splitBlock depth cs).1.map Char.toLower, (splitBlock depth cs).2.map Char.toLower) := by
  fun_induction splitBlock depth cs with
  | case1 depth rest tail ih => simp [splitBlock, ih, tail]
  | case2 rest => simp [splitBlock]
  | case3 rest outer tail ih => simp [splitBlock, ih, tail]
  | case4 depth c rest hopen hclose tail ih =>
    rw [List.map_cons, splitBlock, ih]
    · rfl
    · intro rest' hc hrest
      obtain ⟨es, rfl⟩ := exists_cons_of_map_toLower rfl rfl hrest
      exact hopen es ((Text.toLower_eq_iff rfl rfl c).mp hc) rfl
    · intro rest' hc hrest
      obtain ⟨es, rfl⟩ := exists_cons_of_map_toLower rfl rfl hrest
      exact hclose es ((Text.toLower_eq_iff rfl rfl c).mp hc) rfl
  | case5 => rfl

theorem opensRegion_lowered (before : Option Char) (c : Char) (next : Option Char) :
    opensRegion (before.map Char.toLower) c.toLower (next.map Char.toLower) =
      opensRegion before c next := by
  have hletter : (c.toLower == 'N' || c.toLower == 'n') = (c == 'N' || c == 'n') :=
    Text.toLower_congr (f := fun c => c == 'N' || c == 'n') (by decide +kernel) c
  have hnext : ∀ {d : Char}, d.toLower = d → d.toUpper = d →
      (next.map Char.toLower == some d) = (next == some d) := by
    intro d hlower hupper
    cases next with
    | none => rfl
    | some e => simp [hlower, hupper]
  have hbefore : (before.map Char.toLower).any Text.inWord = before.any Text.inWord := by
    cases before <;> simp
  unfold opensRegion
  rw [hletter, hbefore, hnext rfl rfl, hnext rfl rfl, hnext rfl rfl]
  simp

theorem nextRegion_lowered (before : Option Char) (c : Char) (rest : List Char) :
    nextRegion (before.map Char.toLower) c.toLower (rest.map Char.toLower) =
      ((nextRegion before c rest).1.lowered, (nextRegion before c rest).2.map Char.toLower) := by
  by_cases hplain : nextRegion before c rest = (.plain c, rest)
  · rw [hplain]
    rw [nextRegion_eq_plain_iff, ← opensRegion_lowered, ← List.head?_map] at hplain
    exact nextRegion_eq_plain_iff.mpr hplain
  revert hplain
  fun_cases nextRegion before c rest with
  | case1 rest tail => simp [nextRegion, splitDelimited_lowered, tail, Region.lowered]
  | case2 rest tail => simp [nextRegion, splitLine_lowered, tail, Region.lowered]
  | case3 rest tail => simp [nextRegion, splitBlock_lowered, tail, Region.lowered]
  | case4 rest tail => simp [nextRegion, splitDelimited_lowered, tail, Region.lowered]
  | case5 rest tail => simp [nextRegion, splitDelimited_lowered, tail, Region.lowered]
  | case6 c rest _ _ _ hliteral tail =>
    have hbefore : (before.map Char.toLower).any Text.inWord = before.any Text.inWord := by
      cases before <;> simp
    simp only [Bool.and_eq_true, Bool.or_eq_true, decide_eq_true_eq] at hliteral
    rcases hliteral.1 with rfl | rfl <;>
      simp [nextRegion, splitDelimited_lowered, tail, Region.lowered, hbefore, hliteral.2]
  | case7 | case8 => exact fun hplain => absurd rfl hplain

theorem regionsFrom_lowered (before : Option Char) (cs : List Char) :
    regionsFrom (before.map Char.toLower) (cs.map Char.toLower) =
      (regionsFrom before cs).map Region.lowered := by
  fun_induction regionsFrom before cs with
  | case1 => simp [regionsFrom]
  | case2 before c rest ih =>
    rw [List.map_cons, regionsFrom_cons, nextRegion_lowered, Region.lowered_text,
      List.getLast?_map, ih, List.map_cons]

theorem mask_asciiLower (s : String) : mask (Text.asciiLower s) = Text.asciiLower (mask s) := by
  have hregions : regions (Text.asciiLower s) = (regions s).map Region.lowered := by
    rw [regions, Text.toList_asciiLower]
    exact regionsFrom_lowered none s.toList
  rw [mask, mask, hregions, Text.asciiLower_ofList, List.flatMap_map, List.map_flatMap]
  simp only [Region.lowered_masked]

/-! ## Tokens of a text -/

theorem nextToken_lowered (c : Char) (rest : List Char) :
    nextToken c.toLower (rest.map Char.toLower) =
      ((nextToken c rest).1.map Token.lowered, (nextToken c rest).2.map Char.toLower) := by
  have hword : Text.inWord ∘ Char.toLower = Text.inWord := funext Text.inWord_toLower
  have hmark : punctuation.contains c.toLower = punctuation.contains c :=
    Text.toLower_congr (f := punctuation.contains) (by decide +kernel) c
  have hopen : (decide (c.toLower = '[') || decide (c.toLower = '"')) =
      (decide (c = '[') || decide (c = '"')) := by simp
  have hcloser : (if c.toLower = '[' then ']' else '"') = if c = '[' then ']' else '"' := by simp
  have hsplit : splitDelimited (if c = '[' then ']' else '"') (rest.map Char.toLower) =
      ((splitDelimited (if c = '[' then ']' else '"') rest).1.map Char.toLower,
        (splitDelimited (if c = '[' then ']' else '"') rest).2.map Char.toLower) := by
    by_cases hc : c = '['
    · simp only [if_pos hc]
      exact splitDelimited_lowered rfl rfl rest
    · simp only [if_neg hc]
      exact splitDelimited_lowered rfl rfl rest
  unfold nextToken
  rw [Text.isBlank_toLower, hopen, hcloser, hsplit, Text.inWord_toLower, List.takeWhile_map,
    List.dropWhile_map, hword, hmark]
  split
  · rfl
  split
  · simp only [Option.map_some, Token.lowered, Text.asciiLower_ofList, List.map_cons]
  split
  · simp only [Option.map_some, Token.lowered, Text.asciiLower_ofList, List.map_cons]
  split <;> rfl

theorem lexChars_lowered (cs : List Char) :
    lexChars (cs.map Char.toLower) = (lexChars cs).map Token.lowered := by
  fun_induction lexChars cs with
  | case1 => simp [lexChars]
  | case2 c rest ih =>
    rw [List.map_cons, lexChars, nextToken_lowered, ih, List.map_append]
    cases (nextToken c rest).1 <;> rfl

theorem sqlTokens_asciiLower (s : String) :
    sqlTokens (Text.asciiLower s) = (sqlTokens s).map Token.lowered := by
  rw [sqlTokens, mask_asciiLower, lex, Text.toList_asciiLower, lexChars_lowered]
  rfl

end Provenance
