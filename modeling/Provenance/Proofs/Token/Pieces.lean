import Mathlib.Data.List.Chain
import Provenance.Proofs.Token.Hidden

/-!
# Texts in pieces

A text is cut without a rest into its tokens, its literals and comments, and single characters
that belong to no token. So tokens are slices of the text itself, although they are read from the
masked one.
-/

namespace Provenance

/-! ## Pieces -/

inductive Piece where
  | token (t : Token)
  /-- A string literal or a comment. -/
  | hidden (r : Region)
  /-- A character that is not read. -/
  | skipped (c : Char)
  deriving DecidableEq, Repr

namespace Piece

def text : Piece → List Char
  | token t => t.text.toList
  | hidden r => r.text
  | skipped c => [c]

def regions : Piece → List Region
  | token (.word w) => w.toList.map .plain
  | token (.delimited d) => [.delimited d.toList]
  | token (.mark c) => [.plain c]
  | hidden r => [r]
  | skipped c => [.plain c]

def token? : Piece → Option Token
  | token t => some t
  | _ => none

def isWord : Piece → Bool
  | token (.word _) => true
  | _ => false

/-- What is hidden is a literal or comment. What is skipped is white space or belongs to no
token. -/
def IsProper : Piece → Prop
  | token _ => True
  | hidden r => r.isHidden = true
  | skipped c => Text.isBlank c = true ∨
      Text.inWord c = false ∧ c ∉ punctuation ∧ c ≠ '[' ∧ c ≠ '"'

theorem textOf_regions (p : Piece) : textOf p.regions = p.text := by
  match p with
  | token (.word w) => simp [regions, text, textOf, Region.text, Token.text, List.flatMap_map]
  | token (.delimited d) => simp [regions, text, textOf, Region.text, Token.text]
  | token (.mark c) => simp [regions, text, textOf, Region.text, Token.text]
  | hidden r => simp [regions, text, textOf]
  | skipped c => simp [regions, text, textOf, Region.text]

end Piece

def beginsWithWord (ps : List Piece) : Bool := ps.head?.any Piece.isWord

theorem eq_cons_of_beginsWithWord {ps : List Piece} (h : beginsWithWord ps = true) :
    ∃ w tail, ps = .token (.word w) :: tail := by
  match ps with
  | .token (.word w) :: tail => exact ⟨w, tail, rfl⟩
  | [] | .token (.delimited _) :: _ | .token (.mark _) :: _ | .hidden _ :: _ | .skipped _ :: _ =>
    exact absurd h (by simp [beginsWithWord, Piece.isWord])

/-- Whether pieces make up a text that follows the character `before`. Two words never touch. -/
structure IsCut (before : Option Char) (cs : List Char) (ps : List Piece) : Prop where
  regions : ps.flatMap Piece.regions = regionsFrom before cs
  tokens : ps.filterMap Piece.token? = tokensFrom before cs
  proper : ∀ p ∈ ps, p.IsProper
  words : ps.IsChain fun p q => (p.isWord && q.isWord) = false

theorem tokensFrom_opening {o : Char} (ho : o = '[' ∨ o = '"') (before : Option Char)
    (rest : List Char) :
    tokensFrom before (o :: rest) =
      .delimited (String.ofList (o :: (splitDelimited (closer o) rest).1)) ::
        tokensFrom (o :: (splitDelimited (closer o) rest).1).getLast?
          (splitDelimited (closer o) rest).2 := by
  have hwhole := splitDelimited_append (closer o) rest
  by_cases hrest : (splitDelimited (closer o) rest).2 = []
  · rw [hrest, List.append_nil] at hwhole
    rw [tokensFrom, maskedFrom_cons, nextRegion_delimited ho, hrest, maskedFrom_nil]
    simp only [Region.masked, List.append_nil]
    rw [hwhole, lexChars_delimited ho, hwhole, hrest, tokensFrom_nil, lexChars]
  · obtain ⟨hcloses, hhead⟩ := closes_splitDelimited hrest
    have hclosed := tokensFrom_delimited ho hcloses hhead before
    rwa [List.cons_append, hwhole] at hclosed

namespace IsCut

variable {before : Option Char} {cs : List Char} {ps : List Piece}

theorem text (h : IsCut before cs ps) : ps.flatMap Piece.text = cs := by
  have htext : ps.flatMap Piece.text = textOf (ps.flatMap Piece.regions) := by
    rw [textOf, List.flatMap_assoc]
    exact congrArg (ps.flatMap ·) (funext fun p => (Piece.textOf_regions p).symm)
  rw [htext, h.regions, textOf_regionsFrom]

/-! ### One more piece -/

theorem cons {c : Char} {rest : List Char} {p : Piece}
    (h : IsCut (nextRegion before c rest).1.text.getLast? (nextRegion before c rest).2 ps)
    (hregion : p.regions = [(nextRegion before c rest).1])
    (htokens : tokensFrom before (c :: rest) = p.token?.toList ++
      tokensFrom (nextRegion before c rest).1.text.getLast? (nextRegion before c rest).2)
    (hproper : p.IsProper) (hwords : (p.isWord && beginsWithWord ps) = false) :
    IsCut before (c :: rest) (p :: ps) where
  regions := by
    rw [List.flatMap_cons, hregion, h.regions, regionsFrom_cons]
    rfl
  tokens := by
    rw [htokens, ← h.tokens]
    cases htoken : p.token? <;> simp [htoken]
  proper := by
    intro q hq
    rcases List.mem_cons.mp hq with rfl | hq
    · exact hproper
    · exact h.proper q hq
  words := by
    apply h.words.cons
    intro q hq
    rw [beginsWithWord, Option.mem_def.mp hq] at hwords
    exact hwords

theorem hidden {c : Char} {rest : List Char}
    (h : IsCut (nextRegion before c rest).1.text.getLast? (nextRegion before c rest).2 ps)
    (hr : (nextRegion before c rest).1.isHidden = true) :
    IsCut before (c :: rest) (.hidden (nextRegion before c rest).1 :: ps) := by
  exact h.cons rfl (tokensFrom_of_isHidden hr) hr rfl

theorem delimited {o : Char} {rest : List Char} (ho : o = '[' ∨ o = '"')
    (h : IsCut (nextRegion before o rest).1.text.getLast? (nextRegion before o rest).2 ps) :
    IsCut before (o :: rest)
      (.token (.delimited (String.ofList (o :: (splitDelimited (closer o) rest).1))) :: ps) := by
  have hregion : nextRegion before o rest = _ := nextRegion_delimited ho rest
  apply h.cons
  · simp [Piece.regions, hregion]
  · rw [tokensFrom_opening ho, hregion]
    rfl
  · trivial
  · rfl

/-! ### Single characters -/

section Plain

variable {c : Char} {rest : List Char} (hplain : nextRegion before c rest = (.plain c, rest))
  (h : IsCut (some c) rest ps)

include hplain h

theorem cons_plain {p : Piece} (hregion : p.regions = [.plain c])
    (htokens : lexChars (c :: maskedFrom (some c) rest) =
      p.token?.toList ++ lexChars (maskedFrom (some c) rest))
    (hproper : p.IsProper) (hwords : (p.isWord && beginsWithWord ps) = false) :
    IsCut before (c :: rest) (p :: ps) := by
  apply cons _ _ _ hproper hwords
  · rwa [hplain]
  · rw [hregion, hplain]
  · rw [tokensFrom, maskedFrom_plain hplain, htokens, hplain]
    rfl

theorem skipped (hproper : (Piece.skipped c).IsProper) :
    IsCut before (c :: rest) (.skipped c :: ps) := by
  apply cons_plain hplain h rfl _ hproper rfl
  rcases hproper with hblank | ⟨hword, hmark, hbracket, hquote⟩
  · rw [lexChars]
    simp [nextToken, hblank, Piece.token?]
  · rw [lexChars]
    simp [nextToken, hword, hmark, hbracket, hquote, Piece.token?]

theorem mark (hc : c ∈ punctuation) : IsCut before (c :: rest) (.token (.mark c) :: ps) := by
  have hopen : ¬ (c = '[' ∨ c = '"') := by
    rintro (rfl | rfl) <;> exact absurd hc (by decide)
  apply cons_plain (p := .token (.mark c)) hplain h rfl _ trivial rfl
  rw [lexChars]
  simp [nextToken, Text.isBlank_of_mem_punctuation hc, Text.inWord_of_mem_punctuation hc, hc, hopen,
    Piece.token?]

theorem beginWord (hword : Text.inWord c = true)
    (hhead : (maskedFrom (some c) rest).head?.any Text.inWord = false)
    (hwords : beginsWithWord ps = false) :
    IsCut before (c :: rest) (.token (.word (String.ofList [c])) :: ps) := by
  apply cons_plain (p := .token (.word (String.ofList [c]))) hplain h _ _ trivial hwords
  · simp [Piece.regions]
  · have hsingle : ∀ d ∈ [c], Text.inWord d = true := by simpa using hword
    have hrest : ∀ d, (maskedFrom (some c) rest).head? = some d → Text.inWord d = false := by
      intro d hd
      simpa [hd] using hhead
    exact lexChars_word (by simp) hsingle hrest

theorem extendWord {w : String} {tail : List Piece} (hps : ps = .token (.word w) :: tail)
    (hword : Text.inWord c = true)
    (hhead : (maskedFrom (some c) rest).head?.any Text.inWord = true) :
    IsCut before (c :: rest) (.token (.word (String.ofList (c :: w.toList))) :: tail) := by
  subst hps
  have hne : (maskedFrom (some c) rest).takeWhile Text.inWord ≠ [] := by
    cases hmasked : maskedFrom (some c) rest with
    | nil => simp [hmasked] at hhead
    | cons d ds =>
      have hd : Text.inWord d = true := by simpa [hmasked] using hhead
      simp [hd]
  have hlexed := h.tokens
  rw [tokensFrom, lexChars_eq _ hne] at hlexed
  obtain ⟨hw, htail⟩ := List.cons.inj hlexed
  have hwhole : w = String.ofList ((maskedFrom (some c) rest).takeWhile Text.inWord) :=
    Token.word.inj hw
  constructor
  · have hregions := h.regions
    rw [regionsFrom_cons, hplain]
    simp only [Region.text, List.getLast?_singleton]
    rw [← hregions]
    simp [Piece.regions]
  · rw [tokensFrom, maskedFrom_plain hplain, lexChars_eq _ (by simp [hword])]
    simp [hword, hwhole, Piece.token?, htail]
  · intro p hp
    rcases List.mem_cons.mp hp with rfl | hp
    · trivial
    · exact h.proper p (List.mem_cons_of_mem _ hp)
  · have hwords := List.isChain_cons.mp h.words
    exact hwords.2.cons hwords.1

theorem single (hc : c ≠ '[' ∧ c ≠ '"') (hword : Text.inWord c = false) :
    ∃ p : Piece, p.isWord = false ∧ IsCut before (c :: rest) (p :: ps) := by
  by_cases hmark : c ∈ punctuation
  · exact ⟨_, rfl, mark hplain h hmark⟩
  · exact ⟨_, rfl, skipped hplain h (.inr ⟨hword, hmark, hc⟩)⟩

end Plain

end IsCut

/-- Every text is cut into pieces, which begin with a word where the masked text does. -/
theorem exists_isCut (before : Option Char) (cs : List Char) :
    ∃ ps, IsCut before cs ps ∧
      beginsWithWord ps = (maskedFrom before cs).head?.any Text.inWord := by
  fun_induction regionsFrom before cs with
  | case1 before =>
    refine ⟨[], ⟨?_, ?_, by simp, .nil⟩, ?_⟩
    · rw [regionsFrom]
      rfl
    · rw [tokensFrom_nil]
      rfl
    · rw [maskedFrom_nil]
      rfl
  | case2 before c rest ih =>
    obtain ⟨ps, hps, hbegins⟩ := ih
    obtain ⟨tail, htext⟩ := text_nextRegion before c rest
    rw [maskedFrom_cons]
    cases hidden : (nextRegion before c rest).1.isHidden with
    | true =>
      have hblank : Text.isBlank (Region.blankOut c) = true := by simpa using isBlank_blankOut [c]
      refine ⟨_, hps.hidden hidden, ?_⟩
      rw [masked_of_isHidden hidden, htext]
      exact (Text.inWord_of_isBlank hblank).symm
    | false =>
      rw [masked_of_not_isHidden hidden, htext]
      rcases nextRegion_of_not_isHidden hidden with ho | ⟨hplain, hc⟩
      · have hopen : Text.inWord c = false := by rcases ho with rfl | rfl <;> decide
        exact ⟨_, hps.delimited ho, hopen.symm⟩
      rw [hplain] at hps hbegins
      cases hword : Text.inWord c with
      | false =>
        obtain ⟨p, hp, hcut⟩ := IsCut.single hplain hps hc hword
        exact ⟨_, hcut, hp.trans hword.symm⟩
      | true =>
        cases hfirst : beginsWithWord ps with
        | false =>
          have hcut := IsCut.beginWord hplain hps hword (hbegins ▸ hfirst) hfirst
          exact ⟨_, hcut, hword.symm⟩
        | true =>
          obtain ⟨w, front, rfl⟩ := eq_cons_of_beginsWithWord hfirst
          have hcut := IsCut.extendWord hplain hps rfl hword (hbegins ▸ hfirst)
          exact ⟨_, hcut, hword.symm⟩

/-- The tokens of a text are slices of it. They do not overlap, no word touches another, and what
stands between them are literals, comments and characters that are not read. -/
theorem exists_pieces (s : String) :
    ∃ ps : List Piece,
      ps.flatMap Piece.text = s.toList ∧
      ps.filterMap Piece.token? = sqlTokens s ∧
      ps.flatMap Piece.regions = regions s ∧
      (∀ p ∈ ps, p.IsProper) ∧
      ps.IsChain fun p q => (p.isWord && q.isWord) = false := by
  obtain ⟨ps, hps, -⟩ := exists_isCut none s.toList
  have htokens := hps.tokens
  rw [← sqlTokens_eq_tokensFrom] at htokens
  exact ⟨ps, hps.text, htokens, hps.regions, hps.proper, hps.words⟩

end Provenance
