import Provenance.Proofs.Token.Rendered

/-!
# Regions of a text

A region ends where it does because of its own characters and at most the one after it. So a
literal or comment may be replaced by a space: the regions before it and after it stay what they
are.
-/

namespace Provenance

namespace Region

def isHidden : Region → Bool
  | literal _ => true
  | lineComment _ => true
  | blockComment _ => true
  | delimited _ => false
  | plain _ => false

end Region

def textOf (regions : List Region) : List Char := regions.flatMap Region.text

theorem text_nextRegion (before : Option Char) (c : Char) (rest : List Char) :
    ∃ tail, (nextRegion before c rest).1.text = c :: tail := by
  unfold nextRegion
  split
  case h_6 => split <;> simp [Region.text]
  all_goals simp [Region.text]

theorem regionsFrom_cons (before : Option Char) (c : Char) (rest : List Char) :
    regionsFrom before (c :: rest) = (nextRegion before c rest).1 ::
      regionsFrom (nextRegion before c rest).1.text.getLast? (nextRegion before c rest).2 := by
  rw [regionsFrom]

theorem textOf_regionsFrom (before : Option Char) (cs : List Char) :
    textOf (regionsFrom before cs) = cs := by
  fun_induction regionsFrom before cs with
  | case1 => rfl
  | case2 before c rest ih =>
    rw [textOf] at ih ⊢
    rw [List.flatMap_cons, ih, nextRegion_append]

/-! ## Where regions end -/

/-- A delimited text that leaves a rest is closed, and the rest does not go on with the closing
character. -/
theorem closes_splitDelimited {close : Char} {cs : List Char}
    (h : (splitDelimited close cs).2 ≠ []) :
    closes close (splitDelimited close cs).1 = true ∧
      (splitDelimited close cs).2.head? ≠ some close := by
  fun_induction splitDelimited close cs with
  | case1 => simp at h
  | case2 => simp at h
  | case3 rest tail ih => simpa [closes] using ih h
  | case4 d rest hd => simpa [closes] using hd
  | case5 c d rest hc tail ih =>
    obtain ⟨hcloses, hhead⟩ := ih h
    refine ⟨?_, hhead⟩
    cases htail : tail.1 with
    | nil => simp [tail, htail, closes] at hcloses
    | cons e es =>
      rw [htail] at hcloses
      simpa [closes, hc] using hcloses

theorem splitBlock_of_ne_nil {depth : Nat} {cs : List Char} (h : (splitBlock depth cs).2 ≠ []) :
    (splitBlock depth cs).1.getLast? = some '/' ∧
      ∀ new,
        splitBlock depth ((splitBlock depth cs).1 ++ new) = ((splitBlock depth cs).1, new) := by
  fun_induction splitBlock depth cs with
  | case1 depth rest tail ih =>
    obtain ⟨hlast, hnew⟩ := ih h
    exact ⟨by simp [List.getLast?_cons, tail, hlast], fun new => by simp [splitBlock, tail, hnew]⟩
  | case2 rest => exact ⟨rfl, fun new => by simp [splitBlock]⟩
  | case3 rest outer tail ih =>
    obtain ⟨hlast, hnew⟩ := ih h
    exact ⟨by simp [List.getLast?_cons, tail, hlast], fun new => by simp [splitBlock, tail, hnew]⟩
  | case4 depth c rest hopen hclose tail ih =>
    obtain ⟨hlast, hnew⟩ := ih h
    refine ⟨by simp [List.getLast?_cons, tail, hlast], fun new => ?_⟩
    -- The rest begins with the same character as what is kept of it.
    obtain ⟨d, ds, hd⟩ : ∃ d ds, tail.1 = d :: ds := by
      cases htail : tail.1 with
      | nil => simp [tail, htail] at hlast
      | cons d ds => exact ⟨d, ds, rfl⟩
    have hrest : rest = d :: (ds ++ tail.2) := by
      rw [← splitBlock_append depth rest]
      simp only [tail] at hd
      rw [hd]
      rfl
    have hnew := hnew new
    simp only [tail] at hd
    rw [hd] at hnew
    simp only [tail, hd, List.cons_append]
    rw [splitBlock, ← List.cons_append, hnew]
    · intro rest' hc hcons
      obtain ⟨rfl, -⟩ := List.cons.inj hcons
      exact hopen _ hc hrest
    · intro rest' hc hcons
      obtain ⟨rfl, -⟩ := List.cons.inj hcons
      exact hclose _ hc hrest
  | case5 => simp at h

theorem inLine_of_splitLine {cs : List Char} {d : Char} (h : (splitLine cs).2.head? = some d) :
    inLine d = false := by
  have hnot := List.head?_dropWhile_not inLine cs
  rw [show cs.dropWhile inLine = (splitLine cs).2 from rfl, h] at hnot
  simpa using hnot

/-! ## Texts with another rest -/

/-- Whether a character opens a region of more than itself, given its two neighbours. -/
def opensRegion (before : Option Char) (c : Char) (next : Option Char) : Bool :=
  c == '\'' || c == '[' || c == '"' || c == '-' && next == some '-' ||
    c == '/' && next == some '*' ||
    (c == 'N' || c == 'n') && next == some '\'' && !before.any Text.inWord

theorem nextRegion_eq_plain_iff {before : Option Char} {c : Char} {rest : List Char} :
    nextRegion before c rest = (.plain c, rest) ↔ opensRegion before c rest.head? = false := by
  fun_cases nextRegion before c rest
  case case6 h =>
    simp only [Bool.and_eq_true, Bool.or_eq_true, decide_eq_true_eq] at h
    rcases h.1 with rfl | rfl <;> simpa [opensRegion] using h.2
  case case8 hliteral hline hblock =>
    simp_all [opensRegion, List.head?_eq_some_iff]
  all_goals simp_all [opensRegion]

/-- Whether `new` can stand in place of what a region leaves. -/
def Continues (rest new : List Char) : Prop :=
  new.head? = rest.head? ∨ new.head? = some ' ' ∧ rest.head?.all inLine = true

theorem Continues.head?_ne {rest new : List Char} (h : Continues rest new) {c : Char}
    (hc : c ≠ ' ') (hrest : rest.head? ≠ some c) : new.head? ≠ some c := by
  rcases h with h | ⟨h, -⟩
  · rwa [h]
  · rw [h]
    exact fun heq => hc (Option.some.inj heq).symm

theorem splitDelimited_continues {close : Char} {cs new : List Char} (hclose : close ≠ ' ')
    (hrest : (splitDelimited close cs).2 ≠ [])
    (hnew : Continues (splitDelimited close cs).2 new) :
    splitDelimited close ((splitDelimited close cs).1 ++ new) =
      ((splitDelimited close cs).1, new) := by
  obtain ⟨hcloses, hhead⟩ := closes_splitDelimited hrest
  exact splitDelimited_of_closes hcloses (hnew.head?_ne hclose hhead)

theorem splitLine_continues {cs new : List Char} (hrest : (splitLine cs).2 ≠ [])
    (hnew : Continues (splitLine cs).2 new) :
    splitLine ((splitLine cs).1 ++ new) = ((splitLine cs).1, new) := by
  have hall : ∀ c ∈ (splitLine cs).1, inLine c = true := by
    intro c hc
    exact List.all_eq_true.mp List.all_takeWhile c hc
  -- The rest begins with a line break, so a space cannot stand in its place.
  obtain ⟨d, hd⟩ := Option.isSome_iff_exists.mp (List.isSome_head?.mpr hrest)
  have hbreak := inLine_of_splitLine hd
  have hhead : new.head? = some d := by
    rcases hnew with h | ⟨-, h⟩
    · rwa [hd] at h
    · rw [hd] at h
      simp [hbreak] at h
  obtain ⟨ds, rfl⟩ := List.head?_eq_some_iff.mp hhead
  rw [splitLine, List.takeWhile_append_of_pos hall, List.dropWhile_append_of_pos hall]
  simp [hbreak]

theorem nextRegion_plain_continues {before : Option Char} {c : Char} {rest new : List Char}
    (h : nextRegion before c rest = (.plain c, rest)) (hnew : Continues rest new) :
    nextRegion before c new = (.plain c, new) := by
  rw [nextRegion_eq_plain_iff] at h ⊢
  rcases hnew with hhead | ⟨hhead, -⟩
  · rwa [hhead]
  · rw [hhead]
    simp only [opensRegion, Bool.or_eq_false_iff] at h ⊢
    simp [h.1.1.1.1.1, h.1.1.1.1.2, h.1.1.1.2]

/-- A region is the same in front of another rest that goes on as its own. -/
theorem nextRegion_continues {before : Option Char} {c : Char} {rest new : List Char}
    (hrest : (nextRegion before c rest).2 ≠ [])
    (hnew : Continues (nextRegion before c rest).2 new) :
    nextRegion before c ((nextRegion before c rest).1.text.tail ++ new) =
      ((nextRegion before c rest).1, new) := by
  by_cases hplain : nextRegion before c rest = (.plain c, rest)
  · rw [hplain] at hnew ⊢
    exact nextRegion_plain_continues hplain hnew
  revert hrest hnew hplain
  fun_cases nextRegion before c rest with
  | case1 rest tail =>
    intro hrest hnew _
    have h := splitDelimited_continues (by decide) hrest hnew
    simp [Region.text, nextRegion, tail, h]
  | case2 rest tail =>
    intro hrest hnew _
    have h := splitLine_continues hrest hnew
    simp [Region.text, nextRegion, tail, h]
  | case3 rest tail =>
    intro hrest hnew _
    have h := (splitBlock_of_ne_nil hrest).2 new
    simp [Region.text, nextRegion, tail, h]
  | case4 rest tail =>
    intro hrest hnew _
    have h := splitDelimited_continues (by decide) hrest hnew
    simp [Region.text, nextRegion, tail, h]
  | case5 rest tail =>
    intro hrest hnew _
    have h := splitDelimited_continues (by decide) hrest hnew
    simp [Region.text, nextRegion, tail, h]
  | case6 c rest _ _ _ hliteral tail =>
    intro hrest hnew _
    have h := splitDelimited_continues (by decide) hrest hnew
    simp only [Bool.and_eq_true, Bool.or_eq_true, decide_eq_true_eq] at hliteral
    simp [Region.text, nextRegion, hliteral, tail, h]
  | case7 | case8 => exact fun _ _ hplain => absurd rfl hplain

/-! ## Replacing a region by a space -/

theorem inLine_of_isHidden {before : Option Char} {c : Char} {rest : List Char}
    (h : (nextRegion before c rest).1.isHidden = true) : inLine c = true := by
  revert h
  fun_cases nextRegion before c rest with
  | case1 | case2 | case3 => exact fun _ => by decide
  | case6 c rest _ _ _ hliteral tail =>
    intro _
    simp only [Bool.and_eq_true, Bool.or_eq_true, decide_eq_true_eq] at hliteral
    rcases hliteral.1 with rfl | rfl <;> decide
  | case4 | case5 | case7 | case8 => simp [Region.isHidden]

theorem nextRegion_congr {before before' : Option Char} {c : Char} {rest : List Char}
    (h : before.any Text.inWord = before'.any Text.inWord) :
    nextRegion before c rest = nextRegion before' c rest := by
  unfold nextRegion
  simp only [h]

/-- A region depends on the character before it only by whether that belongs to a word. -/
theorem regionsFrom_congr {before before' : Option Char} (cs : List Char)
    (h : before.any Text.inWord = before'.any Text.inWord) :
    regionsFrom before cs = regionsFrom before' cs := by
  cases cs with
  | nil => rw [regionsFrom, regionsFrom]
  | cons c rest => rw [regionsFrom_cons, regionsFrom_cons, nextRegion_congr h]

theorem regionsFrom_of_not_inLine {c : Char} (hc : inLine c = false) (rest : List Char)
    (before before' : Option Char) :
    regionsFrom before (c :: rest) = regionsFrom before' (c :: rest) := by
  have hplain : ∀ b, nextRegion b c rest = (.plain c, rest) := by
    intro b
    have hbreak : c = '\n' ∨ c = '\r' := by
      simpa [inLine, Classical.or_iff_not_imp_left] using hc
    rw [nextRegion_eq_plain_iff]
    rcases hbreak with rfl | rfl <;> rfl
  rw [regionsFrom_cons, regionsFrom_cons, hplain, hplain]

theorem regionsFrom_after_isHidden {before : Option Char} {c : Char} {rest : List Char}
    (h : (nextRegion before c rest).1.isHidden = true) :
    regionsFrom (nextRegion before c rest).1.text.getLast? (nextRegion before c rest).2 =
      regionsFrom (some ' ') (nextRegion before c rest).2 := by
  by_cases hrest : (nextRegion before c rest).2 = []
  · rw [hrest, regionsFrom, regionsFrom]
  have hliteral : ∀ (front : List Char) {cs : List Char}, (splitDelimited '\'' cs).2 ≠ [] →
      regionsFrom (front ++ (splitDelimited '\'' cs).1).getLast? (splitDelimited '\'' cs).2 =
        regionsFrom (some ' ') (splitDelimited '\'' cs).2 := by
    intro front cs hne
    apply regionsFrom_congr
    rw [List.getLast?_append, getLast?_of_closes (closes_splitDelimited hne).1]
    rfl
  revert h hrest
  fun_cases nextRegion before c rest with
  | case1 rest tail =>
    intro _ hrest
    exact hliteral ['\''] hrest
  | case2 rest tail =>
    intro _ hrest
    obtain ⟨d, hd⟩ := Option.isSome_iff_exists.mp (List.isSome_head?.mpr hrest)
    obtain ⟨ds, hds⟩ := List.head?_eq_some_iff.mp hd
    have htail : tail.2 = d :: ds := hds
    simp only [htail]
    exact regionsFrom_of_not_inLine (inLine_of_splitLine hd) ds _ _
  | case3 rest tail =>
    intro _ hrest
    apply regionsFrom_congr
    have hlast := (splitBlock_of_ne_nil hrest).1
    simp only [Region.text, tail]
    rw [List.getLast?_cons_cons, List.getLast?_cons, hlast]
    decide
  | case6 c rest _ _ _ _ tail =>
    intro _ hrest
    exact hliteral [c, '\''] hrest
  | case4 | case5 | case7 | case8 => simp [Region.isHidden]

theorem continues_replace {before : Option Char} {cs : List Char} {front back : List Region}
    {r : Region} (h : regionsFrom before cs = front ++ r :: back) (hr : r.isHidden = true) :
    cs ≠ [] ∧ Continues cs (textOf front ++ ' ' :: textOf back) := by
  cases cs with
  | nil => simp [regionsFrom] at h
  | cons c rest =>
    refine ⟨by simp, ?_⟩
    rw [regionsFrom_cons] at h
    cases front with
    | nil =>
      obtain ⟨rfl, -⟩ := List.cons.inj h
      exact .inr ⟨rfl, inLine_of_isHidden hr⟩
    | cons f front =>
      obtain ⟨rfl, -⟩ := List.cons.inj h
      obtain ⟨tail, htext⟩ := text_nextRegion before c rest
      left
      simp [textOf, htext]

/-- A space in place of a literal or comment is a region of its own, and the others stay. -/
theorem regionsFrom_replace {before : Option Char} {cs : List Char} {front back : List Region}
    {r : Region} (h : regionsFrom before cs = front ++ r :: back) (hr : r.isHidden = true) :
    regionsFrom before (textOf front ++ ' ' :: textOf back) = front ++ .plain ' ' :: back := by
  induction front generalizing before cs with
  | nil =>
    cases cs with
    | nil => simp [regionsFrom] at h
    | cons c rest =>
      rw [regionsFrom_cons] at h
      obtain ⟨rfl, rfl⟩ := List.cons.inj h
      have hspace : ∀ cs, nextRegion before ' ' cs = (.plain ' ', cs) := fun cs =>
        nextRegion_eq_plain_iff.mpr rfl
      rw [textOf_regionsFrom]
      simp only [textOf, List.flatMap_nil, List.nil_append]
      rw [regionsFrom_cons, hspace, regionsFrom_after_isHidden hr]
      rfl
  | cons f front ih =>
    cases cs with
    | nil => simp [regionsFrom] at h
    | cons c rest =>
      rw [regionsFrom_cons, List.cons_append] at h
      obtain ⟨rfl, htail⟩ := List.cons.inj h
      obtain ⟨hne, hcontinues⟩ := continues_replace htail hr
      obtain ⟨tail, htext⟩ := text_nextRegion before c rest
      have hregion := nextRegion_continues hne hcontinues
      rw [htext, List.tail_cons] at hregion
      have hlist : textOf ((nextRegion before c rest).1 :: front) ++ ' ' :: textOf back =
          c :: (tail ++ (textOf front ++ ' ' :: textOf back)) := by
        simp [textOf, htext]
      rw [hlist, regionsFrom_cons, hregion, ih htail]
      rfl

end Provenance
