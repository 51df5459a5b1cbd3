import Provenance.Proofs.Query.Expressions
import Provenance.Proofs.Query.MentionDepth

/-!
# The first select list

A statement is searched for its first `SELECT` outside parentheses. Tokens before it that close all
their parentheses make no difference to the list that is found.
-/

namespace Provenance

theorem breakAt_cases (stop : Token → Bool) (depth : Int) (ts : List Token) :
    (∀ t ∈ outside depth ts, stop t = false) ∨
      ∃ front t rest, ts = front ++ t :: rest ∧ depth + net front = 0 ∧
        (∀ u ∈ outside depth front, stop u = false) ∧ stop t = true := by
  induction ts generalizing depth with
  | nil => exact .inl (by simp [outside])
  | cons t ts ih =>
    by_cases hstop : depth = 0 ∧ stop t = true
    · exact .inr ⟨[], t, ts, rfl, by simp [hstop.1], by simp [outside], hstop.2⟩
    have hcons : ∀ {us}, (∀ u ∈ outside (depth + t.nesting) us, stop u = false) →
        ∀ u ∈ outside depth (t :: us), stop u = false := by
      intro us hus u hu
      rw [outside] at hu
      split at hu
      · rename_i hdepth
        rcases List.mem_cons.mp hu with rfl | hu
        · simpa [hdepth] using hstop
        · exact hus u hu
      · exact hus u hu
    rcases ih (depth + t.nesting) with hnone | ⟨front, s, rest, rfl, hnet, hfront, hs⟩
    · exact .inl (hcons hnone)
    · refine .inr ⟨t :: front, s, rest, rfl, ?_, hcons hfront, hs⟩
      rw [net_cons, ← hnet, Int.add_assoc]

theorem selectList_eq_nil {ts : List Token} (h : ∀ t ∈ outside 0 ts, t.is .SELECT = false) :
    selectList ts = [] := by
  have hbreak := breakAt_append h []
  rw [List.append_nil] at hbreak
  rw [selectList, breakSelect, breakOutside, hbreak]
  rfl

theorem takeList_congr {b : Token} (hb : breaksSequence b = true) (inner : List Token)
    (before before' : List Token) (depth : Nat) (ts : List Token) :
    takeList (inner ++ b :: before) depth ts = takeList (inner ++ b :: before') depth ts := by
  induction ts generalizing inner depth with
  | nil => rfl
  | cons t ts ih =>
    have htail : ∀ depth, takeList (t :: (inner ++ b :: before)) depth ts =
        takeList (t :: (inner ++ b :: before')) depth ts := fun depth => ih (t :: inner) depth
    unfold takeList
    simp only [awaitsSequence_append hb, htail]

theorem breaksSequence_of_is {t : Token} (h : t.is .SELECT = true) : breaksSequence t = true := by
  have hnext := Token.not_spells_of_is (w := "NEXT") h (by decide +kernel)
  have hvalue := Token.not_spells_of_is (w := "VALUE") h (by decide +kernel)
  simp [breaksSequence, hnext, hvalue]

theorem exists_lead (ts : List Token) :
    ∃ lead, ts = lead ++ skipTop (ts.dropWhile isQuantifier) := by
  obtain ⟨top, htop, -⟩ := Passes.skipTop (ts.dropWhile isQuantifier)
  refine ⟨ts.takeWhile isQuantifier ++ top, ?_⟩
  rw [List.append_assoc, ← htop, List.takeWhile_append_dropWhile]

/-- Balanced tokens without a `SELECT` outside parentheses make no difference to the select list. -/
theorem selectList_append_left {ts : List Token} (hbal : isBalanced ts = true)
    (hts : ∀ t ∈ outside 0 ts, t.is .SELECT = false) (us : List Token) :
    selectList (ts ++ us) = selectList us := by
  have hnet := net_of_isBalanced hbal
  have houtside : ∀ {vs : List Token}, (∀ t ∈ outside 0 vs, t.is .SELECT = false) →
      ∀ t ∈ outside 0 (ts ++ vs), t.is .SELECT = false := by
    intro vs hvs t ht
    rw [outside_append, hnet, Int.add_zero] at ht
    rcases List.mem_append.mp ht with ht | ht
    · exact hts t ht
    · exact hvs t ht
  rcases breakAt_cases (Token.is .SELECT) 0 us with
    hnone | ⟨front, s, rest, rfl, hfront, hbefore, hs⟩
  · rw [selectList_eq_nil hnone, selectList_eq_nil (houtside hnone)]
  · rw [Int.zero_add] at hfront
    obtain ⟨lead, hlead⟩ := exists_lead rest
    have hnet' : net (ts ++ front) = 0 := by
      rw [net_append, hnet, hfront]
      rfl
    generalize hlist : skipTop (rest.dropWhile isQuantifier) = list at hlead
    rw [hlead] at hlist ⊢
    rw [← List.append_assoc, selectList_of_skipTop hnet' (houtside hbefore) hs hlist,
      selectList_of_skipTop hfront hbefore hs hlist]
    exact takeList_congr (breaksSequence_of_is hs) _ _ _ 0 list

end Provenance
