import Provenance.Proofs.Token.Depth
import Provenance.Query.SelectList

/-!
# Select lists of statements

The select list of a statement begins after its first `SELECT` outside parentheses and ends before
the clause that follows it. Pieces joined by commas are its items.
-/

namespace Provenance

theorem takeList_append {depth : Nat} {ts : List Token} (hbal : balancedFrom depth ts = true)
    (hends : ∀ t ∈ outside depth ts, endsList t = false) (before rest : List Token) :
    takeList before depth (ts ++ rest) = ts ++ takeList (ts.reverse ++ before) 0 rest := by
  induction ts generalizing depth before with
  | nil =>
    obtain rfl : depth = 0 := by simpa [balancedFrom] using hbal
    rfl
  | cons t ts ih =>
    rw [outside] at hends
    have htail : ∀ u ∈ outside ((depth : Int) + t.nesting) ts, endsList u = false := by
      intro u hu
      apply hends
      split
      · exact List.mem_cons_of_mem t hu
      · exact hu
    have hreverse : ts.reverse ++ t :: before = (t :: ts).reverse ++ before := by simp
    unfold balancedFrom at hbal
    rw [List.cons_append]
    conv => lhs; unfold takeList
    split at hbal
    · rename_i hopen
      have hdepth : (depth : Int) + t.nesting = ((depth + 1 : Nat) : Int) := by
        rw [nesting_of_open hopen]
        omega
      rw [hdepth] at htail
      rw [if_pos hopen, ih hbal htail, hreverse]
      rfl
    split at hbal
    · rename_i hopen hclose
      cases depth with
      | zero => simp at hbal
      | succ outer =>
        have hdepth : ((outer + 1 : Nat) : Int) + t.nesting = (outer : Int) := by
          rw [nesting_of_close hopen hclose]
          omega
        rw [hdepth] at htail
        rw [if_neg hopen, if_pos hclose]
        simp only [ih hbal htail, hreverse, List.cons_append]
    · rename_i hopen hclose
      have hflat : t.nesting = 0 := nesting_of_isFlat (by simp [Token.isFlat, hopen, hclose])
      rw [hflat, Int.add_zero] at htail
      have hstays : (depth = 0 && endsList t && !awaitsSequence before) = false := by
        by_cases hdepth : depth = 0
        · subst hdepth
          simp [hends t (by simp)]
        · simp [hdepth]
      rw [if_neg hopen, if_neg hclose, hstays]
      simp only [Bool.false_eq_true, if_false, ih hbal htail, hreverse, List.cons_append]

theorem takeList_of_endsList {t : Token} {before rest : List Token} (hflat : t.isFlat = true)
    (hends : endsList t = true) (hsequence : awaitsSequence before = false) :
    takeList before 0 (t :: rest) = [] := by
  simp only [Token.isFlat, Bool.and_eq_true, Bool.not_eq_true'] at hflat
  simp [takeList, hflat.1, hflat.2, hends, hsequence]

theorem breakSelect_append {before : List Token} {select : Token} {rest : List Token}
    (hnet : net before = 0) (hbefore : ∀ t ∈ outside 0 before, t.is .SELECT = false)
    (hselect : select.is .SELECT = true) :
    breakSelect (before ++ select :: rest) = (before, select :: rest) := by
  rw [breakSelect, breakOutside, breakAt_append hbefore, hnet, Int.add_zero, breakAt]
  simp [hselect]

theorem selectList_of_skipTop {before lead list : List Token} {select : Token}
    (hnet : net before = 0) (hbefore : ∀ t ∈ outside 0 before, t.is .SELECT = false)
    (hselect : select.is .SELECT = true)
    (hskip : skipTop ((lead ++ list).dropWhile isQuantifier) = list) :
    selectList (before ++ select :: (lead ++ list)) =
      takeList (lead.reverse ++ select :: before.reverse) 0 list := by
  have hsplit : before ++ select :: (lead ++ list) = (before ++ select :: lead) ++ list := by simp
  have htake : (before ++ select :: (lead ++ list)).take
      ((before ++ select :: (lead ++ list)).length - list.length) = before ++ select :: lead := by
    rw [hsplit, List.length_append, Nat.add_sub_cancel, List.take_left]
  rw [selectList, breakSelect_append hnet hbefore hselect]
  simp only [hskip, htake]
  simp

theorem selectList_of_head {before rest : List Token} {select : Token}
    (hnet : net before = 0) (hbefore : ∀ t ∈ outside 0 before, t.is .SELECT = false)
    (hselect : select.is .SELECT = true)
    (hfirst : ∀ t, rest.head? = some t → isQuantifier t = false ∧ t.is .TOP = false) :
    selectList (before ++ select :: rest) = takeList (select :: before.reverse) 0 rest := by
  have hquantifier : rest.dropWhile isQuantifier = rest := by
    cases rest with
    | nil => rfl
    | cons t ts => simp [(hfirst t rfl).1]
  have htop : skipTop rest = rest := by
    cases rest with
    | nil => rfl
    | cons t ts => simp [skipTop, afterKeyword?, (hfirst t rfl).2]
  have hskip : skipTop (([] ++ rest).dropWhile isQuantifier) = rest := by
    simp [hquantifier, htop]
  exact selectList_of_skipTop hnet hbefore hselect hskip

/-- The select list is what stands between the first `SELECT` and the clause after it, if it does
not begin with a quantifier or a `TOP` clause. -/
theorem selectList_append {before list rest : List Token} {select : Token}
    (hnet : net before = 0) (hbefore : ∀ t ∈ outside 0 before, t.is .SELECT = false)
    (hselect : select.is .SELECT = true)
    (hfirst : ∀ t, (list ++ rest).head? = some t → isQuantifier t = false ∧ t.is .TOP = false)
    (hbal : isBalanced list = true) (hlist : ∀ t ∈ outside 0 list, endsList t = false)
    (hrest : takeList (list.reverse ++ select :: before.reverse) 0 rest = []) :
    selectList (before ++ select :: (list ++ rest)) = list := by
  rw [selectList_of_head hnet hbefore hselect hfirst, takeList_append hbal hlist, hrest,
    List.append_nil]

theorem outputItems_of_selectList {ts : List Token} {pieces : List (List Token)}
    (hlist : selectList ts = [Token.mark ','].intercalate pieces)
    (hpieces : ∀ p ∈ pieces, isPiece p = true) : outputItems ts = pieces := by
  rw [outputItems, hlist, splitCommas_intercalate hpieces]

end Provenance
