import Provenance.Proofs.Query.FirstSelect
import Provenance.Proofs.Query.SelectStatement
import Provenance.Proofs.Token.CommaPieces
import Provenance.Proofs.Token.Reads

/-!
# Items as stretches of a statement

Whatever the tokens are, the items of the select list are stretches of them behind the first
`SELECT`, one behind the other. Outside its parentheses an item has no comma, and no token begins a
clause in it unless `NEXT VALUE` stands right before that token.
-/

namespace Provenance

/-! ## The end of the list -/

theorem exists_takeList_append (before : List Token) (depth : Nat) (ts : List Token) :
    ∃ back, ts = takeList before depth ts ++ back := by
  fun_induction takeList before depth ts with
  | case1 before depth => exact ⟨[], rfl⟩
  | case2 before depth t rest hopen ih =>
    obtain ⟨back, hback⟩ := ih
    exact ⟨back, congrArg (t :: ·) hback⟩
  | case3 before t rest hopen hclose => exact ⟨t :: rest, rfl⟩
  | case4 before t rest hopen hclose outer ih =>
    obtain ⟨back, hback⟩ := ih
    exact ⟨back, congrArg (t :: ·) hback⟩
  | case5 before depth t rest hopen hclose hends => exact ⟨t :: rest, rfl⟩
  | case6 before depth t rest hopen hclose hends ih =>
    obtain ⟨back, hback⟩ := ih
    exact ⟨back, congrArg (t :: ·) hback⟩

/-- A token outside parentheses that would begin a clause belongs to the list only behind
`NEXT VALUE`. -/
theorem awaitsSequence_of_takeList {before ts inner outer : List Token} {depth : Nat} {t : Token}
    (htake : takeList before depth ts = inner ++ t :: outer) (hnet : depth + net inner = 0)
    (hends : endsList t = true) : awaitsSequence (inner.reverse ++ before) = true := by
  have hflat : t.isMark '(' = false ∧ t.isMark ')' = false := by
    simpa [Token.isFlat] using isFlat_of_endsList hends
  fun_induction takeList before depth ts generalizing inner with
  | case1 => simp at htake
  | case2 before depth u rest hopen ih =>
    rcases List.cons_eq_append_iff.mp htake with ⟨-, ht⟩ | ⟨more, rfl, hmore⟩
    · obtain ⟨rfl, -⟩ := List.cons.inj ht
      simp [hopen] at hflat
    · have hinner : ((depth + 1 : Nat) : Int) + net more = 0 := by
        rw [net_cons, nesting_of_open hopen] at hnet
        omega
      simpa using ih hmore hinner
  | case3 => simp at htake
  | case4 before u rest hopen hclose outer' ih =>
    rcases List.cons_eq_append_iff.mp htake with ⟨-, ht⟩ | ⟨more, rfl, hmore⟩
    · obtain ⟨rfl, -⟩ := List.cons.inj ht
      simp [hclose] at hflat
    · have hinner : (outer' : Int) + net more = 0 := by
        rw [net_cons, nesting_of_close hopen hclose] at hnet
        omega
      simpa using ih hmore hinner
  | case5 => simp at htake
  | case6 before depth u rest hopen hclose hstays ih =>
    rcases List.cons_eq_append_iff.mp htake with ⟨rfl, ht⟩ | ⟨more, rfl, hmore⟩
    · obtain ⟨rfl, -⟩ := List.cons.inj ht
      have hdepth : depth = 0 := by simpa using hnet
      simpa [hdepth, hends] using hstays
    · have hinner : (depth : Int) + net more = 0 := by
        rwa [net_cons, nesting_of_isFlat (by simp [Token.isFlat, hopen, hclose]), Int.zero_add]
          at hnet
      simpa using ih hmore hinner

theorem selectList_cases (ts : List Token) :
    selectList ts = [] ∨ ∃ front select lead list, ts = front ++ select :: (lead ++ list) ∧
      net front = 0 ∧ (∀ t ∈ outside 0 front, t.is .SELECT = false) ∧ select.is .SELECT = true ∧
      selectList ts = takeList (lead.reverse ++ select :: front.reverse) 0 list := by
  rcases breakAt_cases (Token.is .SELECT) 0 ts with
    hnone | ⟨front, select, rest, rfl, hnet, hfront, hselect⟩
  · exact .inl (selectList_eq_nil hnone)
  · right
    rw [Int.zero_add] at hnet
    obtain ⟨lead, hlead⟩ := exists_lead rest
    refine ⟨front, select, lead, skipTop (rest.dropWhile isQuantifier), by rw [← hlead], hnet,
      hfront, hselect, ?_⟩
    conv => lhs; rw [hlead]
    exact selectList_of_skipTop hnet hfront hselect (by rw [← hlead])

/-! ## The items -/

/-- Whether a stretch of tokens is behind the first `SELECT` and may be an item. Of its tokens
outside parentheses none is a comma, and one that would begin a clause has `NEXT VALUE` right before
it among all tokens. -/
structure Stretch.IsItem (ts : List Token) (s : Stretch) : Prop where
  nonempty : s.tokens ts ≠ []
  inside : s.stop ≤ ts.length
  selected : ∃ front select rest, ts = front ++ select :: rest ∧ net front = 0 ∧
    (∀ t ∈ outside 0 front, t.is .SELECT = false) ∧ select.is .SELECT = true ∧
    front.length < s.start
  separate : ∀ inner t outer, s.tokens ts = inner ++ t :: outer → net inner = 0 →
    t.isMark ',' = false ∧
      (endsList t = true →
        awaitsSequence (inner.reverse ++ (ts.take s.start).reverse) = true)

theorem Stretch.IsPieceOf.awaitsSequence {s : Stretch} {before ts earlier piece later : List Token}
    {offset : Nat} (h : s.IsPieceOf (takeList before 0 ts) offset earlier piece later)
    {inner outer : List Token} {t : Token} (hpiece : piece = inner ++ t :: outer)
    (hnet : net inner = 0) (hends : endsList t = true) :
    awaitsSequence (inner.reverse ++ (earlier.reverse ++ before)) = true := by
  have htake : takeList before 0 ts = (earlier ++ inner) ++ t :: (outer ++ later) := by
    rw [h.whole, hpiece]
    simp
  have hclosed : ((0 : Nat) : Int) + net (earlier ++ inner) = 0 := by simp [h.closed, hnet]
  have hsequence := awaitsSequence_of_takeList htake hclosed hends
  rwa [List.reverse_append, List.append_assoc] at hsequence

/-- The items of a select list are stretches of the tokens, one behind the other. -/
theorem outputItems_stretches (ts : List Token) :
    ∃ stretches : List Stretch, outputItems ts = stretches.map (Stretch.tokens ts) ∧
      stretches.Pairwise Stretch.IsBefore ∧ ∀ s ∈ stretches, s.IsItem ts := by
  rcases selectList_cases ts with
    hnone | ⟨front, select, lead, list, rfl, hnet, hfront, hselect, hlist⟩
  · refine ⟨[], ?_, .nil, by simp⟩
    rw [outputItems, hnone]
    rfl
  -- The list stands behind the tokens in front and before those that are left.
  obtain ⟨back, hback⟩ := exists_takeList_append (lead.reverse ++ select :: front.reverse) 0 list
  have hall : front ++ select :: (lead ++ list) = (front ++ select :: lead) ++
      (takeList (lead.reverse ++ select :: front.reverse) 0 list ++ back) := by
    rw [← hback]
    simp
  obtain ⟨stretches, hitems, hcut, hlength⟩ := exists_stretches_splitCommas
    (front ++ select :: lead) (takeList (lead.reverse ++ select :: front.reverse) 0 list) back
  rw [← hall] at hitems
  refine ⟨stretches, by rw [outputItems, hlist, hitems], hcut.apart.imp Nat.le_of_lt, ?_⟩
  intro s hs
  obtain ⟨earlier, piece, later, hpiece⟩ := hcut.pieces s hs
  have htokens := hpiece.tokens_append rfl back
  have hbefore := hpiece.take_start rfl back
  have hstop := hpiece.stop_le rfl back
  rw [← hall] at htokens hbefore hstop
  have hnonempty : s.tokens (front ++ select :: (lead ++ list)) ≠ [] := by
    rw [htokens]
    exact List.ne_nil_of_length_pos (hpiece.length_eq ▸ hlength s hs)
  refine ⟨hnonempty, hstop, ⟨front, select, lead ++ list, rfl, hnet, hfront, hselect, ?_⟩, ?_⟩
  · rw [hpiece.stretch]
    simp
    omega
  · intro inner t outer hinner hinnerNet
    rw [htokens] at hinner
    refine ⟨hpiece.not_comma hinner hinnerNet, fun hends => ?_⟩
    rw [hbefore]
    simpa using hpiece.awaitsSequence hinner hinnerNet hends

/-- A column `next` with the alias `value` keeps the `FROM` behind it in its item. -/
theorem outputItems_of_nextValue :
    ∃ inner outer, outputItems (sqlTokens "SELECT next value FROM t") =
      [inner ++ .word "FROM" :: outer] ∧ net inner = 0 := by
  have hts : sqlTokens "SELECT next value FROM t" = [.word "SELECT", .word "next", .word "value",
      .word "FROM", .word "t"] := (sqlTokens_ofList _).trans (by decide +kernel)
  refine ⟨[.word "next", .word "value"], [.word "t"], ?_, by decide⟩
  rw [hts]
  decide +kernel

end Provenance
