import Provenance.Proofs.Token.Depth

/-!
# Where a group is closed

A group reaches up to the first closing parenthesis that balances the one at its front, and to the
end of the tokens if there is none.
-/

namespace Provenance

/-- Whether a closing parenthesis stands at `q`, and from the place `p` up to it as many are closed
as are opened. -/
def Balances (ts : List Token) (p q : Nat) : Prop :=
  ts[q]? = some (.mark ')') ∧ net ((ts.take (q + 1)).drop p) = 0

/-- Whether the parenthesis at `q` is the first one that balances the tokens from the place `p`. -/
structure IsClosedAt (ts : List Token) (p q : Nat) : Prop where
  behind : p < q
  balances : Balances ts p q
  first : ∀ r, p < r → r < q → ¬ Balances ts p r

/-- A group ends in front of the parenthesis that closes it, or it takes all tokens as none of them
does. -/
theorem splitGroup_cases (depth : Nat) (ts : List Token) :
    (∃ inner left, ts = inner ++ .mark ')' :: left ∧ balancedFrom depth inner = true ∧
      splitGroup depth ts = (inner, left)) ∨
    (∀ front back, ts = front ++ back → 0 ≤ depth + net front) ∧
      splitGroup depth ts = (ts, []) := by
  have hcons : ∀ {t : Token} {rest : List Token} {depth next : Nat},
      (depth : Int) + t.nesting = next →
      (∀ front back, rest = front ++ back → 0 ≤ next + net front) →
      ∀ front back, t :: rest = front ++ back → 0 ≤ depth + net front := by
    intro t rest depth next hnext hrest front back hsplit
    rcases List.cons_eq_append_iff.mp hsplit with ⟨rfl, -⟩ | ⟨more, rfl, hmore⟩
    · simp
    · have := hrest more back hmore
      rw [net_cons]
      omega
  fun_induction splitGroup depth ts with
  | case1 depth =>
    right
    refine ⟨fun front back hsplit => ?_, rfl⟩
    obtain ⟨rfl, -⟩ := List.append_eq_nil_iff.mp hsplit.symm
    simp
  | case2 depth t rest hopen tail ih =>
    rcases ih with ⟨inner, left, rfl, hinner, hsplit⟩ | ⟨hnet, hsplit⟩
    · refine .inl ⟨t :: inner, left, rfl, ?_, by simp [tail, hsplit]⟩
      simpa [balancedFrom, hopen] using hinner
    · exact .inr ⟨hcons (by simp [nesting_of_open hopen]) hnet, by simp [tail, hsplit]⟩
  | case3 t rest hopen hclose =>
    obtain rfl := Token.eq_mark_of_isMark hclose
    exact .inl ⟨[], rest, rfl, rfl, rfl⟩
  | case4 t rest hopen hclose outer tail ih =>
    rcases ih with ⟨inner, left, rfl, hinner, hsplit⟩ | ⟨hnet, hsplit⟩
    · refine .inl ⟨t :: inner, left, rfl, ?_, by simp [tail, hsplit]⟩
      simpa [balancedFrom, hopen, hclose] using hinner
    · have hnext : ((outer + 1 : Nat) : Int) + t.nesting = outer := by
        rw [nesting_of_close hopen hclose]
        omega
      exact .inr ⟨hcons hnext hnet, by simp [tail, hsplit]⟩
  | case5 depth t rest hopen hclose tail ih =>
    have hflat : t.nesting = 0 := nesting_of_isFlat (by simp [Token.isFlat, hopen, hclose])
    rcases ih with ⟨inner, left, rfl, hinner, hsplit⟩ | ⟨hnet, hsplit⟩
    · refine .inl ⟨t :: inner, left, rfl, ?_, by simp [tail, hsplit]⟩
      simpa [balancedFrom, hopen, hclose] using hinner
    · exact .inr ⟨hcons (by simp [hflat]) hnet, by simp [tail, hsplit]⟩

theorem splitGroup_inside {inner depth : Nat} {ts : List Token}
    (h : balancedFrom (inner + 1 + depth) ts = true) :
    ∃ group left, balancedFrom depth left = true ∧ left <:+ ts ∧
      ∀ rest, splitGroup inner (ts ++ rest) = (group, left ++ rest) := by
  rcases splitGroup_cases inner ts with ⟨group, left, rfl, hgroup, -⟩ | ⟨hnet, -⟩
  · refine ⟨group, left, ?_, ?_, fun rest => ?_⟩
    · rw [Nat.add_assoc, balancedFrom_add_append hgroup, Nat.add_comm] at h
      exact h
    · exact (List.suffix_cons _ left).trans (List.suffix_append group _)
    · rw [List.append_assoc, List.cons_append, splitGroup_of_balancedFrom hgroup]
  · have hall := hnet ts [] (List.append_nil ts).symm
    have hclosed := net_of_balancedFrom h
    omega

section Closed

variable {front ts : List Token}

theorem balances_iff (n : Nat) :
    Balances (front ++ .mark '(' :: ts) front.length (front.length + n + 1) ↔
      ts[n]? = some (.mark ')') ∧ net (ts.take (n + 1)) = -1 := by
  have hopen : (Token.mark '(').nesting = 1 := by decide
  have hslice : ((front ++ .mark '(' :: ts).take (front.length + n + 1 + 1)).drop front.length =
      .mark '(' :: ts.take (n + 1) := by
    rw [List.drop_take, List.drop_left,
      show front.length + n + 1 + 1 - front.length = n + 1 + 1 by omega, List.take_succ_cons]
  have hplace : (front ++ .mark '(' :: ts)[front.length + n + 1]? = ts[n]? := by
    rw [List.getElem?_append_right (by omega),
      show front.length + n + 1 - front.length = n + 1 by omega, List.getElem?_cons_succ]
  rw [Balances, hslice, hplace, net_cons, hopen]
  refine and_congr_right fun _ => ?_
  omega

theorem not_balances (h : ∀ inner back, ts = inner ++ back → 0 ≤ net inner) {q : Nat}
    (hq : front.length < q) : ¬ Balances (front ++ .mark '(' :: ts) front.length q := by
  obtain ⟨n, rfl⟩ : ∃ n, q = front.length + n + 1 := ⟨q - front.length - 1, by omega⟩
  rw [balances_iff]
  intro hbalances
  have := h _ _ (List.take_append_drop (n + 1) ts).symm
  omega

theorem isClosedAt_of_isBalanced (front : List Token) {inner : List Token}
    (h : isBalanced inner = true) (left : List Token) :
    IsClosedAt (front ++ .mark '(' :: (inner ++ .mark ')' :: left)) front.length
      (front.length + inner.length + 1) := by
  have hclose : (Token.mark ')').nesting = -1 := by decide
  refine ⟨by omega, ?_, ?_⟩
  · rw [balances_iff]
    have htake : (inner ++ .mark ')' :: left).take (inner.length + 1) = inner ++ [.mark ')'] := by
      rw [List.take_length_add_append, List.take_succ_cons, List.take_zero]
    refine ⟨by simp, ?_⟩
    rw [htake, net_append, net_of_isBalanced h, net_cons, hclose, net_nil]
    decide
  · intro r hfrom hto
    obtain ⟨n, rfl⟩ : ∃ n, r = front.length + n + 1 := ⟨r - front.length - 1, by omega⟩
    rw [balances_iff, List.take_append_of_le_length (by omega)]
    intro hbalances
    have := le_net_of_balancedFrom h (List.take_append_drop (n + 1) inner).symm
    omega

end Closed

end Provenance
