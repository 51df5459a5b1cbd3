import Provenance.Token.Group

/-!
# Depth of parentheses

Every reader counts parentheses for itself. What they share is the net number of parentheses
that a stretch of tokens opens, and the tokens of the stretch that stand outside all of them.
-/

namespace Provenance

/-- How many more parentheses tokens open than they close. -/
def net : List Token → Int
  | [] => 0
  | t :: ts => t.nesting + net ts

@[simp] theorem net_nil : net [] = 0 := rfl

@[simp] theorem net_cons (t : Token) (ts : List Token) : net (t :: ts) = t.nesting + net ts := rfl

@[simp] theorem net_append (ts us : List Token) : net (ts ++ us) = net ts + net us := by
  induction ts with
  | nil => simp
  | cons t ts ih => rw [List.cons_append, net_cons, ih, net_cons, Int.add_assoc]

/-- Whether tokens close the `depth` parentheses that are open before them and all that they
open, and never one more. -/
def balancedFrom (depth : Nat) : List Token → Bool
  | [] => depth == 0
  | t :: rest =>
    if t.isMark '(' then balancedFrom (depth + 1) rest
    else if t.isMark ')' then
      match depth with
      | 0 => false
      | outer + 1 => balancedFrom outer rest
    else balancedFrom depth rest

def isBalanced (ts : List Token) : Bool := balancedFrom 0 ts

/-- The tokens outside parentheses, if the first token stands at `depth`. -/
def outside (depth : Int) : List Token → List Token
  | [] => []
  | t :: rest =>
    if depth = 0 then t :: outside (depth + t.nesting) rest
    else outside (depth + t.nesting) rest

def Token.isFlat (t : Token) : Bool := !t.isMark '(' && !t.isMark ')'

theorem Token.isFlat_of_isWord {t : Token} (h : t.isWord = true) : t.isFlat = true := by
  cases t with
  | word w => rfl
  | delimited d => rfl
  | mark c => simp [Token.isWord] at h

theorem Token.isFlat_of_is {t : Token} {k : Keyword} (h : t.is k = true) : t.isFlat = true := by
  cases t with
  | word w => rfl
  | delimited d => rfl
  | mark c => simp [Token.is, Token.keyword?] at h

theorem Token.eq_mark_of_isMark {t : Token} {c : Char} (h : t.isMark c = true) : t = .mark c := by
  cases t with
  | mark d => exact congrArg Token.mark (beq_iff_eq.mp h)
  | word w => simp [Token.isMark] at h
  | delimited d => simp [Token.isMark] at h

theorem Token.isFlat_of_isMark {t : Token} {c : Char} (h : t.isMark c = true) (hopen : c ≠ '(')
    (hclose : c ≠ ')') : t.isFlat = true := by
  obtain rfl := Token.eq_mark_of_isMark h
  simp [Token.isFlat, Token.isMark, hopen, hclose]

theorem nesting_of_open {t : Token} (h : t.isMark '(' = true) : t.nesting = 1 := by
  simp [Token.nesting, h]

theorem nesting_of_close {t : Token} (hopen : ¬ t.isMark '(' = true)
    (hclose : t.isMark ')' = true) : t.nesting = -1 := by
  simp [Token.nesting, hopen, hclose]

theorem nesting_of_isFlat {t : Token} (h : t.isFlat = true) : t.nesting = 0 := by
  simp only [Token.isFlat, Bool.and_eq_true, Bool.not_eq_true'] at h
  simp [Token.nesting, h.1, h.2]

@[simp] theorem nesting_comma : (Token.mark ',').nesting = 0 := by decide

theorem net_of_balancedFrom {depth : Nat} {ts : List Token} (h : balancedFrom depth ts = true) :
    net ts = -depth := by
  fun_induction balancedFrom depth ts with
  | case1 depth =>
    obtain rfl : depth = 0 := by simpa using h
    rfl
  | case2 depth t rest hopen ih =>
    rw [net_cons, nesting_of_open hopen, ih h]
    omega
  | case3 t rest hopen hclose => simp at h
  | case4 t rest hopen hclose outer ih =>
    rw [net_cons, nesting_of_close hopen hclose, ih h]
    omega
  | case5 depth t rest hopen hclose ih =>
    rw [net_cons, nesting_of_isFlat (by simp [Token.isFlat, hopen, hclose]), ih h]
    omega

theorem net_of_isBalanced {ts : List Token} (h : isBalanced ts = true) : net ts = 0 :=
  net_of_balancedFrom h

theorem le_net_of_balancedFrom {depth : Nat} {ts : List Token}
    (h : balancedFrom depth ts = true) {front back : List Token} (hts : ts = front ++ back) :
    0 ≤ depth + net front := by
  induction front generalizing depth ts with
  | nil =>
    rw [net_nil]
    omega
  | cons t front ih =>
    subst hts
    rw [List.cons_append] at h
    unfold balancedFrom at h
    rw [net_cons]
    split at h
    · rename_i hopen
      have htail := ih h rfl
      rw [nesting_of_open hopen]
      omega
    split at h
    · rename_i hopen hclose
      rw [nesting_of_close hopen hclose]
      cases depth with
      | zero => simp at h
      | succ outer =>
        have htail := ih h rfl
        omega
    · rename_i hopen hclose
      have htail := ih h rfl
      rw [nesting_of_isFlat (by simp [Token.isFlat, hopen, hclose])]
      omega

/-- Behind tokens that close the parentheses which are open before them, the others are still to be
closed. -/
theorem balancedFrom_add_append {depth : Nat} {ts : List Token} (h : balancedFrom depth ts = true)
    (outer : Nat) (us : List Token) :
    balancedFrom (depth + outer) (ts ++ us) = balancedFrom outer us := by
  fun_induction balancedFrom depth ts with
  | case1 depth =>
    obtain rfl : depth = 0 := by simpa using h
    rw [Nat.zero_add, List.nil_append]
  | case2 depth t rest hopen ih =>
    rw [← ih h, Nat.add_right_comm]
    simp [balancedFrom, hopen]
  | case3 t rest hopen hclose => simp at h
  | case4 t rest hopen hclose inner ih =>
    rw [← ih h, Nat.succ_add]
    simp [balancedFrom, hopen, hclose]
  | case5 depth t rest hopen hclose ih =>
    rw [← ih h]
    simp [balancedFrom, hopen, hclose]

theorem balancedFrom_append {depth : Nat} {ts us : List Token} (hts : balancedFrom depth ts = true)
    (hus : isBalanced us = true) : balancedFrom depth (ts ++ us) = true :=
  (balancedFrom_add_append hts 0 us).trans hus

theorem isBalanced_append {ts us : List Token} (hts : isBalanced ts = true)
    (hus : isBalanced us = true) : isBalanced (ts ++ us) = true :=
  balancedFrom_append hts hus

theorem isBalanced_of_isFlat {ts : List Token} (h : ∀ t ∈ ts, t.isFlat = true) :
    isBalanced ts = true := by
  induction ts with
  | nil => rfl
  | cons t ts ih =>
    have ht := h t (by simp)
    simp only [Token.isFlat, Bool.and_eq_true, Bool.not_eq_true'] at ht
    have hts := ih fun u hu => h u (by simp [hu])
    simpa [isBalanced, balancedFrom, ht.1, ht.2] using hts

theorem outside_subset {depth : Int} {ts : List Token} : outside depth ts ⊆ ts := by
  fun_induction outside depth ts with
  | case1 => simp
  | case2 t rest ih => exact List.cons_subset_cons t ih
  | case3 depth t rest hdepth ih => exact List.subset_cons_of_subset t ih

theorem outside_append (depth : Int) (ts us : List Token) :
    outside depth (ts ++ us) = outside depth ts ++ outside (depth + net ts) us := by
  fun_induction outside depth ts with
  | case1 depth => simp
  | case2 t rest ih => simpa [outside, Int.add_assoc] using ih
  | case3 depth t rest hdepth ih => simpa [outside, hdepth, Int.add_assoc] using ih

theorem outside_of_isFlat {depth : Int} (hdepth : depth ≠ 0) {ts : List Token}
    (h : ∀ t ∈ ts, t.isFlat = true) : outside depth ts = [] := by
  induction ts with
  | nil => rfl
  | cons t ts ih =>
    rw [outside, if_neg hdepth, nesting_of_isFlat (h t (by simp)), Int.add_zero]
    exact ih fun u hu => h u (List.mem_cons_of_mem t hu)

theorem mem_outside_of_mem_head?_filter {keep : Token → Bool} {ts : List Token}
    (hdropped : ∀ t ∈ ts, keep t = false → t.isFlat = true) :
    ∀ t ∈ (ts.filter keep).head?, t ∈ outside 0 ts := by
  induction ts with
  | nil => simp
  | cons u ts ih =>
    intro t ht
    rw [outside, if_pos rfl]
    cases hkeep : keep u with
    | true =>
      obtain rfl : u = t := by simpa [hkeep] using ht
      exact List.mem_cons_self
    | false =>
      have htail := ih fun v hv => hdropped v (List.mem_cons_of_mem u hv)
      rw [nesting_of_isFlat (hdropped u (by simp) hkeep), Int.add_zero]
      rw [List.filter_cons_of_neg (by simp [hkeep])] at ht
      exact List.mem_cons_of_mem u (htail t ht)

/-! ## Pieces joined by commas -/

theorem joined_cons_cons (piece next : List Token) (pieces : List (List Token)) :
    [Token.mark ','].intercalate (piece :: next :: pieces) =
      piece ++ .mark ',' :: [Token.mark ','].intercalate (next :: pieces) := by
  simp [List.intercalate]

theorem forall_mem_joined {p : Token → Prop} (hcomma : p (.mark ',')) {pieces : List (List Token)}
    (h : ∀ piece ∈ pieces, ∀ t ∈ piece, p t) : ∀ t ∈ [Token.mark ','].intercalate pieces, p t := by
  induction pieces with
  | nil => simp [List.intercalate]
  | cons piece pieces ih =>
    cases pieces with
    | nil => simpa [List.intercalate] using h
    | cons next pieces =>
      have htail := ih fun p hp => h p (List.mem_cons_of_mem _ hp)
      intro t ht
      rw [joined_cons_cons] at ht
      rcases List.mem_append.mp ht with ht | ht
      · exact h piece (by simp) t ht
      · rcases List.mem_cons.mp ht with rfl | ht
        · exact hcomma
        · exact htail t ht

theorem joined_concat (pieces : List (List Token)) (last : List Token) :
    ∃ front, [Token.mark ','].intercalate (pieces ++ [last]) = front ++ last ∧
      (front = [] ∨ ∃ more, front = more ++ [.mark ',']) := by
  induction pieces with
  | nil => exact ⟨[], by simp [List.intercalate], .inl rfl⟩
  | cons piece pieces ih =>
    obtain ⟨front, hfront, hcomma⟩ := ih
    obtain ⟨next, tail, hnext⟩ : ∃ next tail, pieces ++ [last] = next :: tail := by
      cases pieces <;> simp
    refine ⟨piece ++ .mark ',' :: front, ?_, .inr ?_⟩
    · rw [List.cons_append, hnext, joined_cons_cons, ← hnext, hfront]
      simp
    · rcases hcomma with rfl | ⟨more, rfl⟩
      · exact ⟨piece, rfl⟩
      · exact ⟨piece ++ .mark ',' :: more, by simp⟩

/-- Commas between balanced pieces stand outside parentheses, and what stands outside them in a
piece does so in the whole. -/
theorem isBalanced_joined {P : Token → Prop} (hcomma : P (.mark ','))
    {pieces : List (List Token)} (hbalanced : ∀ p ∈ pieces, isBalanced p = true)
    (houtside : ∀ p ∈ pieces, ∀ t ∈ outside 0 p, P t) :
    isBalanced ([Token.mark ','].intercalate pieces) = true ∧
      ∀ t ∈ outside 0 ([Token.mark ','].intercalate pieces), P t := by
  induction pieces with
  | nil => exact ⟨rfl, by simp [List.intercalate, outside]⟩
  | cons piece pieces ih =>
    obtain ⟨htail, htailOutside⟩ := ih (fun p hp => hbalanced p (List.mem_cons_of_mem _ hp))
      (fun p hp => houtside p (List.mem_cons_of_mem _ hp))
    cases pieces with
    | nil => simpa [List.intercalate] using ⟨hbalanced piece (by simp), houtside piece (by simp)⟩
    | cons next pieces =>
      have hpiece := hbalanced piece (by simp)
      have hmark : ∀ ts, isBalanced ts = true → isBalanced (.mark ',' :: ts) = true := fun _ h => h
      rw [joined_cons_cons]
      refine ⟨isBalanced_append hpiece (hmark _ htail), ?_⟩
      intro t ht
      rw [outside_append, net_of_isBalanced hpiece, Int.add_zero] at ht
      rcases List.mem_append.mp ht with ht | ht
      · exact houtside piece (by simp) t ht
      · rw [outside, if_pos rfl, nesting_comma, Int.add_zero] at ht
        rcases List.mem_cons.mp ht with rfl | ht
        · exact hcomma
        · exact htailOutside t ht

/-! ## Readers that count parentheses -/

theorem splitGroup_of_balancedFrom {depth : Nat} {ts : List Token}
    (h : balancedFrom depth ts = true) (rest : List Token) :
    splitGroup depth (ts ++ .mark ')' :: rest) = (ts, rest) := by
  fun_induction balancedFrom depth ts with
  | case1 depth =>
    obtain rfl : depth = 0 := by simpa using h
    rfl
  | case2 depth t rest' hopen ih => simp [splitGroup, hopen, ih h]
  | case3 t rest' hopen hclose => simp at h
  | case4 t rest' hopen hclose outer ih => simp [splitGroup, hopen, hclose, ih h]
  | case5 depth t rest' hopen hclose ih => simp [splitGroup, hopen, hclose, ih h]

theorem group?_of_isBalanced {ts : List Token} (h : isBalanced ts = true) (rest : List Token) :
    group? (.mark '(' :: (ts ++ .mark ')' :: rest)) = some (ts, rest) := by
  have hopen : (Token.mark '(').isMark '(' = true := by decide
  rw [group?, if_pos hopen, splitGroup_of_balancedFrom h]

theorem breakAt_append {stop : Token → Bool} {depth : Int} {ts : List Token}
    (h : ∀ t ∈ outside depth ts, stop t = false) (rest : List Token) :
    breakAt stop depth (ts ++ rest) =
      (ts ++ (breakAt stop (depth + net ts) rest).1, (breakAt stop (depth + net ts) rest).2) := by
  induction ts generalizing depth with
  | nil => simp
  | cons t ts ih =>
    rw [outside] at h
    have htail : ∀ u ∈ outside (depth + t.nesting) ts, stop u = false := by
      intro u hu
      apply h
      split
      · exact List.mem_cons_of_mem t hu
      · exact hu
    have hstop : (depth = 0 && stop t) = false := by
      by_cases hdepth : depth = 0
      · rw [if_pos hdepth] at h
        simp [h t (by simp)]
      · simp [hdepth]
    rw [List.cons_append, breakAt, hstop]
    simp only [Bool.false_eq_true, if_false, ih htail, net_cons, Int.add_assoc, List.cons_append]

theorem breakAt_fst_append_snd (stop : Token → Bool) (depth : Int) (ts : List Token) :
    (breakAt stop depth ts).1 ++ (breakAt stop depth ts).2 = ts := by
  fun_induction breakAt stop depth ts with
  | case1 depth => rfl
  | case2 depth t rest hstop => rfl
  | case3 depth t rest hstop tail ih => rw [List.cons_append, ih]

theorem outside_breakOutside_subset (stop : Token → Bool) (ts : List Token) :
    outside 0 (breakOutside stop ts).1 ⊆ outside 0 ts := by
  intro t ht
  rw [← breakAt_fst_append_snd stop 0 ts, outside_append]
  exact List.mem_append_left _ ht

theorem piecesFrom_append {depth : Int} {ts : List Token}
    (h : ∀ t ∈ outside depth ts, t.isMark ',' = false) (rest : List Token) :
    piecesFrom depth (ts ++ rest) =
      (ts ++ (piecesFrom (depth + net ts) rest).1, (piecesFrom (depth + net ts) rest).2) := by
  induction ts generalizing depth with
  | nil => simp
  | cons t ts ih =>
    rw [outside] at h
    have htail : ∀ u ∈ outside (depth + t.nesting) ts, u.isMark ',' = false := by
      intro u hu
      apply h
      split
      · exact List.mem_cons_of_mem t hu
      · exact hu
    have hcomma : (depth = 0 && t.isMark ',') = false := by
      by_cases hdepth : depth = 0
      · rw [if_pos hdepth] at h
        simp [h t (by simp)]
      · simp [hdepth]
    rw [List.cons_append, piecesFrom, hcomma]
    simp only [Bool.false_eq_true, if_false, ih htail, net_cons, Int.add_assoc, List.cons_append]

/-- Whether tokens are a piece between commas: there are some, their parentheses match and no
comma stands outside them. -/
def isPiece (ts : List Token) : Bool :=
  !ts.isEmpty && isBalanced ts && (outside 0 ts).all fun t => !t.isMark ','

theorem piecesFrom_intercalate {piece : List Token} {pieces : List (List Token)}
    (h : ∀ p ∈ piece :: pieces, isPiece p = true) :
    piecesFrom 0 ([Token.mark ','].intercalate (piece :: pieces)) = (piece, pieces) := by
  have hcomma : ∀ p ∈ piece :: pieces, ∀ t ∈ outside 0 p, t.isMark ',' = false := by
    intro p hp t ht
    have := h p hp
    simp only [isPiece, Bool.and_eq_true, List.all_eq_true, Bool.not_eq_true'] at this
    exact this.2 t ht
  have hnet : ∀ p ∈ piece :: pieces, net p = 0 := by
    intro p hp
    have := h p hp
    simp only [isPiece, Bool.and_eq_true] at this
    exact net_of_isBalanced this.1.2
  induction pieces generalizing piece with
  | nil =>
    have hpiece := piecesFrom_append (hcomma piece (by simp)) []
    simpa [piecesFrom, List.intercalate] using hpiece
  | cons next pieces ih =>
    have htail := ih (fun p hp => h p (List.mem_cons_of_mem _ hp))
      (fun p hp => hcomma p (List.mem_cons_of_mem _ hp))
      (fun p hp => hnet p (List.mem_cons_of_mem _ hp))
    have hpiece := piecesFrom_append (hcomma piece (by simp))
      (.mark ',' :: [Token.mark ','].intercalate (next :: pieces))
    rw [joined_cons_cons, hpiece, hnet piece (by simp), Int.add_zero, piecesFrom]
    simp [Token.isMark, htail]

theorem splitCommas_intercalate {pieces : List (List Token)}
    (h : ∀ p ∈ pieces, isPiece p = true) :
    splitCommas ([Token.mark ','].intercalate pieces) = pieces := by
  cases pieces with
  | nil => rfl
  | cons piece pieces =>
    rw [splitCommas, piecesFrom_intercalate h]
    apply List.filter_eq_self.mpr
    intro p hp
    have hp := h p hp
    simp only [isPiece, Bool.and_eq_true] at hp
    exact hp.1.1

end Provenance
