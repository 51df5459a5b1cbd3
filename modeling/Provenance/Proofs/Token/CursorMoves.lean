import Provenance.Proofs.Token.Cursor

/-!
# Moves of a cursor

A group is read up to the parenthesis that closes it, and a search for that parenthesis with a count
of the open ones never has to close one too many. However a cursor is moved, it stays within its
tokens and goes back only where it is told to.
-/

namespace Provenance

namespace Cursor

variable {c : Cursor}

/-! ## Groups -/

/-- What is read of a group. Where the next token opens none, nothing is read. Otherwise it is what
stands between that token and the first parenthesis that closes it, or all the rest if none does. -/
inductive IsGroupReading (c : Cursor) : Option (List Token) × Cursor → Prop where
  | absent (hnext : c.next?.any (Token.isMark '(') = false) : IsGroupReading c (none, c)
  | closed {q : Nat} (hnext : c.next?.any (Token.isMark '(') = true)
      (hclosed : IsClosedAt c.tokens c.position q) :
      IsGroupReading c (some ((c.tokens.take q).drop (c.position + 1)), c.moveTo (q + 1))
  | unclosed (hnext : c.next?.any (Token.isMark '(') = true)
      (hunclosed : ∀ q, c.position < q → ¬ Balances c.tokens c.position q) :
      IsGroupReading c (some (c.tokens.drop (c.position + 1)), c.moveTo c.tokens.length)

theorem any_next?_of_rest {ts : List Token} (h : c.rest = .mark '(' :: ts) :
    c.next?.any (Token.isMark '(') = true := by
  rw [next?_eq_head?, h]
  rfl

theorem exists_rest_of_open (h : c.next?.any (Token.isMark '(') = true) :
    ∃ ts, c.rest = .mark '(' :: ts := by
  rw [next?_eq_head?] at h
  cases hrest : c.rest with
  | nil => simp [hrest] at h
  | cons t ts =>
    rw [hrest] at h
    exact ⟨ts, by rw [Token.eq_mark_of_isMark h]⟩

theorem read_group?_of_not_open (h : c.next?.any (Token.isMark '(') = false) :
    c.read group? = (none, c) := by
  rw [next?_eq_head?] at h
  unfold read
  cases hrest : c.rest with
  | nil => rfl
  | cons t ts =>
    rw [hrest] at h
    have ht : t.isMark '(' = false := h
    simp [group?, ht]

theorem read_group?_of_rest {ts : List Token} (h : c.rest = .mark '(' :: ts) :
    c.read group? = (some (splitGroup 0 ts).1, c.moveBefore (splitGroup 0 ts).2) := by
  rw [read, h]
  rfl

theorem isGroupReading_of_isBalanced {inner left : List Token}
    (h : c.rest = .mark '(' :: (inner ++ .mark ')' :: left)) (hinner : isBalanced inner = true) :
    c.IsGroupReading (some inner, c.moveBefore left) := by
  have hclosed : IsClosedAt c.tokens c.position (c.position + inner.length + 1) := by
    have hfront := isClosedAt_of_isBalanced (c.tokens.take c.position) hinner left
    rwa [← h, ← c.take_append_rest, c.length_take_position] at hfront
  have hinside : (c.tokens.take (c.position + inner.length + 1)).drop (c.position + 1) = inner := by
    rw [List.drop_take, drop_position_succ h,
      show c.position + inner.length + 1 - (c.position + 1) = inner.length by omega,
      List.take_left]
  have hmove : c.moveBefore left = c.moveTo (c.position + inner.length + 1 + 1) := by
    refine (moveBefore_eq (n := inner.length + 2) ?_).1
    rw [h]
    simp only [List.length_cons, List.length_append]
    omega
  have hgroup := IsGroupReading.closed (any_next?_of_rest h) hclosed
  rwa [hinside, ← hmove] at hgroup

theorem isGroupReading_of_unclosed {ts : List Token} (h : c.rest = .mark '(' :: ts)
    (hnet : ∀ front back, ts = front ++ back → 0 ≤ net front) :
    c.IsGroupReading (some ts, c.moveBefore []) := by
  have hunclosed : ∀ q, c.position < q → ¬ Balances c.tokens c.position q := by
    intro q hq
    rw [← c.length_take_position] at hq
    have hfront := not_balances hnet hq
    rwa [← h, ← c.take_append_rest, c.length_take_position] at hfront
  have hmove : c.moveBefore [] = c.moveTo c.tokens.length := by
    refine (moveBefore_eq (n := c.rest.length) (Nat.zero_add _)).1.trans ?_
    rw [c.length_rest, Nat.add_sub_cancel' c.position_le]
  have hgroup := IsGroupReading.unclosed (any_next?_of_rest h) hunclosed
  rwa [drop_position_succ h, ← hmove] at hgroup

theorem isGroupReading (c : Cursor) : c.IsGroupReading (c.read group?) := by
  cases hnext : c.next?.any (Token.isMark '(') with
  | false =>
    rw [read_group?_of_not_open hnext]
    exact .absent hnext
  | true =>
    obtain ⟨ts, hrest⟩ := exists_rest_of_open hnext
    rw [read_group?_of_rest hrest]
    rcases splitGroup_cases 0 ts with ⟨inner, left, rfl, hinner, hsplit⟩ | ⟨hnet, hsplit⟩
    · rw [hsplit]
      exact isGroupReading_of_isBalanced hrest hinner
    · rw [hsplit]
      refine isGroupReading_of_unclosed hrest fun front back hts => ?_
      simpa using hnet front back hts

/-- A group that nothing closes ends with the tokens. -/
example : ((start [.mark '(', .mark '(', .word "a", .mark ')', .word "b"]).read group?).1 =
    some [.mark '(', .word "a", .mark ')', .word "b"] := by
  decide

/-! ## Counting open parentheses -/

/-- The tokens from one place up to another, if the places are in order and not behind the end. -/
def slice? (ts : List Token) (start stop : Nat) : Option (List Token) :=
  if start ≤ stop ∧ stop ≤ ts.length then some ((ts.take stop).drop start) else none

theorem length_rest_pass {t : Token} (h : c.next? = some t) :
    c.pass.rest.length < c.rest.length := by
  rw [next?_eq_head?] at h
  obtain ⟨left, hrest⟩ := List.head?_eq_some_iff.mp h
  rw [rest_pass hrest, hrest]
  exact Nat.lt_succ_self _

/-- The search for the parenthesis that closes a group, token by token, with a count of those that
are open. The group begins at `start`. There is no outcome where one would be closed while none is
open, or where the tokens to be returned would be out of range. -/
def searchClose? (start depth : Nat) (c : Cursor) : Option (List Token × Cursor) :=
  match _h : c.next? with
  | none => (slice? c.tokens (min start c.tokens.length) c.tokens.length).map (·, c)
  | some t =>
    if t.isMark '(' then searchClose? start (depth + 1) c.pass
    else if t.isMark ')' then
      match depth with
      | 0 => none
      | 1 => (slice? c.tokens start c.position).map (·, c.pass)
      | outer + 2 => searchClose? start (outer + 1) c.pass
    else searchClose? start depth c.pass
termination_by c.rest.length
decreasing_by all_goals exact length_rest_pass _h

def countGroup? (c : Cursor) : Option (Option (List Token) × Cursor) :=
  if c.next?.any (Token.isMark '(') then
    (searchClose? (c.position + 1) 0 c).map fun found => (some found.1, found.2)
  else some (none, c)

theorem searchClose?_of_rest_nil {start depth : Nat} (h : c.rest = [])
    (hstart : start ≤ c.position) :
    searchClose? start depth c = some ((c.tokens.take c.position).drop start, c.moveBefore []) := by
  have hnext : c.next? = none := by rw [next?_eq_head?, h]; rfl
  have hlength := c.length_rest
  rw [h, List.length_nil] at hlength
  have hend : c.position = c.tokens.length := by
    have := c.position_le
    omega
  have hmove : c.moveBefore [] = c := eq_of_position rfl hend.symm
  unfold searchClose?
  split
  · rw [hmove, ← hend, Nat.min_eq_left hstart, slice?, if_pos ⟨hstart, c.position_le⟩]
    rfl
  · rename_i t ht
    rw [hnext] at ht
    cases ht

theorem searchClose?_of_rest_cons {start depth : Nat} {t : Token} {left : List Token}
    (h : c.rest = t :: left) :
    searchClose? start depth c =
      if t.isMark '(' then searchClose? start (depth + 1) c.pass
      else if t.isMark ')' then
        match depth with
        | 0 => none
        | 1 => (slice? c.tokens start c.position).map (·, c.pass)
        | outer + 2 => searchClose? start (outer + 1) c.pass
      else searchClose? start depth c.pass := by
  have hnext : c.next? = some t := by rw [next?_eq_head?, h]; rfl
  conv => lhs; unfold searchClose?
  split
  · rename_i hnone
    rw [hnext] at hnone
    cases hnone
  · rename_i u hu
    obtain rfl : t = u := Option.some.inj (hnext.symm.trans hu)
    rfl

/-- Where some parentheses are open, the search finds the group that is split off. -/
theorem searchClose?_eq {start depth : Nat} {ts : List Token} (h : c.rest = ts)
    (hstart : start ≤ c.position) :
    searchClose? start (depth + 1) c =
      some ((c.tokens.take c.position).drop start ++ (splitGroup depth ts).1,
        c.moveBefore (splitGroup depth ts).2) := by
  induction ts generalizing c depth with
  | nil =>
    rw [searchClose?_of_rest_nil h hstart, splitGroup, List.append_nil]
  | cons t ts ih =>
    have hposition := position_pass h
    have hpassed : (c.tokens.take c.pass.position).drop start =
        (c.tokens.take c.position).drop start ++ [t] := by
      rw [take_position_pass h, List.drop_append_of_le_length (by rwa [c.length_take_position])]
    -- The count stays above zero, by one more than the parentheses that `splitGroup` has to close.
    have hstep : ∀ {next : Nat}, searchClose? start (next + 1) c.pass =
        some ((c.tokens.take c.position).drop start ++ t :: (splitGroup next ts).1,
          c.moveBefore (splitGroup next ts).2) := by
      intro next
      rw [ih (rest_pass h) (by omega), show c.pass.tokens = c.tokens from rfl, hpassed,
        List.append_assoc, List.singleton_append]
      rfl
    rw [searchClose?_of_rest_cons h]
    unfold splitGroup
    by_cases hopen : t.isMark '(' = true
    · rw [if_pos hopen, if_pos hopen, hstep]
    rw [if_neg hopen, if_neg hopen]
    by_cases hclose : t.isMark ')' = true
    · rw [if_pos hclose, if_pos hclose]
      cases depth with
      | zero =>
        rw [slice?, if_pos ⟨hstart, c.position_le⟩, List.append_nil, pass_eq_moveBefore h]
        rfl
      | succ outer => exact hstep
    · rw [if_neg hclose, if_neg hclose, hstep]

/-- Counting never closes a parenthesis too many nor goes out of range, and finds the group. -/
theorem countGroup?_eq (c : Cursor) : c.countGroup? = some (c.read group?) := by
  unfold countGroup?
  cases hnext : c.next?.any (Token.isMark '(') with
  | false =>
    rw [read_group?_of_not_open hnext]
    rfl
  | true =>
    obtain ⟨ts, hrest⟩ := exists_rest_of_open hnext
    have hposition := position_pass hrest
    have hnone : (c.pass.tokens.take c.pass.position).drop (c.position + 1) = [] := by
      rw [hposition]
      exact List.drop_eq_nil_of_le (List.length_take_le _ _)
    have hfound : searchClose? (c.position + 1) (0 + 1) c.pass =
        some ((splitGroup 0 ts).1, c.moveBefore (splitGroup 0 ts).2) := by
      rw [searchClose?_eq (rest_pass hrest) (Nat.le_of_eq hposition.symm), hnone, List.nil_append]
      rfl
    rw [if_pos rfl, searchClose?_of_rest_cons hrest, if_pos (by decide), hfound,
      read_group?_of_rest hrest]
    rfl

/-! ## Moves -/

/-- What changes the position of a cursor. Looking at tokens does not. -/
inductive Move where
  | jump (n : Nat)
  | pass
  | keyword (k : Keyword)
  | mark (s : Char)
  | identifier
  | qualifiedName
  | group
  | skipGroup
  | skipTop
  deriving DecidableEq, Repr

def Move.apply (c : Cursor) : Move → Cursor
  | jump n => c.moveTo n
  | pass => c.pass
  | keyword k => (c.passKeyword k).2
  | mark s => (c.passMark s).2
  | identifier => (c.read identifier?).2
  | qualifiedName => (c.read qualifiedName?).2
  | group => (c.read group?).2
  | skipGroup => c.skip Provenance.skipGroup
  | skipTop => c.skip Provenance.skipTop

def Move.isJump : Move → Bool
  | jump _ => true
  | _ => false

def after (moves : List Move) (c : Cursor) : Cursor := moves.foldl Move.apply c

theorem IsReading.position_le {α : Type} {p : Token → Bool} {width : α → Nat}
    {r : Option α × Cursor} (h : c.IsReading p width r) : c.position ≤ r.2.position := by
  cases hr : r.1 with
  | none => exact Nat.le_of_eq (congrArg position (h.stays hr).symm)
  | some a =>
    rw [h.moves a hr]
    exact Nat.le_add_right ..

theorem IsGroupReading.tokens {r : Option (List Token) × Cursor} (h : c.IsGroupReading r) :
    r.2.tokens = c.tokens := by
  cases h <;> rfl

theorem IsGroupReading.position_le {r : Option (List Token) × Cursor} (h : c.IsGroupReading r) :
    c.position ≤ r.2.position := by
  have := c.position_le
  cases h with
  | absent => exact Nat.le_refl _
  | closed hnext hclosed =>
    have := hclosed.behind
    simp only [moveTo]
    omega
  | unclosed => simpa [moveTo] using this

theorem tokens_apply (c : Cursor) (m : Move) : (m.apply c).tokens = c.tokens := by
  cases m with
  | jump n => rfl
  | pass => rfl
  | keyword k => exact ((takes_afterKeyword? k).isReading c).tokens
  | mark s => exact ((takes_afterMark? s).isReading c).tokens
  | identifier => exact (takes_identifier?.isReading c).tokens
  | qualifiedName => exact (takes_qualifiedName?.isReading c).tokens
  | group => exact c.isGroupReading.tokens
  | skipGroup => rfl
  | skipTop => rfl

theorem position_le_apply {m : Move} (h : m.isJump = false) (c : Cursor) :
    c.position ≤ (m.apply c).position := by
  cases m with
  | jump n => cases h
  | pass => exact c.position_le_pass
  | keyword k => exact ((takes_afterKeyword? k).isReading c).position_le
  | mark s => exact ((takes_afterMark? s).isReading c).position_le
  | identifier => exact (takes_identifier?.isReading c).position_le
  | qualifiedName => exact (takes_qualifiedName?.isReading c).position_le
  | group => exact c.isGroupReading.position_le
  | skipGroup => exact position_le_skip (skipGroup_length _)
  | skipTop => exact position_le_skip (skipTop_length _)

theorem tokens_after (moves : List Move) (c : Cursor) : (c.after moves).tokens = c.tokens := by
  induction moves generalizing c with
  | nil => rfl
  | cons m moves ih => exact (ih (m.apply c)).trans (tokens_apply c m)

theorem position_le_after {moves : List Move} (h : ∀ m ∈ moves, m.isJump = false) (c : Cursor) :
    c.position ≤ (c.after moves).position := by
  induction moves generalizing c with
  | nil => exact Nat.le_refl _
  | cons m moves ih =>
    have hfirst := position_le_apply (h m (by simp)) c
    have hothers := ih (fun n hn => h n (List.mem_cons_of_mem m hn)) (m.apply c)
    exact Nat.le_trans hfirst hothers

/-- What holds of a cursor over some tokens wherever it stands. -/
structure IsOrderly (ts : List Token) (c : Cursor) : Prop where
  tokens : c.tokens = ts
  inside : c.position ≤ ts.length
  forward : ∀ moves : List Move, (∀ m ∈ moves, m.isJump = false) →
    c.position ≤ (c.after moves).position
  keyword : ∀ k, c.IsReading (Token.is k) (fun _ => 1) (c.passKeyword k)
  mark : ∀ s, c.IsReading (Token.isMark s) (fun _ => 1) (c.passMark s)
  identifier : c.IsReading Token.isName (fun _ => 1) (c.read identifier?)
  /-- A name takes its parts and the full stops between them. -/
  qualifiedName : c.IsReading Token.isName (fun parts => 2 * parts.length - 1)
    (c.read qualifiedName?)
  named : ∀ parts, (c.read qualifiedName?).1 = some parts → parts ≠ []
  ungrouped : c.read group? = (none, c) ↔ c.next?.any (Token.isMark '(') = false
  group : c.IsGroupReading (c.read group?)
  /-- Counting has an outcome, and it is the group. -/
  counted : c.countGroup? = some (c.read group?)

/-- A cursor is orderly after any moves from the start. -/
theorem isOrderly_after (ts : List Token) (moves : List Move) :
    IsOrderly ts ((start ts).after moves) := by
  have htokens : ((start ts).after moves).tokens = ts := tokens_after moves (start ts)
  generalize (start ts).after moves = c at htokens
  refine {
    tokens := htokens
    inside := htokens ▸ c.position_le
    forward := fun _ h => position_le_after h c
    keyword := fun k => (takes_afterKeyword? k).isReading c
    mark := fun s => (takes_afterMark? s).isReading c
    identifier := takes_identifier?.isReading c
    qualifiedName := takes_qualifiedName?.isReading c
    named := ?_
    ungrouped := ⟨?_, read_group?_of_not_open⟩
    group := c.isGroupReading
    counted := c.countGroup?_eq }
  · intro parts hparts
    unfold read at hparts
    split at hparts
    · rename_i a left hread
      obtain rfl := Option.some.inj hparts
      obtain ⟨first, more, -, -, -, rfl⟩ := exists_of_qualifiedName? hread
      exact List.cons_ne_nil first more
    · cases hparts
  · intro hnone
    cases hnext : c.next?.any (Token.isMark '(') with
    | false => rfl
    | true =>
      obtain ⟨ts, hrest⟩ := exists_rest_of_open hnext
      rw [read_group?_of_rest hrest] at hnone
      cases hnone

end Cursor

end Provenance
