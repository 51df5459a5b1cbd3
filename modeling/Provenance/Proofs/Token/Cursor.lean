import Provenance.Proofs.Token.Groups
import Provenance.Token.Cursor

/-!
# Positions of a cursor

However a cursor is moved, it stays within its tokens and goes back only where it is told to. A
reading that finds nothing leaves it where it is, and one that finds something takes as many tokens
as the result is made of. A group is read up to the parenthesis that closes it.
-/

namespace Provenance

namespace Cursor

variable {c : Cursor}

theorem eq_of_position {d : Cursor} (htokens : c.tokens = d.tokens)
    (hposition : c.position = d.position) : c = d := by
  cases c
  cases d
  simp_all

theorem length_rest (c : Cursor) : c.rest.length = c.tokens.length - c.position :=
  List.length_drop

theorem take_append_rest (c : Cursor) : c.tokens = c.tokens.take c.position ++ c.rest :=
  (List.take_append_drop ..).symm

theorem length_take_position (c : Cursor) : (c.tokens.take c.position).length = c.position := by
  rw [List.length_take]
  exact Nat.min_eq_left c.position_le

theorem next?_eq_head? (c : Cursor) : c.next? = c.rest.head? := by
  rw [next?, ahead?, rest, List.head?_drop, Nat.add_zero]

/-! ## Moving on -/

theorem moveBefore_eq {left : List Token} {n : Nat} (h : left.length + n = c.rest.length) :
    c.moveBefore left = c.moveTo (c.position + n) ∧
      (c.moveBefore left).position = c.position + n := by
  have hposition : (c.moveBefore left).position = c.position + n := by
    have := c.position_le
    have := c.length_rest
    simp only [moveBefore]
    omega
  refine ⟨eq_of_position rfl ?_, hposition⟩
  have := (c.moveBefore left).position_le
  rw [hposition] at this ⊢
  exact (Nat.min_eq_left this).symm

theorem position_le_skip {f : List Token → List Token} (h : (f c.rest).length ≤ c.rest.length) :
    c.position ≤ (c.skip f).position := by
  obtain ⟨n, hn⟩ := Nat.exists_eq_add_of_le h
  have hmoved := (moveBefore_eq hn.symm).2
  rw [skip, hmoved]
  omega

theorem position_le_pass (c : Cursor) : c.position ≤ c.pass.position := by
  have := c.position_le
  simp only [pass, moveTo]
  omega

section Next

variable {t : Token} {left : List Token} (h : c.rest = t :: left)

include h

theorem drop_position_succ : c.tokens.drop (c.position + 1) = left :=
  calc c.tokens.drop (c.position + 1) = c.rest.drop 1 := List.drop_drop.symm
    _ = left := by rw [h, List.drop_one, List.tail_cons]

theorem position_pass : c.pass.position = c.position + 1 := by
  have hlength := c.length_rest
  rw [h, List.length_cons] at hlength
  simp only [pass, moveTo]
  omega

theorem rest_pass : c.pass.rest = left := by
  rw [rest, position_pass h]
  exact drop_position_succ h

theorem pass_eq_moveBefore : c.pass = c.moveBefore left := by
  have hlength := c.length_rest
  rw [h, List.length_cons] at hlength
  refine eq_of_position rfl ?_
  rw [position_pass h]
  simp only [moveBefore]
  omega

theorem take_position_pass :
    c.tokens.take c.pass.position = c.tokens.take c.position ++ [t] := by
  have hnext := c.next?_eq_head?
  rw [h] at hnext
  rw [position_pass h, List.take_add_one]
  congr 1
  exact congrArg Option.toList hnext

end Next

/-! ## Readings -/

/-- Whether what is read at a cursor is found exactly where the next token satisfies `p`, and takes
as many tokens as `width` says of it. A cursor at which nothing is found does not move. -/
structure IsReading {α : Type} (c : Cursor) (p : Token → Bool) (width : α → Nat)
    (r : Option α × Cursor) : Prop where
  finds : r.1.isSome = c.next?.any p
  tokens : r.2.tokens = c.tokens
  stays : r.1 = none → r.2 = c
  moves : ∀ a, r.1 = some a → r.2.position = c.position + width a

end Cursor

/-- Whether a reader finds something exactly where the first token satisfies `p`, and takes as many
tokens as `width` says of it. -/
structure Takes {α : Type} (reader : List Token → Option (α × List Token)) (p : Token → Bool)
    (width : α → Nat) : Prop where
  finds : ∀ ts, (reader ts).isSome = ts.head?.any p
  length : ∀ {ts a left}, reader ts = some (a, left) → left.length + width a = ts.length

theorem Takes.isReading {α : Type} {reader : List Token → Option (α × List Token)}
    {p : Token → Bool} {width : α → Nat} (h : Takes reader p width) (c : Cursor) :
    c.IsReading p width (c.read reader) := by
  have hfinds := h.finds c.rest
  rw [← c.next?_eq_head?] at hfinds
  unfold Cursor.read
  cases hread : reader c.rest with
  | none =>
    rw [hread] at hfinds
    exact ⟨hfinds, rfl, fun _ => rfl, by simp⟩
  | some found =>
    obtain ⟨a, left⟩ := found
    rw [hread] at hfinds
    refine ⟨hfinds, rfl, by simp, ?_⟩
    rintro _ ⟨⟩
    exact (Cursor.moveBefore_eq (h.length hread)).2

theorem takes_one {α : Type} {reader : List Token → Option (α × List Token)} {p : Token → Bool}
    (found : Token → α) (hnil : reader [] = none)
    (hcons : ∀ t ts, reader (t :: ts) = if p t then some (found t, ts) else none) :
    Takes reader p fun _ => 1 := by
  constructor
  · intro ts
    cases ts with
    | nil => rw [hnil]; rfl
    | cons t ts => cases ht : p t <;> simp [hcons, ht]
  · intro ts a left h
    cases ts with
    | nil => simp [hnil] at h
    | cons t ts =>
      rw [hcons, Option.ite_none_right_eq_some, Option.some.injEq, Prod.mk.injEq] at h
      obtain ⟨-, -, rfl⟩ := h
      rfl

theorem takes_afterKeyword? (k : Keyword) :
    Takes (fun ts => (afterKeyword? k ts).map ((), ·)) (Token.is k) fun _ => 1 := by
  refine takes_one (fun _ => ()) rfl fun t ts => ?_
  cases ht : t.is k <;> simp [afterKeyword?, ht]

theorem takes_afterMark? (s : Char) :
    Takes (fun ts => (afterMark? s ts).map ((), ·)) (Token.isMark s) fun _ => 1 := by
  refine takes_one (fun _ => ()) rfl fun t ts => ?_
  cases ht : t.isMark s <;> simp [afterMark?, ht]

theorem takes_identifier? : Takes identifier? Token.isName fun _ => 1 :=
  takes_one Token.text rfl fun _ _ => rfl

theorem length_dottedParts (ts : List Token) :
    (dottedParts ts).2.length + 2 * (dottedParts ts).1.length = ts.length := by
  fun_induction dottedParts ts with
  | case1 t part rest h tail ih =>
    simp only [List.length_cons, tail]
    omega
  | case2 => rfl
  | case3 => rfl

theorem exists_of_qualifiedName? {ts left : List Token} {parts : List String}
    (h : qualifiedName? ts = some (parts, left)) :
    ∃ first more rest, identifier? ts = some (first, rest) ∧ dottedParts rest = (more, left) ∧
      parts = first :: more := by
  unfold qualifiedName? at h
  obtain ⟨⟨first, rest⟩, hfirst, heq⟩ := Option.map_eq_some_iff.mp h
  obtain ⟨rfl, rfl⟩ := Prod.mk.inj heq
  exact ⟨first, _, rest, hfirst, rfl, rfl⟩

theorem takes_qualifiedName? :
    Takes qualifiedName? Token.isName fun parts => 2 * parts.length - 1 := by
  constructor
  · intro ts
    rw [qualifiedName?, Option.isSome_map]
    exact takes_identifier?.finds ts
  · intro ts parts left h
    obtain ⟨first, more, rest, hfirst, hmore, rfl⟩ := exists_of_qualifiedName? h
    have hrest := takes_identifier?.length hfirst
    have hleft := length_dottedParts rest
    rw [hmore] at hleft
    simp only [List.length_cons] at hleft ⊢
    omega

end Provenance
