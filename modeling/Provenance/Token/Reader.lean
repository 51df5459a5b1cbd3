import Provenance.Token.Group

/-!
# Reading names and clauses

A reader takes tokens from the front of a list and gives back the rest. Where it finds nothing
to read it takes nothing.
-/

namespace Provenance

/-- The tokens after the keyword `k`, if they begin with it. -/
def afterKeyword? (k : Keyword) : List Token → Option (List Token)
  | t :: rest => if t.is k then some rest else none
  | [] => none

def afterMark? (c : Char) : List Token → Option (List Token)
  | t :: rest => if t.isMark c then some rest else none
  | [] => none

/-- The tokens after the keyword `k`, or all of them if they do not begin with it. -/
def skipKeyword (k : Keyword) (ts : List Token) : List Token := (afterKeyword? k ts).getD ts

/-- An identifier as it is written, and the tokens after it. -/
def identifier? : List Token → Option (String × List Token)
  | t :: rest => if t.isName then some (t.text, rest) else none
  | [] => none

/-- The parts of a name that follow its first one. Each stands after a full stop and is a word
of any kind but a number. -/
def dottedParts : List Token → List String × List Token
  | t :: part :: rest =>
    if t.isMark '.' && part.isWord && !part.isNumber then
      let tail := dottedParts rest
      (part.text :: tail.1, tail.2)
    else ([], t :: part :: rest)
  | ts => ([], ts)

/-- The parts of a qualified name as they are written, and the tokens after it. -/
def qualifiedName? (ts : List Token) : Option (List String × List Token) :=
  (identifier? ts).map fun (first, rest) =>
    let tail := dottedParts rest
    (first :: tail.1, tail.2)

/-- The tokens after `TOP (n)` or `TOP n`, with or without `PERCENT` and `WITH TIES`. -/
def skipTop (ts : List Token) : List Token :=
  match afterKeyword? .TOP ts with
  | none => ts
  | some rest =>
    let counted := ((group? rest).map Prod.snd).getD (rest.drop 1)
    match skipKeyword .PERCENT counted with
    | t :: u :: rest => if t.is .WITH && u.spells "TIES" then rest else t :: u :: rest
    | rest => rest

theorem afterKeyword?_length {k : Keyword} {ts rest : List Token}
    (h : afterKeyword? k ts = some rest) : rest.length < ts.length := by
  cases ts with
  | nil => simp [afterKeyword?] at h
  | cons t rest' =>
    simp only [afterKeyword?, Option.ite_none_right_eq_some, Option.some.injEq] at h
    simp [← h.2]

theorem afterMark?_length {c : Char} {ts rest : List Token} (h : afterMark? c ts = some rest) :
    rest.length < ts.length := by
  cases ts with
  | nil => simp [afterMark?] at h
  | cons t rest' =>
    simp only [afterMark?, Option.ite_none_right_eq_some, Option.some.injEq] at h
    simp [← h.2]

theorem skipKeyword_length (k : Keyword) (ts : List Token) :
    (skipKeyword k ts).length ≤ ts.length := by
  unfold skipKeyword
  cases h : afterKeyword? k ts with
  | none => simp
  | some rest => simpa using Nat.le_of_lt (afterKeyword?_length h)

theorem identifier?_length {ts rest : List Token} {name : String}
    (h : identifier? ts = some (name, rest)) : rest.length < ts.length := by
  cases ts with
  | nil => simp [identifier?] at h
  | cons t rest' =>
    simp only [identifier?, Option.ite_none_right_eq_some, Option.some.injEq,
      Prod.mk.injEq] at h
    simp [← h.2.2]

theorem dottedParts_length (ts : List Token) : (dottedParts ts).2.length ≤ ts.length := by
  fun_induction dottedParts ts with
  | case1 t part rest h tail ih =>
    exact Nat.le_succ_of_le (Nat.le_succ_of_le ih)
  | case2 => simp
  | case3 => simp

theorem qualifiedName?_length {ts rest : List Token} {parts : List String}
    (h : qualifiedName? ts = some (parts, rest)) : rest.length < ts.length := by
  unfold qualifiedName? at h
  obtain ⟨⟨first, tail⟩, hfirst, heq⟩ := Option.map_eq_some_iff.1 h
  have shorter := identifier?_length hfirst
  have tailShorter := dottedParts_length tail
  simp only [Prod.mk.injEq] at heq
  rw [← heq.2]
  omega

theorem skipTop_length (ts : List Token) : (skipTop ts).length ≤ ts.length := by
  unfold skipTop
  split
  · exact Nat.le_refl _
  · rename_i rest h
    have shorter := afterKeyword?_length h
    have counted : (((group? rest).map Prod.snd).getD (rest.drop 1)).length ≤ rest.length := by
      have whole := skipGroup_length rest
      unfold skipGroup at whole
      cases hg : group? rest with
      | none => simp
      | some g => simpa [hg] using whole
    have percent :=
      skipKeyword_length .PERCENT (((group? rest).map Prod.snd).getD (rest.drop 1))
    simp only
    split
    · rename_i t u rest' heq
      rw [heq] at percent
      simp only [List.length_cons] at percent
      split <;> simp <;> omega
    · omega

end Provenance
