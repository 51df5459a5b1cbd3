import Provenance.Token.Basic

/-!
# Parentheses

Commas and keywords inside parentheses belong to a call or a subquery. The depth of a token is
the number of parentheses opened before it less the number closed; it is negative after a
parenthesis that closes nothing.
-/

namespace Provenance

/-- Splits tokens before the first one at depth zero that satisfies `stop`, if the first token
stands at `depth`. -/
def breakAt (stop : Token → Bool) (depth : Int) : List Token → List Token × List Token
  | [] => ([], [])
  | t :: rest =>
    if depth = 0 && stop t then ([], t :: rest)
    else
      let tail := breakAt stop (depth + t.nesting) rest
      (t :: tail.1, tail.2)

def breakOutside (stop : Token → Bool) (ts : List Token) : List Token × List Token :=
  breakAt stop 0 ts

/-- Splits tokens that stand inside parentheses at the one that closes them, which is dropped.
There are `depth` more parentheses to be closed before it. -/
def splitGroup (depth : Nat) : List Token → List Token × List Token
  | [] => ([], [])
  | t :: rest =>
    if t.isMark '(' then
      let tail := splitGroup (depth + 1) rest
      (t :: tail.1, tail.2)
    else if t.isMark ')' then
      match depth with
      | 0 => ([], rest)
      | outer + 1 =>
        let tail := splitGroup outer rest
        (t :: tail.1, tail.2)
    else
      let tail := splitGroup depth rest
      (t :: tail.1, tail.2)

/-- The tokens inside the parentheses that a list begins with, and those after them. A group
that is never closed takes all the rest. -/
def group? : List Token → Option (List Token × List Token)
  | [] => none
  | t :: rest => if t.isMark '(' then some (splitGroup 0 rest) else none

/-- The tokens after the parentheses that a list may begin with. -/
def skipGroup (ts : List Token) : List Token := ((group? ts).map Prod.snd).getD ts

/-- The tokens up to the first comma at depth zero and the pieces after it, if the first token
stands at `depth`. -/
def piecesFrom (depth : Int) : List Token → List Token × List (List Token)
  | [] => ([], [])
  | t :: rest =>
    if depth = 0 && t.isMark ',' then
      let tail := piecesFrom 0 rest
      ([], tail.1 :: tail.2)
    else
      let tail := piecesFrom (depth + t.nesting) rest
      (t :: tail.1, tail.2)

/-- Splits tokens at the commas outside parentheses. Empty pieces are left out. -/
def splitCommas (ts : List Token) : List (List Token) :=
  let pieces := piecesFrom 0 ts
  (pieces.1 :: pieces.2).filter fun piece => !piece.isEmpty

theorem splitGroup_length (depth : Nat) (ts : List Token) :
    (splitGroup depth ts).2.length ≤ ts.length := by
  fun_induction splitGroup depth ts with
  | case1 => simp
  | case2 depth t rest hopen tail ih => simpa [tail] using Nat.le_succ_of_le ih
  | case3 t rest hopen hclose => simp
  | case4 t rest hopen hclose outer tail ih => simpa [tail] using Nat.le_succ_of_le ih
  | case5 depth t rest hopen hclose tail ih => simpa [tail] using Nat.le_succ_of_le ih

theorem skipGroup_length (ts : List Token) : (skipGroup ts).length ≤ ts.length := by
  unfold skipGroup group?
  cases ts with
  | nil => simp
  | cons t rest =>
    by_cases h : t.isMark '('
    · simpa [h] using Nat.le_succ_of_le (splitGroup_length 0 rest)
    · simp [h]

end Provenance
