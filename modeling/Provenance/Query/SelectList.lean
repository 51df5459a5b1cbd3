import Provenance.Token.Reader

/-!
# Select lists

The select list of a statement is the one after its first `SELECT` outside parentheses, without
`DISTINCT`, `ALL` and a `TOP` clause in front of it. It ends before the clause that follows it,
and the commas outside parentheses split it into its items.
-/

namespace Provenance

/-- Splits tokens before the first `SELECT` outside parentheses. -/
def breakSelect (ts : List Token) : List Token × List Token :=
  breakOutside (Token.is .SELECT) ts

def selectPosition? (ts : List Token) : Option Nat :=
  match breakSelect ts with
  | (_, []) => none
  | (before, _ :: _) => some before.length

def listEnders : List Keyword :=
  [.FROM, .INTO, .WHERE, .GROUP, .ORDER, .HAVING, .UNION, .EXCEPT, .INTERSECT, .FOR]

/-- Whether a token outside parentheses begins the clause after a select list. -/
def endsList (t : Token) : Bool :=
  listEnders.any t.is || t.spells "OPTION" || t.isMark ';'

/-- Whether the tokens before, latest first, are `NEXT VALUE`. The keyword after them, properly
`FOR`, introduces a sequence and begins no clause. -/
def awaitsSequence : List Token → Bool
  | value :: next :: _ => next.spells "NEXT" && value.spells "VALUE"
  | _ => false

/-- The tokens up to the end of a select list: a clause, or a parenthesis that is not opened in
it. The tokens before them are given latest first, and `depth` parentheses are open. -/
def takeList (before : List Token) (depth : Nat) : List Token → List Token
  | [] => []
  | t :: rest =>
    if t.isMark '(' then t :: takeList (t :: before) (depth + 1) rest
    else if t.isMark ')' then
      match depth with
      | 0 => []
      | outer + 1 => t :: takeList (t :: before) outer rest
    else if depth = 0 && endsList t && !awaitsSequence before then []
    else t :: takeList (t :: before) depth rest

def isQuantifier (t : Token) : Bool := t.is .DISTINCT || t.is .ALL

def selectList (ts : List Token) : List Token :=
  match (breakSelect ts).2 with
  | [] => []
  | _ :: rest =>
    let list := skipTop (rest.dropWhile isQuantifier)
    takeList (ts.take (ts.length - list.length)).reverse 0 list

def outputItems (ts : List Token) : List (List Token) := splitCommas (selectList ts)

end Provenance
