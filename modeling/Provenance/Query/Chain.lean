import Provenance.Query.SelectItem

/-!
# Chains of names

A column stands in an expression as a chain of words joined by full stops. A chain is no column
if it is a variable, a number or a keyword, if it is called as a function, or if the tokens
around it make it the name of something else.
-/

namespace Provenance

/-- The functions whose first argument is a date part or a data type and no column. -/
def keywordArgumentFunctions : List String :=
  ["DATEADD", "DATEDIFF", "DATEDIFF_BIG", "DATENAME", "DATEPART", "DATETRUNC", "CONVERT",
   "TRY_CONVERT"]

/-- The words after the first one of a chain, and the tokens after the chain. -/
def chainTail : List Token → List Token × List Token
  | dot :: word :: rest =>
    if dot.isMark '.' && word.isWord then
      let tail := chainTail rest
      (word :: tail.1, tail.2)
    else ([], dot :: word :: rest)
  | ts => ([], ts)

theorem chainTail_length (ts : List Token) : (chainTail ts).2.length ≤ ts.length := by
  fun_induction chainTail ts with
  | case1 dot word rest h tail ih => exact Nat.le_succ_of_le (Nat.le_succ_of_le ih)
  | case2 => simp
  | case3 => simp

/-- A chain of words joined by full stops, in its place in an expression. -/
structure Chain where
  /-- The tokens before the chain, latest first. -/
  before : List Token
  first : Token
  rest : List Token

namespace Chain

def further (c : Chain) : List Token := (chainTail c.rest).1

def after (c : Chain) : List Token := (chainTail c.rest).2

/-- The tokens up to the end of the chain, latest first. -/
def passed (c : Chain) : List Token :=
  (c.first :: c.further.flatMap fun word => [.mark '.', word]).reverse ++ c.before

def bareNames (c : Chain) : List String :=
  (c.first :: c.further).map fun t => Identifier.bare t.text

/-- Whether the tokens before a chain, latest first, keep it from being a column: it names an
alias, a type or a table, or it is the first argument of a function that takes a keyword. -/
def excludedBy : List Token → Bool
  | [] => false
  | t :: before =>
    t.is .AS || t.is .FROM || t.is .JOIN || t.is .APPLY ||
      t.isMark '(' && before.head?.any fun f => keywordArgumentFunctions.any f.spells

/-- Whether a chain is called as a function or qualifies a wildcard. -/
def isContinued (c : Chain) : Bool := c.after.head?.any fun t => t.isMark '(' || t.isMark '.'

def isColumn (c : Chain) : Bool :=
  !(c.first.isVariable || c.first.isNumber || c.first.isReserved ||
    c.first.beginsWith (· == '$') || isPhraseWord c.before c.first c.rest ||
    c.isContinued || excludedBy c.before)

end Chain

/-- The chains of an expression. The tokens before it are given latest first. -/
def chains (before : List Token) : List Token → List Chain
  | [] => []
  | t :: rest =>
    if t.isWord then
      let chain : Chain := ⟨before, t, rest⟩
      chain :: chains chain.passed chain.after
    else chains (t :: before) rest
termination_by ts => ts.length
decreasing_by
  · exact Nat.lt_succ_of_le (chainTail_length rest)
  · exact Nat.lt_succ_self _

/-- Whether tokens are words that satisfy `isPart` with full stops between them. The last full
stop may have no word after it. -/
def isDotted (isPart : Token → Bool) : List Token → Bool
  | [] => true
  | [t] => isPart t
  | t :: dot :: rest => isPart t && dot.isMark '.' && isDotted isPart rest

/-- The name that an expression gives to its column by being a plain chain of names. -/
def impliedName? (expr : List Token) : Option String :=
  match expr.getLast? with
  | some last =>
    if isDotted Token.isPlainName expr && last.isWord then unlessEmpty (Identifier.bare last.text)
    else none
  | none => none

/-- The qualifier of a wildcard `q.*`, given latest token first. -/
def wildcardQualifier? (reversed : List Token) : Option (List Token) :=
  match reversed with
  | dot :: front =>
    if dot.isMark '.' && !front.isEmpty && isDotted Token.isWord front.reverse then
      some (front.reverse.filter Token.isWord)
    else none
  | [] => none

end Provenance
