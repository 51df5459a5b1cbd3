import Provenance.Mask
import Provenance.Text.Blank
import Provenance.Token.Basic

/-!
# Tokens of SQL text

White space separates tokens, a bracket or double quote opens a delimited name, and a run of
word characters is one word. Of the other characters the punctuation of SQL is kept and the
rest is dropped. Every text has tokens.
-/

namespace Provenance

def punctuation : List Char :=
  ['(', ')', ',', '.', '*', '=', ';', '+', '-', '/', '%', '<', '>', '!', '&', '|', '^', '~']

/-- The first token of a text that begins with `c`, if that character is kept, and the rest. -/
def nextToken (c : Char) (rest : List Char) : Option Token × List Char :=
  if Text.isBlank c then (none, rest)
  else if c = '[' || c = '"' then
    let tail := splitDelimited (if c = '[' then ']' else '"') rest
    (some (.delimited (String.ofList (c :: tail.1))), tail.2)
  else if Text.inWord c then
    (some (.word (String.ofList (c :: rest.takeWhile Text.inWord))),
      rest.dropWhile Text.inWord)
  else if punctuation.contains c then (some (.mark c), rest)
  else (none, rest)

theorem nextToken_length (c : Char) (rest : List Char) :
    (nextToken c rest).2.length ≤ rest.length := by
  unfold nextToken
  split
  · exact Nat.le_refl _
  split
  · have whole :=
      congrArg List.length (splitDelimited_append (if c = '[' then ']' else '"') rest)
    simp only [List.length_append] at whole
    simp only
    omega
  split
  · exact (List.dropWhile_suffix Text.inWord).length_le
  split <;> exact Nat.le_refl _

def lexChars : List Char → List Token
  | [] => []
  | c :: rest => (nextToken c rest).1.toList ++ lexChars (nextToken c rest).2
termination_by cs => cs.length
decreasing_by exact Nat.lt_succ_of_le (nextToken_length c rest)

/-- The tokens of a text taken as it stands, with nothing read as a literal or comment. -/
def lex (s : String) : List Token := lexChars s.toList

/-- The tokens of SQL text outside its literals and comments. -/
def sqlTokens (sql : String) : List Token := lex (mask sql)

end Provenance
