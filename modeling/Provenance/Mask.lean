import Provenance.Text.Word

/-!
# Masking literals and comments

String literals and comments are blanked out before a text is read, so that nothing in them is
taken for SQL. A text is cut into regions first; masking replaces the characters of a literal
or comment by spaces and keeps line breaks, so every character stays where it was. A region
that is never closed runs to the end of the text.
-/

namespace Provenance

/-- A stretch of SQL text of one lexical kind. -/
inductive Region where
  /-- A string literal with its quotes and, if it has one, its `N` prefix. -/
  | literal (text : List Char)
  /-- A comment from `--` up to the line break. -/
  | lineComment (text : List Char)
  /-- A comment from `/*` to the `*/` that closes it. -/
  | blockComment (text : List Char)
  /-- A name in brackets or double quotes. -/
  | delimited (text : List Char)
  | plain (c : Char)
  deriving DecidableEq, Repr

namespace Region

def text : Region → List Char
  | literal cs => cs
  | lineComment cs => cs
  | blockComment cs => cs
  | delimited cs => cs
  | plain c => [c]

/-- A line break stays and any other character becomes a space. -/
def blankOut (c : Char) : Char := if c == '\n' || c == '\r' then c else ' '

/-- The characters that stand for a region once literals and comments are blanked out. -/
def masked : Region → List Char
  | literal cs => cs.map blankOut
  | lineComment cs => cs.map blankOut
  | blockComment cs => cs.map blankOut
  | delimited cs => cs
  | plain c => [c]

end Region

/-- Splits the text after an opening delimiter behind the character that closes it. A closing
character written twice stands for itself and closes nothing. -/
def splitDelimited (close : Char) : List Char → List Char × List Char
  | [] => ([], [])
  | [c] => ([c], [])
  | c :: d :: rest =>
    if c = close then
      if d = close then
        let tail := splitDelimited close rest
        (c :: d :: tail.1, tail.2)
      else ([c], d :: rest)
    else
      let tail := splitDelimited close (d :: rest)
      (c :: tail.1, tail.2)

theorem splitDelimited_append (close : Char) (cs : List Char) :
    (splitDelimited close cs).1 ++ (splitDelimited close cs).2 = cs := by
  fun_induction splitDelimited close cs with
  | case1 => rfl
  | case2 => rfl
  | case3 rest tail ih => simp [tail, ih]
  | case4 => rfl
  | case5 c d rest hc tail ih => simp [tail, ih]

def inLine (c : Char) : Bool := c != '\n' && c != '\r'

/-- Splits a text before its first line break. -/
def splitLine (cs : List Char) : List Char × List Char :=
  (cs.takeWhile inLine, cs.dropWhile inLine)

theorem splitLine_append (cs : List Char) : (splitLine cs).1 ++ (splitLine cs).2 = cs := by
  exact List.takeWhile_append_dropWhile

/-- Splits the text inside a block comment behind the `*/` that closes it, with `depth` more
comments to be closed before it. -/
def splitBlock (depth : Nat) : List Char → List Char × List Char
  | '/' :: '*' :: rest =>
    let tail := splitBlock (depth + 1) rest
    ('/' :: '*' :: tail.1, tail.2)
  | '*' :: '/' :: rest =>
    match depth with
    | 0 => (['*', '/'], rest)
    | outer + 1 =>
      let tail := splitBlock outer rest
      ('*' :: '/' :: tail.1, tail.2)
  | c :: rest =>
    let tail := splitBlock depth rest
    (c :: tail.1, tail.2)
  | [] => ([], [])

theorem splitBlock_append (depth : Nat) (cs : List Char) :
    (splitBlock depth cs).1 ++ (splitBlock depth cs).2 = cs := by
  fun_induction splitBlock depth cs with
  | case1 depth rest tail ih => simp [tail, ih]
  | case2 => rfl
  | case3 rest outer tail ih => simp [tail, ih]
  | case4 depth c rest h₁ h₂ tail ih => simp [tail, ih]
  | case5 => rfl

/-- Cuts off the first region of a text that follows the character `before`. An `N` belongs to
a literal only if no word runs into it. -/
def nextRegion (before : Option Char) (c : Char) (rest : List Char) : Region × List Char :=
  match c, rest with
  | '\'', rest =>
    let tail := splitDelimited '\'' rest
    (.literal ('\'' :: tail.1), tail.2)
  | '-', '-' :: rest =>
    let tail := splitLine rest
    (.lineComment ('-' :: '-' :: tail.1), tail.2)
  | '/', '*' :: rest =>
    let tail := splitBlock 0 rest
    (.blockComment ('/' :: '*' :: tail.1), tail.2)
  | '[', rest =>
    let tail := splitDelimited ']' rest
    (.delimited ('[' :: tail.1), tail.2)
  | '"', rest =>
    let tail := splitDelimited '"' rest
    (.delimited ('"' :: tail.1), tail.2)
  | c, '\'' :: rest =>
    if (c = 'N' || c = 'n') && !before.any Text.inWord then
      let tail := splitDelimited '\'' rest
      (.literal (c :: '\'' :: tail.1), tail.2)
    else (.plain c, '\'' :: rest)
  | c, rest => (.plain c, rest)

/-- A region and what follows it make up the text. -/
theorem nextRegion_append (before : Option Char) (c : Char) (rest : List Char) :
    (nextRegion before c rest).1.text ++ (nextRegion before c rest).2 = c :: rest := by
  unfold nextRegion
  split
  case h_6 => split <;> simp [Region.text, splitDelimited_append]
  all_goals simp [Region.text, splitDelimited_append, splitLine_append, splitBlock_append]

theorem nextRegion_length (before : Option Char) (c : Char) (rest : List Char) :
    (nextRegion before c rest).2.length ≤ rest.length := by
  have whole := congrArg List.length (nextRegion_append before c rest)
  have filled : 0 < (nextRegion before c rest).1.text.length := by
    unfold nextRegion
    split
    case h_6 => split <;> simp [Region.text]
    all_goals simp [Region.text]
  simp only [List.length_append, List.length_cons] at whole
  omega

/-- The regions of a text that follows the character `before`. -/
def regionsFrom (before : Option Char) : List Char → List Region
  | [] => []
  | c :: rest =>
    (nextRegion before c rest).1 ::
      regionsFrom (nextRegion before c rest).1.text.getLast? (nextRegion before c rest).2
termination_by cs => cs.length
decreasing_by exact Nat.lt_succ_of_le (nextRegion_length before c rest)

def regions (s : String) : List Region := regionsFrom none s.toList

/-- A text with its literals and comments blanked out. -/
def mask (s : String) : String := String.ofList ((regions s).flatMap Region.masked)

end Provenance
