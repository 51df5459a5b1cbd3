import Provenance.Json.Basic
import Provenance.Text.Surrogate

/-!
# Lexemes of JSON

JSON text is read as punctuation marks, string literals and other scalars, with spaces, tabs
and line breaks between them. Reading fails on a control character or an unknown escape in a
literal, on a number with a superfluous zero, and on anything else that is no lexeme.
-/

namespace Provenance

namespace Json

inductive Lexeme where
  | mark (c : Char)
  | string (literal : Literal)
  | scalar (value : Json)
  deriving Repr

/-- Whether a character may stand between lexemes. -/
def isSpace (c : Char) : Bool := c == ' ' || c == '\t' || c == '\n' || c == '\r'

def hexDigit? (c : Char) : Option Nat :=
  if c.isDigit then some (c.toNat - '0'.toNat)
  else if 'a' ≤ c && c ≤ 'f' then some (c.toNat - 'a'.toNat + 10)
  else if 'A' ≤ c && c ≤ 'F' then some (c.toNat - 'A'.toNat + 10)
  else none

def hexValue? (cs : List Char) : Option Nat :=
  cs.foldlM (fun n c => (hexDigit? c).map (16 * n + ·)) 0

/-- The code point that a one-letter escape stands for. -/
def escapedCode? (c : Char) : Option Nat :=
  match c with
  | '"' => some 0x22
  | '\\' => some 0x5C
  | '/' => some 0x2F
  | 'b' => some 0x8
  | 'f' => some 0xC
  | 'n' => some 0xA
  | 'r' => some 0xD
  | 't' => some 0x9
  | _ => none

/-- The codes of a string literal up to its closing quote, and the text after it. A code is a
code point or an escaped surrogate. -/
def literalCodes? : List Char → Option (List Nat × List Char)
  | [] => none
  | '"' :: rest => some ([], rest)
  | '\\' :: 'u' :: a :: b :: c :: d :: rest =>
    match hexValue? [a, b, c, d], literalCodes? rest with
    | some code, some (codes, after) => some (code :: codes, after)
    | _, _ => none
  | '\\' :: e :: rest =>
    match escapedCode? e, literalCodes? rest with
    | some code, some (codes, after) => some (code :: codes, after)
    | _, _ => none
  | c :: rest =>
    if c < ' ' then none
    else
      match literalCodes? rest with
      | some (codes, after) => some (c.toNat :: codes, after)
      | none => none

def isNumberChar (c : Char) : Bool :=
  c.isDigit || c == '-' || c == '+' || c == '.' || c == 'e' || c == 'E'

/-- What follows a non-empty run of digits. -/
def afterDigits? (cs : List Char) : Option (List Char) :=
  if (cs.head?).any Char.isDigit then some (cs.dropWhile Char.isDigit) else none

/-- What follows the integer part of a number, which has no superfluous zero. -/
def afterInteger? : List Char → Option (List Char)
  | '0' :: rest => some rest
  | cs => afterDigits? cs

/-- What follows the fraction that a number may have. -/
def afterFraction? : List Char → Option (List Char)
  | '.' :: rest => afterDigits? rest
  | cs => some cs

/-- What follows the exponent that a number may have. -/
def afterExponent? : List Char → Option (List Char)
  | c :: rest =>
    if c = 'e' || c = 'E' then
      match rest with
      | s :: digits => if s = '+' || s = '-' then afterDigits? digits else afterDigits? rest
      | [] => none
    else some (c :: rest)
  | [] => some []

def isNumberText (cs : List Char) : Bool :=
  let unsigned := if cs.head? = some '-' then cs.tail else cs
  ((afterInteger? unsigned).bind afterFraction?).bind afterExponent? == some []

/-- The first lexeme of a text that begins with `c`, and the text after it. -/
def lexeme? (c : Char) (rest : List Char) : Option (Lexeme × List Char) :=
  match c, rest with
  | '"', rest => (literalCodes? rest).map fun (codes, after) =>
      (.string ((Text.ofCodes? codes).map String.ofList), after)
  | 'n', 'u' :: 'l' :: 'l' :: after => some (.scalar .null, after)
  | 't', 'r' :: 'u' :: 'e' :: after => some (.scalar (.bool true), after)
  | 'f', 'a' :: 'l' :: 's' :: 'e' :: after => some (.scalar (.bool false), after)
  | c, rest =>
    if ['[', ']', '{', '}', ',', ':'].contains c then some (.mark c, rest)
    else
      let run := c :: rest.takeWhile isNumberChar
      if isNumberText run then
        some (.scalar (.number (String.ofList run)), rest.dropWhile isNumberChar)
      else none

theorem literalCodes?_length {cs after : List Char} {codes : List Nat}
    (h : literalCodes? cs = some (codes, after)) : after.length < cs.length := by
  fun_induction literalCodes? cs generalizing codes after with
  | case1 => simp at h
  | case2 rest => simp_all
  | case3 a b c d rest code codes' after' hrest hcode ih =>
    simp only [Option.some.injEq, Prod.mk.injEq] at h
    have := ih hrest
    simp only [List.length_cons, ← h.2]
    omega
  | case4 => simp at h
  | case5 e rest _ code codes' after' hrest hcode ih =>
    simp only [Option.some.injEq, Prod.mk.injEq] at h
    have := ih hrest
    simp only [List.length_cons, ← h.2]
    omega
  | case6 => simp at h
  | case7 => simp at h
  | case8 c rest _ _ _ _ codes' after' hrest ih =>
    simp only [Option.some.injEq, Prod.mk.injEq] at h
    have := ih hrest
    simp only [List.length_cons, ← h.2]
    omega
  | case9 => simp at h

theorem lexeme?_length {c : Char} {rest after : List Char} {l : Lexeme}
    (h : lexeme? c rest = some (l, after)) : after.length ≤ rest.length := by
  unfold lexeme? at h
  split at h
  · obtain ⟨⟨codes, tail⟩, hcodes, heq⟩ := Option.map_eq_some_iff.1 h
    simp only [Prod.mk.injEq] at heq
    rw [← heq.2]
    exact Nat.le_of_lt (literalCodes?_length hcodes)
  · simp only [Option.some.injEq, Prod.mk.injEq] at h
    simp only [← h.2, List.length_cons]
    omega
  · simp only [Option.some.injEq, Prod.mk.injEq] at h
    simp only [← h.2, List.length_cons]
    omega
  · simp only [Option.some.injEq, Prod.mk.injEq] at h
    simp only [← h.2, List.length_cons]
    omega
  · split at h
    · simp_all
    · simp only [Option.ite_none_right_eq_some, Option.some.injEq, Prod.mk.injEq] at h
      rw [← h.2.2]
      exact (List.dropWhile_suffix isNumberChar).length_le

def lex : List Char → Option (List Lexeme)
  | [] => some []
  | c :: rest =>
    if isSpace c then lex rest
    else
      match _h : lexeme? c rest with
      | some (l, after) => (lex after).map (l :: ·)
      | none => none
termination_by cs => cs.length
decreasing_by
  · simp
  · exact Nat.lt_succ_of_le (lexeme?_length _h)

end Json

end Provenance
