import Provenance.Token.Keyword
import Provenance.Token.Reserved

/-!
# Tokens

SQL text is read as a flat list of words, delimited names and punctuation marks. A word is a name, a
keyword, a number, a `@variable` or a `#temporary` table; a delimited name keeps its brackets
or double quotes and the escapes between them.
-/

namespace Provenance

inductive Token where
  | word (text : String)
  /-- A name in brackets or double quotes, written as it stands. -/
  | delimited (text : String)
  | mark (c : Char)
  deriving DecidableEq, Repr

namespace Token

def text : Token → String
  | word w => w
  | delimited d => d
  | mark c => String.singleton c

def isWord : Token → Bool
  | mark _ => false
  | _ => true

def isMark (c : Char) : Token → Bool
  | mark d => d == c
  | _ => false

/-- The keyword that a token spells. A delimited name spells none. -/
def keyword? : Token → Option Keyword
  | word w => Keyword.ofWord? w
  | _ => none

def is (k : Keyword) (t : Token) : Bool := t.keyword? == some k

/-- Whether a token is the unquoted word `w`, in any ASCII case. -/
def spells (w : String) : Token → Bool
  | word v => Text.equalIgnoringCase v w
  | _ => false

/-- Whether an unquoted word begins with a character that satisfies `p`. -/
def beginsWith (p : Char → Bool) : Token → Bool
  | word w => w.toList.head?.any p
  | _ => false

def isVariable : Token → Bool := beginsWith (· == '@')

def isNumber : Token → Bool := beginsWith Char.isDigit

def isReserved : Token → Bool
  | word w => spellsReserved w
  | _ => false

/-- Whether a token can name a table, a column or an alias. -/
def isName (t : Token) : Bool :=
  t.isWord && !t.isReserved && !t.isNumber && !t.text.isEmpty

/-- Whether a token is an identifier and no variable. -/
def isPlainName (t : Token) : Bool := t.isName && !t.isVariable

/-- What a token adds to the depth of parentheses. -/
def nesting (t : Token) : Int :=
  if t.isMark '(' then 1 else if t.isMark ')' then -1 else 0

end Token

end Provenance
