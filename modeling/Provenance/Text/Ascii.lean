/-!
# ASCII case

Reserved words, contextual words and column names are compared without regard to the case of
the ASCII letters. Keywords are found by a wider rule: a letter outside ASCII counts as the
ASCII capitals that are its upper case.
-/

namespace Provenance.Text

def asciiUpper (s : String) : String := String.ofList (s.toList.map Char.toUpper)

def asciiLower (s : String) : String := String.ofList (s.toList.map Char.toLower)

/-- Whether two texts differ at most in the case of ASCII letters. -/
def equalIgnoringCase (a b : String) : Bool := asciiLower a == asciiLower b

/-- The upper case of a character if that is written in ASCII letters, otherwise the character
itself. -/
def capitals (c : Char) : List Char :=
  match c with
  | 'ß' => ['S', 'S']
  | 'ı' => ['I']
  | 'ſ' => ['S']
  | 'ﬀ' => ['F', 'F']
  | 'ﬁ' => ['F', 'I']
  | 'ﬂ' => ['F', 'L']
  | 'ﬃ' => ['F', 'F', 'I']
  | 'ﬄ' => ['F', 'F', 'L']
  | 'ﬅ' => ['S', 'T']
  | 'ﬆ' => ['S', 'T']
  | c => [c.toUpper]

/-- A text with its letters replaced by their upper case wherever that is written in ASCII. -/
def capitalised (s : String) : String := String.ofList (s.toList.flatMap capitals)

end Provenance.Text
