/-!
# Code point ranges

The character classes of the Unicode standard are written as ascending lists of closed ranges
of code points.
-/

namespace Provenance.Text

/-- Whether a code point lies in one of the closed ranges of an ascending list. The search
ends at the first range that begins above it. -/
def inRanges (n : Nat) : List (Nat × Nat) → Bool
  | [] => false
  | (first, last) :: rest => if n < first then false else n ≤ last || inRanges n rest

end Provenance.Text
