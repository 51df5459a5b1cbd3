/-!
# Surrogate pairs

Codes of 16 bits write a character above `U+FFFF` as two codes of their own, the surrogates.
Codes make up a text if every surrogate among them has its partner.
-/

namespace Provenance.Text

def isHighSurrogate (code : Nat) : Bool := 0xD800 ≤ code && code < 0xDC00

def isLowSurrogate (code : Nat) : Bool := 0xDC00 ≤ code && code < 0xE000

def joinSurrogates (high low : Nat) : Char :=
  Char.ofNat (0x10000 + (high - 0xD800) * 0x400 + (low - 0xDC00))

/-- The characters that codes stand for, if every surrogate among them has its partner. -/
def ofCodes? : List Nat → Option (List Char)
  | [] => some []
  | [code] =>
    if isHighSurrogate code || isLowSurrogate code then none else some [Char.ofNat code]
  | code :: next :: rest =>
    if isHighSurrogate code then
      if isLowSurrogate next then (ofCodes? rest).map (joinSurrogates code next :: ·) else none
    else if isLowSurrogate code then none
    else (ofCodes? (next :: rest)).map (Char.ofNat code :: ·)

end Provenance.Text
