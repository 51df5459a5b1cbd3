import Provenance.Text.Surrogate

/-!
# Encodings of text files

A text file is read as UTF-8 if it is that. Otherwise a byte order mark at its front decides,
and a file without one is taken for Windows-1252, in which every byte is a character. One byte
order mark left at the front of the text is dropped.
-/

namespace Provenance.Text

/-- The characters of the bytes from `0x80` to `0x9F` in Windows-1252. -/
def windowsHigh : List Nat :=
  [0x20AC, 0x81, 0x201A, 0x192, 0x201E, 0x2026, 0x2020, 0x2021, 0x2C6, 0x2030, 0x160, 0x2039,
   0x152, 0x8D, 0x17D, 0x8F, 0x90, 0x2018, 0x2019, 0x201C, 0x201D, 0x2022, 0x2013, 0x2014,
   0x2DC, 0x2122, 0x161, 0x203A, 0x153, 0x9D, 0x17E, 0x178]

def windowsChar (byte : UInt8) : Char :=
  let n := byte.toNat
  Char.ofNat (if 0x80 ≤ n && n < 0xA0 then windowsHigh.getD (n - 0x80) n else n)

/-- The codes of 16 bits that pairs of bytes make up, given the lower byte of each first. -/
def codesLowFirst? : List UInt8 → Option (List Nat)
  | [] => some []
  | [_] => none
  | low :: high :: rest =>
    (codesLowFirst? rest).map ((low.toNat + 0x100 * high.toNat) :: ·)

/-- The codes of 16 bits that pairs of bytes make up, given the higher byte of each first. -/
def codesHighFirst? : List UInt8 → Option (List Nat)
  | [] => some []
  | [_] => none
  | high :: low :: rest =>
    (codesHighFirst? rest).map ((low.toNat + 0x100 * high.toNat) :: ·)

/-- The characters of a file that is no UTF-8. A file whose byte order mark it does not keep to
has none. -/
def decodeOther? (bytes : List UInt8) : Option (List Char) :=
  match bytes with
  | 0xEF :: 0xBB :: 0xBF :: _ => none
  | 0xFF :: 0xFE :: rest => (codesLowFirst? rest).bind ofCodes?
  | 0xFE :: 0xFF :: rest => (codesHighFirst? rest).bind ofCodes?
  | bytes => some (bytes.map windowsChar)

def dropMark (cs : List Char) : List Char :=
  match cs with
  | '\uFEFF' :: rest => rest
  | cs => cs

def decode? (bytes : ByteArray) : Option String :=
  let chars := match String.fromUTF8? bytes with
    | some s => some s.toList
    | none => decodeOther? bytes.data.toList
  chars.map fun cs => String.ofList (dropMark cs)

end Provenance.Text
