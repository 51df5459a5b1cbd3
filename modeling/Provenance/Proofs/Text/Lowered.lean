import Provenance.Proofs.Text.LowerCase
import Provenance.Text.Blank
import Provenance.Text.Word

/-!
# Texts in small letters

Whatever is asked of a text without regard to ASCII case has the same answer for the text in small
letters.
-/

namespace Provenance.Text

/-! ## Characters -/

@[simp] theorem toLower_toLower (c : Char) : c.toLower.toLower = c.toLower :=
  toLower_congr (f := Char.toLower) (by decide +kernel) c

@[simp] theorem isBlank_toLower (c : Char) : isBlank c.toLower = isBlank c :=
  toLower_congr (by decide +kernel) c

@[simp] theorem inWord_toLower (c : Char) : inWord c.toLower = inWord c :=
  toLower_congr (by decide +kernel) c

@[simp] theorem isDigit_toLower (c : Char) : c.toLower.isDigit = c.isDigit :=
  toLower_congr (f := Char.isDigit) (by decide +kernel) c

@[simp] theorem capitals_toLower (c : Char) : capitals c.toLower = capitals c :=
  toLower_congr (by decide +kernel) c

@[simp] theorem toLower_eq_iff {c : Char} (hlower : c.toLower = c) (hupper : c.toUpper = c)
    (d : Char) : d.toLower = c ↔ d = c := by
  have hcases : d.toLower = d ∨ d.toUpper = d := by
    by_cases hd : d.toNat < 128
    · exact char_of_ascii (p := fun d => d.toLower = d ∨ d.toUpper = d) (by decide +kernel) hd
    · exact .inl (toLower_of_not_ascii hd)
  constructor
  · intro h
    rcases hcases with hd | hd
    · rw [← hd, h]
    · rw [← hd, ← toUpper_toLower, h, hupper]
  · rintro rfl
    exact hlower

@[simp] theorem toLower_beq {c : Char} (hlower : c.toLower = c) (hupper : c.toUpper = c)
    (d : Char) : (d.toLower == c) = (d == c) := by
  rw [Bool.eq_iff_iff, beq_iff_eq, beq_iff_eq]
  exact toLower_eq_iff hlower hupper d

/-! ## Texts -/

@[simp] theorem toList_asciiLower (s : String) :
    (asciiLower s).toList = s.toList.map Char.toLower :=
  String.toList_ofList

theorem asciiLower_ofList (cs : List Char) :
    asciiLower (String.ofList cs) = String.ofList (cs.map Char.toLower) := by
  rw [asciiLower, String.toList_ofList]

@[simp] theorem asciiLower_asciiLower (s : String) : asciiLower (asciiLower s) = asciiLower s := by
  rw [asciiLower, toList_asciiLower, List.map_map]
  exact congrArg String.ofList (List.map_congr_left fun c _ => toLower_toLower c)

@[simp] theorem asciiLower_append (a b : String) :
    asciiLower (a ++ b) = asciiLower a ++ asciiLower b := by
  rw [← String.toList_inj]
  simp

@[simp] theorem isEmpty_asciiLower (s : String) : (asciiLower s).isEmpty = s.isEmpty := by
  rw [Bool.eq_iff_iff, String.isEmpty_iff, String.isEmpty_iff, ← String.toList_inj,
    ← String.toList_inj]
  simp

theorem filter_not_isEmpty_asciiLower (names : List String) :
    (names.map asciiLower).filter (fun name => !name.isEmpty) =
      (names.filter fun name => !name.isEmpty).map asciiLower := by
  simp [List.filter_map, Function.comp_def]

@[simp] theorem equalIgnoringCase_asciiLower_left (a b : String) :
    equalIgnoringCase (asciiLower a) b = equalIgnoringCase a b := by
  rw [equalIgnoringCase, asciiLower_asciiLower, equalIgnoringCase]

@[simp] theorem equalIgnoringCase_asciiLower_right (a b : String) :
    equalIgnoringCase a (asciiLower b) = equalIgnoringCase a b := by
  rw [equalIgnoringCase, asciiLower_asciiLower, equalIgnoringCase]

@[simp] theorem isBlankText_asciiLower (s : String) :
    isBlankText (asciiLower s) = isBlankText s := by
  simp [isBlankText, Function.comp_def]

@[simp] theorem capitalised_asciiLower (s : String) :
    capitalised (asciiLower s) = capitalised s := by
  simp [capitalised, List.flatMap_map]

@[simp] theorem asciiLower_repr (n : Nat) : asciiLower n.repr = n.repr := by
  rw [← String.toList_inj, toList_asciiLower, Nat.toList_repr]
  have hdigits : ∀ c ∈ Nat.toDigits 10 n, c.toLower = id c := by
    intro c hc
    exact (toLower_of_isDigit (Nat.isDigit_of_mem_toDigits (by decide) (by decide) hc)).2
  rw [List.map_congr_left hdigits, List.map_id]

theorem trimChars_map_toLower (cs : List Char) :
    trimChars (cs.map Char.toLower) = (trimChars cs).map Char.toLower := by
  have hblank : isBlank ∘ Char.toLower = isBlank := funext isBlank_toLower
  have hend : ∀ cs : List Char, trimEnd (cs.map Char.toLower) = (trimEnd cs).map Char.toLower := by
    intro cs
    rw [trimEnd, ← List.map_reverse, List.dropWhile_map, hblank, ← List.map_reverse, trimEnd]
  rw [trimChars, List.dropWhile_map, hblank, hend, trimChars]

end Provenance.Text
