import Provenance.Text.Ascii

/-!
# ASCII case

Comparing texts without regard to ASCII case is an equivalence, and texts that are equal in this
sense have the same capitals.
-/

namespace Provenance.Text

theorem char_of_ascii {p : Char → Prop} (h : ∀ n < 128, p (Char.ofNat n)) {c : Char}
    (hc : c.toNat < 128) : p c := by
  have hp := h c.toNat hc
  rwa [Char.ofNat_toNat] at hp

theorem toLower_of_not_ascii {c : Char} (hc : ¬ c.toNat < 128) : c.toLower = c := by
  unfold Char.toLower
  rw [dif_neg]
  rintro ⟨_, hhigh⟩
  exact hc (Nat.lt_of_le_of_lt (UInt32.le_iff_toNat_le.mp hhigh) (by decide))

theorem toLower_congr {α : Type} {f : Char → α}
    (h : ∀ n < 128, f (Char.ofNat n).toLower = f (Char.ofNat n)) (c : Char) :
    f c.toLower = f c := by
  by_cases hc : c.toNat < 128
  · exact char_of_ascii (p := fun c => f c.toLower = f c) h hc
  · rw [toLower_of_not_ascii hc]

theorem toLower_of_isDigit {c : Char} (h : c.isDigit = true) :
    c.toNat < 128 ∧ c.toLower = c := by
  have hascii : c.toNat < 128 := by
    simp only [Char.isDigit, Bool.and_eq_true, decide_eq_true_eq, UInt32.le_iff_toNat_le] at h
    exact Nat.lt_of_le_of_lt h.2 (by decide)
  refine ⟨hascii, ?_⟩
  exact char_of_ascii (p := fun c => c.isDigit = true → c.toLower = c) (by decide +kernel) hascii h

theorem toUpper_toLower (c : Char) : c.toLower.toUpper = c.toUpper :=
  toLower_congr (f := Char.toUpper) (by decide +kernel) c

@[simp] theorem asciiUpper_asciiLower (s : String) : asciiUpper (asciiLower s) = asciiUpper s := by
  simp only [asciiUpper, asciiLower, String.toList_ofList, List.map_map, Function.comp_def,
    toUpper_toLower]

theorem equalIgnoringCase_iff {a b : String} :
    equalIgnoringCase a b = true ↔ asciiLower a = asciiLower b := by
  simp [equalIgnoringCase]

theorem equalIgnoringCase_refl (a : String) : equalIgnoringCase a a = true :=
  equalIgnoringCase_iff.mpr rfl

theorem equalIgnoringCase_symm {a b : String} (h : equalIgnoringCase a b = true) :
    equalIgnoringCase b a = true :=
  equalIgnoringCase_iff.mpr (equalIgnoringCase_iff.mp h).symm

theorem equalIgnoringCase_trans {a b c : String} (hab : equalIgnoringCase a b = true)
    (hbc : equalIgnoringCase b c = true) : equalIgnoringCase a c = true :=
  equalIgnoringCase_iff.mpr ((equalIgnoringCase_iff.mp hab).trans (equalIgnoringCase_iff.mp hbc))

theorem asciiUpper_eq_of_equalIgnoringCase {a b : String} (h : equalIgnoringCase a b = true) :
    asciiUpper a = asciiUpper b := by
  rw [← asciiUpper_asciiLower a, equalIgnoringCase_iff.mp h, asciiUpper_asciiLower]

theorem capitals_of_ascii {c : Char} (hc : c.toNat < 128) : capitals c = [c.toUpper] := by
  exact char_of_ascii (p := fun c => capitals c = [c.toUpper]) (by decide +kernel) hc

theorem capitalised_of_ascii {s : String} (hs : ∀ c ∈ s.toList, c.toNat < 128) :
    capitalised s = asciiUpper s := by
  have h : ∀ cs : List Char, (∀ c ∈ cs, c.toNat < 128) →
      cs.flatMap capitals = cs.map Char.toUpper := by
    intro cs hcs
    induction cs with
    | nil => rfl
    | cons c cs ih =>
      rw [List.flatMap_cons, List.map_cons, capitals_of_ascii (hcs c (by simp)),
        ih fun d hd => hcs d (by simp [hd])]
      rfl
  rw [capitalised, asciiUpper, h _ hs]

end Provenance.Text
