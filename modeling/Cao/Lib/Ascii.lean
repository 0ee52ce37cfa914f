import Mathlib.Algebra.Group.Nat.Defs
import Mathlib.Data.List.TakeWhile
import Mathlib.Tactic.Common

/-!
# The case of ASCII letters

Lower and upper case as functions of code points, and the tests of a text that its case does not decide.

* `toNat_toLower`, `toNat_toUpper`: what changes case;
* `Caseless`, **`toLower_eq_iff`**: a character without case is no other's lower case;
* `any_map_toLower`, `takeWhile_map_toLower`, `dropWhile_map_toLower`: tests that ignore case.
-/

namespace Ascii

variable {c d : Char}

theorem toNat_toLower (c : Char) :
    c.toLower.toNat = if 65 ≤ c.toNat ∧ c.toNat ≤ 90 then c.toNat + 32 else c.toNat := by
  have hle : ('A'.val ≤ c.val ∧ c.val ≤ 'Z'.val) ↔ 65 ≤ c.toNat ∧ c.toNat ≤ 90 := by
    rw [UInt32.le_iff_toNat_le, UInt32.le_iff_toNat_le]
    rfl
  unfold Char.toLower
  split_ifs with h h' h'
  · have hlt : c.val.toNat ≤ 90 := h'.2
    show (c.val + 32).toNat = c.val.toNat + 32
    rw [UInt32.toNat_add]
    show (c.val.toNat + 32) % 2 ^ 32 = _
    omega
  · exact absurd (hle.mp h) h'
  · exact absurd (hle.mpr h') h
  · rfl

theorem toNat_toUpper (c : Char) :
    c.toUpper.toNat = if 97 ≤ c.toNat ∧ c.toNat ≤ 122 then c.toNat - 32 else c.toNat := by
  have hle : ('a'.val ≤ c.val ∧ c.val ≤ 'z'.val) ↔ 97 ≤ c.toNat ∧ c.toNat ≤ 122 := by
    rw [UInt32.le_iff_toNat_le, UInt32.le_iff_toNat_le]
    rfl
  have hsum : ('A'.val - 'a'.val).toNat = 4294967264 := by decide
  unfold Char.toUpper
  split_ifs with h h' h'
  · have hge : 97 ≤ c.val.toNat := h'.1
    have hle : c.val.toNat ≤ 122 := h'.2
    show (c.val + ('A'.val - 'a'.val)).toNat = c.val.toNat - 32
    rw [UInt32.toNat_add, hsum]
    omega
  · exact absurd (hle.mp h) h'
  · exact absurd (hle.mpr h') h
  · rfl

theorem eq_of_toNat (h : c.toNat = d.toNat) : c = d := Char.ext (UInt32.toNat_inj.mp h)

/-- The upper case of the lower case is the upper case. -/
theorem toUpper_toLower (c : Char) : c.toLower.toUpper = c.toUpper := by
  apply eq_of_toNat
  rw [toNat_toUpper, toNat_toUpper, toNat_toLower]
  split_ifs <;> omega

theorem toLower_toLower (c : Char) : c.toLower.toLower = c.toLower := by
  apply eq_of_toNat
  rw [toNat_toLower, toNat_toLower]
  split_ifs <;> omega

/-- A character that is no ASCII letter. -/
def Caseless (c : Char) : Prop := c.toNat < 65 ∨ 90 < c.toNat ∧ c.toNat < 97 ∨ 122 < c.toNat

instance : DecidablePred Caseless := fun _ => inferInstanceAs (Decidable (_ ∨ _ ∧ _ ∨ _))

/-- **A character without case is no other character's lower case.** -/
theorem toLower_eq_iff (hd : Caseless d) : c.toLower = d ↔ c = d := by
  unfold Caseless at hd
  constructor
  · intro h
    have hnat : c.toLower.toNat = d.toNat := by rw [h]
    apply eq_of_toNat
    rw [toNat_toLower] at hnat
    split_ifs at hnat <;> omega
  · rintro rfl
    apply eq_of_toNat
    rw [toNat_toLower]
    split_ifs <;> omega

section Tests

variable {p : Char → Bool} (hp : ∀ c, p c.toLower = p c)
include hp

theorem comp_toLower : p ∘ Char.toLower = p := by
  funext c
  exact hp c

theorem any_map_toLower (s : List Char) : (s.map Char.toLower).any p = s.any p := by
  rw [List.any_map, comp_toLower hp]

theorem takeWhile_map_toLower (s : List Char) : (s.map Char.toLower).takeWhile p = (s.takeWhile p).map Char.toLower := by
  rw [List.takeWhile_map, comp_toLower hp]

theorem dropWhile_map_toLower (s : List Char) : (s.map Char.toLower).dropWhile p = (s.dropWhile p).map Char.toLower := by
  rw [List.dropWhile_map, comp_toLower hp]

end Tests

end Ascii
