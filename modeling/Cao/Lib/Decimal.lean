import Mathlib.Algebra.Group.Nat.Defs
import Mathlib.Data.List.DropRight
import Mathlib.Data.Nat.Basic
import Mathlib.Tactic.Common

/-!
# Decimal digits at the end of a text

Numbers written in decimal, with or without leading zeros, and the digits a text ends with.

* `value`, `Plain`, **`toDigits_value_iff`**: which digits are what a number is written as;
* `trailing`, `initial`: the digits a text ends with, and what is before them.
-/

namespace Decimal

/-- The number that digits are read as. -/
def value (digits : List Char) : Nat := Nat.ofDigitChars 10 digits 0

/-- No leading zero, but for zero itself. -/
def Plain (digits : List Char) : Prop := digits = ['0'] ∨ digits.head? ≠ some '0'

instance (digits : List Char) : Decidable (Plain digits) := inferInstanceAs (Decidable (_ ∨ _))

theorem isDigit_iff {c : Char} : c.isDigit = true ↔ 48 ≤ c.toNat ∧ c.toNat ≤ 57 := by
  simp only [Char.isDigit, Bool.and_eq_true, decide_eq_true_eq]
  exact Iff.rfl

theorem digitChar_of_isDigit {c : Char} (h : c.isDigit) : Nat.digitChar (c.toNat - 48) = c := by
  have hrange := isDigit_iff.mp h
  refine Char.toNat_inj.mp ?_
  rw [Nat.toNat_digitChar_of_lt_ten (by omega)]
  omega

theorem value_concat (digits : List Char) (c : Char) : value (digits ++ [c]) = 10 * value digits + (c.toNat - 48) := by
  simp [value, Nat.ofDigitChars_append, Nat.ofDigitChars_cons]

theorem value_pos {digits : List Char} (hdigits : ∀ c ∈ digits, c.isDigit) (hne : digits ≠ [])
    (hhead : digits.head? ≠ some '0') : 0 < value digits := by
  induction digits using List.reverseRecOn with
  | nil => exact absurd rfl hne
  | append_singleton digits c ih =>
    rw [value_concat]
    by_cases hnil : digits = []
    · subst hnil
      have hc := isDigit_iff.mp (hdigits c (by simp))
      have hzero : c ≠ '0' := by simpa using hhead
      have hcode : c.toNat ≠ 48 := fun h => hzero (Char.toNat_inj.mp h)
      omega
    · have hhead' : digits.head? ≠ some '0' := by rwa [List.head?_append_of_ne_nil _ hnil] at hhead
      have := ih (fun d hd => hdigits d (List.mem_append_left _ hd)) hnil hhead'
      omega

/-- **A number is written as the digits it is read from**, where these have no leading zero. -/
theorem toDigits_value {digits : List Char} (hdigits : ∀ c ∈ digits, c.isDigit) (hne : digits ≠ [])
    (hplain : Plain digits) : Nat.toDigits 10 (value digits) = digits := by
  rcases hplain with rfl | hhead
  · rfl
  · induction digits using List.reverseRecOn with
    | nil => exact absurd rfl hne
    | append_singleton digits c ih =>
      have hc := hdigits c (by simp)
      have hrange := isDigit_iff.mp hc
      rw [value_concat]
      by_cases hnil : digits = []
      · subst hnil
        have hvalue : value [] = 0 := rfl
        rw [hvalue, Nat.mul_zero, Nat.zero_add, Nat.toDigits_of_lt_base (by omega), digitChar_of_isDigit hc,
          List.nil_append]
      · have hhead' : digits.head? ≠ some '0' := by rwa [List.head?_append_of_ne_nil _ hnil] at hhead
        have hdigits' : ∀ d ∈ digits, d.isDigit := fun d hd => hdigits d (List.mem_append_left _ hd)
        rw [← Nat.toDigits_append_toDigits (by decide) (value_pos hdigits' hnil hhead') (by omega),
          ih hdigits' hnil hhead', Nat.toDigits_of_lt_base (by omega), digitChar_of_isDigit hc]

theorem value_lt (digits : List Char) (hdigits : ∀ c ∈ digits, c.isDigit) : value digits < 10 ^ digits.length := by
  induction digits using List.reverseRecOn with
  | nil => decide
  | append_singleton digits c ih =>
    have hc := isDigit_iff.mp (hdigits c (by simp))
    have := ih fun d hd => hdigits d (List.mem_append_left _ hd)
    rw [value_concat, List.length_append, List.length_singleton, Nat.pow_succ]
    omega

/-- A number is written in no more digits than it is read from. -/
theorem length_toDigits_value_le {digits : List Char} (hdigits : ∀ c ∈ digits, c.isDigit) (hne : digits ≠ []) :
    (Nat.toDigits 10 (value digits)).length ≤ digits.length :=
  (Nat.length_toDigits_le_iff (by decide) (List.length_pos_of_ne_nil hne)).mpr (value_lt digits hdigits)

theorem toDigits_ne_zero_cons {n : Nat} (h : 0 < n) : (Nat.toDigits 10 n).head? ≠ some '0' := by
  induction n using Nat.strong_induction_on with
  | _ n ih =>
    rw [Nat.toDigits_eq_if (by decide)]
    split_ifs with hlt
    · have hzero : n.digitChar ≠ '0' := by
        rw [Ne, Nat.digitChar_eq_zero]
        omega
      simpa using hzero
    · rw [List.head?_append_of_ne_nil _ Nat.toDigits_ne_nil]
      exact ih (n / 10) (by omega) (by omega)

/-- **A number is written without leading zeros.** -/
theorem plain_toDigits (n : Nat) : Plain (Nat.toDigits 10 n) := by
  rcases Nat.eq_zero_or_pos n with rfl | h
  · exact .inl rfl
  · exact .inr (toDigits_ne_zero_cons h)

theorem toDigits_value_iff {digits : List Char} (hdigits : ∀ c ∈ digits, c.isDigit) (hne : digits ≠ []) :
    Nat.toDigits 10 (value digits) = digits ↔ Plain digits :=
  ⟨fun h => h ▸ plain_toDigits _, toDigits_value hdigits hne⟩

/-! ## The end of a text -/

/-- The digits a text ends with. -/
def trailing (s : List Char) : List Char := s.rtakeWhile Char.isDigit

/-- What is before the digits a text ends with. -/
def initial (s : List Char) : List Char := s.rdropWhile Char.isDigit

@[simp] theorem initial_append_trailing (s : List Char) : initial s ++ trailing s = s :=
  List.rdropWhile_append_rtakeWhile

theorem isDigit_of_mem_trailing {s : List Char} {c : Char} (h : c ∈ trailing s) : c.isDigit :=
  List.mem_rtakeWhile_imp h

end Decimal
