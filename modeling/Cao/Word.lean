import Mathlib.Algebra.BigOperators.Group.Finset.Basic
import Mathlib.Algebra.Order.BigOperators.Group.Finset
import Mathlib.Tactic.Common

/-!
# Machine integers

Unsigned 64-bit arithmetic. A build that checks overflow stops at one; a build that does not goes on with
the wrapped value.

* `OverflowChecks`, `addU64`, `subU64`, `sumU64`: unguarded arithmetic under either build;
* `checkedAdd`, `saturatingAdd`, `saturatingMul`: guarded arithmetic.
-/

namespace Cao

/-- `u64::MAX + 1`. -/
def u64Size : Nat := 2 ^ 64

theorem one_lt_u64Size : 1 < u64Size := by decide

/-- Whether the build checks integer overflow. -/
inductive OverflowChecks
  | on
  | off
  deriving DecidableEq, Repr

/-- What an operation gives whose exact result is out of range. -/
def overflowed (checks : OverflowChecks) (wrapped : Nat) : Option Nat :=
  match checks with
  | .on => none
  | .off => some wrapped

/-- `a + b`. -/
def addU64 (checks : OverflowChecks) (a b : Nat) : Option Nat :=
  if a + b < u64Size then some (a + b) else overflowed checks ((a + b) % u64Size)

/-- `a - b`. -/
def subU64 (checks : OverflowChecks) (a b : Nat) : Option Nat :=
  if b ≤ a then some (a - b) else overflowed checks ((a + u64Size - b) % u64Size)

/-- `Iterator::sum`. -/
def sumU64 {α : Type} (checks : OverflowChecks) (s : Finset α) (f : α → Nat) : Option Nat :=
  if ∑ a ∈ s, f a < u64Size then some (∑ a ∈ s, f a) else overflowed checks ((∑ a ∈ s, f a) % u64Size)

/-- `u64::checked_add`. -/
def checkedAdd (a b : Nat) : Option Nat := if a + b < u64Size then some (a + b) else none

/-- `u64::saturating_add`. -/
def saturatingAdd (a b : Nat) : Nat := min (a + b) (2 ^ 64 - 1)

/-- `u64::saturating_mul`. -/
def saturatingMul (a b : Nat) : Nat := min (a * b) (2 ^ 64 - 1)

variable {checks : OverflowChecks} {a b : Nat}

theorem addU64_of_lt (h : a + b < u64Size) : addU64 checks a b = some (a + b) := if_pos h

theorem subU64_of_le (h : b ≤ a) : subU64 checks a b = some (a - b) := if_pos h

theorem sumU64_of_lt {α : Type} {s : Finset α} {f : α → Nat} (h : ∑ a ∈ s, f a < u64Size) :
    sumU64 checks s f = some (∑ a ∈ s, f a) := if_pos h

/-- Saturating twice is saturating once. -/
theorem saturatingAdd_left (a b c : Nat) : saturatingAdd (saturatingAdd a b) c = saturatingAdd (a + b) c := by
  unfold saturatingAdd
  generalize 2 ^ 64 - 1 = most
  omega

theorem saturatingAdd_right (a b c : Nat) : saturatingAdd a (saturatingAdd b c) = saturatingAdd a (b + c) := by
  unfold saturatingAdd
  generalize 2 ^ 64 - 1 = most
  omega

theorem lt_saturatingAdd {cap : Nat} (h : cap < 2 ^ 64 - 1) : cap < saturatingAdd a b ↔ cap < a + b := by
  unfold saturatingAdd
  generalize 2 ^ 64 - 1 = most at h ⊢
  omega

theorem saturatingAdd_of_le {cap : Nat} (h : cap < 2 ^ 64 - 1) (hle : a + b ≤ cap) : saturatingAdd a b = a + b := by
  unfold saturatingAdd
  generalize 2 ^ 64 - 1 = most at h ⊢
  omega

theorem checkedAdd_eq_some {c : Nat} : checkedAdd a b = some c ↔ a + b < u64Size ∧ c = a + b := by
  unfold checkedAdd
  split_ifs with h <;> simp [h, eq_comm]

end Cao
