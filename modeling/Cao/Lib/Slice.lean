import Mathlib.Data.List.TakeDrop
import Mathlib.Tactic.Common
import Mathlib.Tactic.Ring

/-!
# Parts of a list, and little-endian numbers

* `part`, `part_length`, `part_le`: the elements from an index on, where the list holds that many;
* `littleEndian`, `littleEndianBytes`: numbers in base 256, the low byte first;
* **`littleEndian_bytes`**: what is written is read.
-/

namespace Slice

variable {α : Type}

/-- The `count` elements from `start`, or `none` where they run past the end. -/
def part (l : List α) (start count : Nat) : Option (List α) :=
  if start + count ≤ l.length then some ((l.drop start).take count) else none

theorem part_length {l m : List α} {start count : Nat} (h : part l start count = some m) : m.length = count := by
  unfold part at h
  split_ifs at h with hle
  cases h
  rw [List.length_take, List.length_drop]
  omega

theorem part_le {l m : List α} {start count : Nat} (h : part l start count = some m) : start + count ≤ l.length := by
  unfold part at h
  split_ifs at h with hle
  exact hle

/-! ## Little-endian numbers -/

/-- The number of some bytes, the low one first. -/
def littleEndian : List UInt8 → Nat
  | [] => 0
  | b :: bytes => b.toNat + 256 * littleEndian bytes

/-- The `width` low bytes of a number, the low one first. -/
def littleEndianBytes : Nat → Nat → List UInt8
  | 0, _ => []
  | width + 1, n => UInt8.ofNat n :: littleEndianBytes width (n / 256)

theorem littleEndian_lt (bytes : List UInt8) : littleEndian bytes < 256 ^ bytes.length := by
  induction bytes with
  | nil => exact Nat.one_pos
  | cons b bytes ih =>
    have hb := b.toNat_lt
    rw [littleEndian, List.length_cons, Nat.pow_succ]
    omega

@[simp] theorem littleEndianBytes_length (width n : Nat) : (littleEndianBytes width n).length = width := by
  induction width generalizing n with
  | zero => rfl
  | succ width ih => rw [littleEndianBytes, List.length_cons, ih]

/-- **What is written is read.** -/
theorem littleEndian_bytes {width n : Nat} (h : n < 256 ^ width) : littleEndian (littleEndianBytes width n) = n := by
  induction width generalizing n with
  | zero =>
    rw [Nat.pow_zero] at h
    rw [littleEndianBytes, littleEndian]
    omega
  | succ width ih =>
    rw [Nat.pow_succ] at h
    rw [littleEndianBytes, littleEndian, ih (by omega)]
    have hlow : (UInt8.ofNat n).toNat = n % 256 := UInt8.toNat_ofNat'
    omega

end Slice
