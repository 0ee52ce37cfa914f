import Mathlib.Data.List.DropRight
import Mathlib.Tactic.Common

/-!
# The newest members of a list

A queue that keeps its newest members only, as `List.rtake`.

* `length_rtake`, `rtake_of_length_le`: how many are kept;
* **`rtake_rtake_append`**, **`rtake_append_rtake`**: what is dropped early is dropped anyway;
* **`rtake_append_parts`**: the newest of two lists, taken from each.
-/

variable {α β : Type} {n : Nat} {l m : List α}

theorem length_rtake (l : List α) (n : Nat) : (l.rtake n).length = min n l.length := by
  unfold List.rtake
  rw [List.length_drop]
  omega

/-- A list no longer than that is kept whole. -/
theorem rtake_of_length_le (h : l.length ≤ n) : l.rtake n = l := by
  unfold List.rtake
  rw [Nat.sub_eq_zero_of_le h, List.drop_zero]

/-- What comes before enough members is dropped. -/
theorem rtake_append_of_le (h : n ≤ m.length) : (l ++ m).rtake n = m.rtake n := by
  unfold List.rtake
  rw [List.length_append, List.drop_append, List.drop_of_length_le (by omega), List.nil_append]
  congr 1
  omega

/-- **What is dropped before it is added to others is dropped anyway.** -/
theorem rtake_append_rtake (n : Nat) (l m : List α) : (l ++ m.rtake n).rtake n = (l ++ m).rtake n := by
  by_cases h : m.length ≤ n
  · rw [rtake_of_length_le h]
  · have hkept : n ≤ (m.rtake n).length := by
      rw [length_rtake]
      omega
    have hself : (m.rtake n).length ≤ n := by
      rw [length_rtake]
      omega
    rw [rtake_append_of_le hkept, rtake_append_of_le (by omega), rtake_of_length_le hself]

/-- **What is dropped before others are added is dropped anyway.** -/
theorem rtake_rtake_append (n : Nat) (l m : List α) : (l.rtake n ++ m).rtake n = (l ++ m).rtake n := by
  by_cases h : l.length ≤ n
  · rw [rtake_of_length_le h]
  · have hkept : n ≤ (l.rtake n ++ m).length := by
      rw [List.length_append, length_rtake]
      omega
    have hsplit : l ++ m = l.take (l.length - n) ++ (l.rtake n ++ m) := by
      unfold List.rtake
      rw [← List.append_assoc, List.take_append_drop]
    rw [hsplit, rtake_append_of_le hkept]

theorem map_rtake (f : α → β) (n : Nat) (l : List α) : (l.rtake n).map f = (l.map f).rtake n := by
  unfold List.rtake
  rw [List.map_drop, List.length_map]

/-- **The newest of two lists, in parts**: of the first as many as the newest of the second leave room for. -/
theorem rtake_append_parts (h : n ≤ l.length + m.length) :
    l.drop (l.length - min l.length (n - min n m.length)) ++ m.rtake n = (l ++ m).rtake n := by
  unfold List.rtake
  have hlater : l.length + m.length - n - l.length = m.length - n := by omega
  have hfirst : l.drop (l.length - min l.length (n - min n m.length)) = l.drop (l.length + m.length - n) := by
    by_cases hroom : m.length ≤ n
    · congr 1
      omega
    · rw [List.drop_of_length_le (by omega), List.drop_of_length_le (by omega)]
  rw [List.length_append, List.drop_append, hlater, hfirst]
