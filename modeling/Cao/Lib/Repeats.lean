import Mathlib.Data.List.Sort
import Mathlib.Tactic.Common

/-!
# Sorting and removing repeats

A list that is sorted by a key and then loses the members equal to the one before, as a closed set is listed.

* `dropRepeats`: each run of equal members becomes one;
* **`pairwise_dropRepeats`**: of a sorted list, what is left is strictly sorted;
* **`dropRepeats_sort`**: so it is the listing of the set, in the order of the key.
-/

variable {α : Type} [DecidableEq α]

/-- A list without the members that are equal to the one before. -/
def dropRepeats : List α → List α
  | [] => []
  | [a] => [a]
  | a :: b :: l => if a = b then dropRepeats (b :: l) else a :: dropRepeats (b :: l)

theorem mem_dropRepeats {l : List α} {a : α} : a ∈ dropRepeats l ↔ a ∈ l := by
  fun_induction dropRepeats l with
  | case1 => rfl
  | case2 => rfl
  | case3 b l ih => rw [ih]; simp
  | case4 b c l hne ih => simp [ih]

/-- **What is left of a sorted list is strictly sorted.** -/
theorem pairwise_dropRepeats {le : α → α → Prop} (hantisymm : ∀ a b, le a b → le b a → a = b) {l : List α}
    (h : l.Pairwise le) : (dropRepeats l).Pairwise fun a b => le a b ∧ a ≠ b := by
  fun_induction dropRepeats l with
  | case1 => exact List.Pairwise.nil
  | case2 => exact List.pairwise_singleton _ _
  | case3 b l ih => exact ih h.of_cons
  | case4 b c l hne ih =>
    obtain ⟨hfirst, hrest⟩ := List.pairwise_cons.mp h
    refine List.pairwise_cons.mpr ⟨fun d hd => ?_, ih hrest⟩
    have hmem := mem_dropRepeats.mp hd
    refine ⟨hfirst d hmem, ?_⟩
    rintro rfl
    -- a second copy of `b` would come after `c`, which it is not equal to
    rcases List.mem_cons.mp hmem with rfl | hlater
    · exact hne rfl
    · exact hne (hantisymm _ _ (hfirst c List.mem_cons_self) ((List.pairwise_cons.mp hrest).1 _ hlater))

/-- **A set's listing**: a list sorted by a key without repeats is every member of a strictly sorted whole that the
list has. -/
theorem dropRepeats_sort {key : α → Nat} (hkey : ∀ a b, key a = key b → a = b) {whole : List α}
    (hordered : whole.Pairwise fun a b => key a < key b) (hall : ∀ a, a ∈ whole) (l : List α) :
    dropRepeats (l.mergeSort fun a b => key a ≤ key b) = whole.filter fun a => a ∈ l := by
  have hsorted : (l.mergeSort fun a b => key a ≤ key b).Pairwise fun a b => key a ≤ key b := by
    have := @List.pairwise_mergeSort _ (fun a b => decide (key a ≤ key b))
      (fun a b c hab hbc => by simp only [decide_eq_true_eq] at *; omega)
      (fun a b => by simp only [Bool.or_eq_true, decide_eq_true_eq]; omega) l
    simpa using this
  have hstrict := pairwise_dropRepeats (fun a b hab hba => hkey a b (Nat.le_antisymm hab hba)) hsorted
  have hleft : (dropRepeats (l.mergeSort fun a b => key a ≤ key b)).Pairwise fun a b => key a < key b :=
    hstrict.imp fun {a b} h => Nat.lt_of_le_of_ne h.1 fun heq => h.2 (hkey a b heq)
  have hright := hordered.filter fun a => decide (a ∈ l)
  have hnodup : ∀ {m : List α}, m.Pairwise (fun a b => key a < key b) → m.Nodup :=
    fun hm => hm.imp fun {a b} hlt heq => absurd (congrArg key heq) (Nat.ne_of_lt hlt)
  have hperm : (dropRepeats (l.mergeSort fun a b => key a ≤ key b)).Perm (whole.filter fun a => a ∈ l) := by
    refine (List.perm_ext_iff_of_nodup (hnodup hleft) (hnodup hright)).mpr fun a => ?_
    rw [mem_dropRepeats, List.mem_mergeSort, List.mem_filter]
    simp [hall a]
  exact hperm.eq_of_pairwise (fun a b _ _ hlt hgt => absurd (Nat.lt_trans hlt hgt) (Nat.lt_irrefl _)) hleft hright
