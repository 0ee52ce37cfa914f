import Mathlib.Data.List.Basic
import Mathlib.Logic.Function.Basic
import Mathlib.Tactic.Common

/-!
# Shifting numbered slots

A store whose values have numbered names, and a cascade of moves that makes room at the first: each value is moved one
name up, from the highest, if it is there.

* `move`, `shift`, `cascade`: one move, and those of the names below a number, in descending order;
* **`cascade_name`**: afterwards each name holds what the name below it held;
* `cascade_of_ne`: other names are untouched.
-/

namespace Cao.Rotate

variable {K V : Type} [DecidableEq K]

/-- What is under one name is moved to another. -/
def move (store : K → Option V) (source target : K) : K → Option V :=
  Function.update (Function.update store target (store source)) source none

variable (stuck : Nat → Bool) (name : Nat → K)

/-- The value of a number is moved one up, if it is there and not stuck. -/
def shift (store : K → Option V) (n : Nat) : K → Option V :=
  if (store (name n)).isSome && !stuck n then move store (name n) (name (n + 1)) else store

/-- The values below a number are moved one up, in descending order. -/
def cascade (count : Nat) (store : K → Option V) : K → Option V := (List.range count).reverse.foldl (shift stuck name) store

theorem cascade_succ (count : Nat) (store : K → Option V) :
    cascade stuck name (count + 1) store = cascade stuck name count (shift stuck name store count) := by
  unfold cascade
  rw [List.range_succ, List.reverse_append, List.reverse_singleton, List.singleton_append, List.foldl_cons]

variable {stuck name}

theorem shift_of_ne {store : K → Option V} {n : Nat} {key : K} (hhere : key ≠ name n) (hnext : key ≠ name (n + 1)) :
    shift stuck name store n key = store key := by
  unfold shift move
  split_ifs
  · rw [Function.update_of_ne hhere, Function.update_of_ne hnext]
  · rfl

/-- **Other names are untouched.** -/
theorem cascade_of_ne {count : Nat} {store : K → Option V} {key : K} (h : ∀ n ≤ count, key ≠ name n) :
    cascade stuck name count store key = store key := by
  induction count generalizing store with
  | zero => rfl
  | succ count ih =>
    rw [cascade_succ, ih fun n hn => h n (by omega), shift_of_ne (h count (by omega)) (h (count + 1) (by omega))]

variable (hname : Function.Injective name) (hfree : ∀ n, stuck n = false)

include hname hfree

theorem shift_name {store : K → Option V} {n : Nat} (hempty : store (name (n + 1)) = none) :
    shift stuck name store n (name n) = none ∧ shift stuck name store n (name (n + 1)) = store (name n) := by
  have hne : name (n + 1) ≠ name n := fun h => by have := hname h; omega
  unfold shift move
  rw [hfree, Bool.not_false, Bool.and_true]
  split_ifs with hsome
  · rw [Function.update_self, Function.update_of_ne hne, Function.update_self]
    exact ⟨rfl, rfl⟩
  · have hnone : store (name n) = none := by simpa using hsome
    exact ⟨hnone, hempty.trans hnone.symm⟩

/-- **The cascade moves each value one name up**, into a name that is empty. -/
theorem cascade_name {count : Nat} {store : K → Option V} (hempty : store (name count) = none) :
    cascade stuck name count store (name 0) = none ∧
      ∀ n < count, cascade stuck name count store (name (n + 1)) = store (name n) := by
  induction count generalizing store with
  | zero => exact ⟨hempty, by omega⟩
  | succ count ih =>
    obtain ⟨hhere, hnext⟩ := shift_name hname hfree hempty
    obtain ⟨hfirst, hrest⟩ := ih hhere
    rw [cascade_succ]
    refine ⟨hfirst, fun n hn => ?_⟩
    by_cases hlast : n = count
    · subst hlast
      rw [cascade_of_ne fun m hm h => by have := hname h; omega]
      exact hnext
    · rw [hrest n (by omega), shift_of_ne] <;>
      · intro h
        have := hname h
        omega

end Cao.Rotate
