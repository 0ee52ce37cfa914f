import Mathlib.Tactic.Common

/-!
# Loops

A `while` loop over a state of its own: each pass through the body leaves the loop or goes on with a
smaller state.

* `Pass`, `Loop`, `Loop.run`: the loop as a total function;
* `Loop.run_next`, `Loop.run_done`: one pass of a run;
* **`Loop.run_invariant`**: what every pass keeps holds where the loop is left;
* `Loop.fallible`: a loop whose passes may fail, with the same rules.
-/

/-- What a pass through a loop's body comes to. -/
inductive Pass (σ ρ : Type)
  | next (state : σ)
  | done (result : ρ)

/-- A loop whose every pass leaves a smaller state. -/
structure Loop (σ ρ : Type) where
  body : σ → Pass σ ρ
  size : σ → Nat
  shrinks : ∀ {s s' : σ}, body s = .next s' → size s' < size s

namespace Loop

variable {σ ρ : Type} (loop : Loop σ ρ)

/-- The loop with fewer than `fuel` passes, which a state of that size has. -/
def runWithin : (fuel : Nat) → (s : σ) → loop.size s < fuel → ρ
  | 0, _, h => absurd h (Nat.not_lt_zero _)
  | fuel + 1, s, h =>
    match hpass : loop.body s with
    | .next s' => runWithin fuel s' (Nat.lt_of_lt_of_le (loop.shrinks hpass) (Nat.le_of_lt_succ h))
    | .done r => r

/-- What the loop comes to from a state. -/
def run (s : σ) : ρ := loop.runWithin (loop.size s + 1) s (Nat.lt_succ_self _)

variable {loop}

/-- More fuel than the state's size changes nothing. -/
theorem runWithin_eq_run : ∀ {fuel : Nat} {s : σ} (h : loop.size s < fuel), loop.runWithin fuel s h = loop.run s
  | fuel, s, h => by
    induction fuel using Nat.strongRecOn generalizing s with
    | _ fuel ih =>
      cases fuel with
      | zero => exact absurd h (Nat.not_lt_zero _)
      | succ fuel =>
        unfold run
        rw [runWithin, runWithin]
        split
        · next s' hpass =>
          have hsmaller := loop.shrinks hpass
          by_cases heq : fuel = loop.size s
          · subst heq
            rfl
          · exact (ih fuel (Nat.lt_succ_self _) s' (by omega)).trans (ih (loop.size s) (by omega) s' (by omega)).symm
        · rfl

/-- A pass that goes on. -/
theorem run_next {s s' : σ} (h : loop.body s = .next s') : loop.run s = loop.run s' := by
  unfold run
  rw [runWithin]
  split
  · next t hpass =>
    rw [h] at hpass
    cases hpass
    exact runWithin_eq_run _
  · next r hpass =>
    rw [h] at hpass
    cases hpass

/-- A pass that leaves the loop. -/
theorem run_done {s : σ} {r : ρ} (h : loop.body s = .done r) : loop.run s = r := by
  unfold run
  rw [runWithin]
  split
  · next t hpass =>
    rw [h] at hpass
    cases hpass
  · next r' hpass =>
    rw [h] at hpass
    cases hpass
    rfl

/-- **What every pass keeps holds where the loop is left.** -/
theorem run_invariant {P : σ → Prop} {Q : ρ → Prop} (hnext : ∀ s s', P s → loop.body s = .next s' → P s')
    (hdone : ∀ s r, P s → loop.body s = .done r → Q r) {s : σ} (hs : P s) : Q (loop.run s) := by
  generalize hsize : loop.size s = n
  induction n using Nat.strongRecOn generalizing s with
  | _ n ih =>
    cases hpass : loop.body s with
    | next s' =>
      rw [run_next hpass]
      exact ih (loop.size s') (hsize ▸ loop.shrinks hpass) (hnext s s' hs hpass) rfl
    | done r =>
      rw [run_done hpass]
      exact hdone s r hs hpass

/-! ## Passes that fail -/

section Fallible

variable {ε : Type} {body : σ → Except ε (Pass σ ρ)} {size : σ → Nat}
variable {shrinks : ∀ {s s' : σ}, body s = .ok (.next s') → size s' < size s}

/-- A loop that a failing pass leaves. -/
def fallible (body : σ → Except ε (Pass σ ρ)) (size : σ → Nat)
    (shrinks : ∀ {s s' : σ}, body s = .ok (.next s') → size s' < size s) : Loop σ (Except ε ρ) where
  body s := match body s with
    | .ok (.next s') => .next s'
    | .ok (.done r) => .done (.ok r)
    | .error e => .done (.error e)
  size := size
  shrinks {s s'} h := by
    split at h
    · next s'' hpass =>
      cases h
      exact shrinks hpass
    · cases h
    · cases h

theorem fallible_next {s s' : σ} (h : body s = .ok (.next s')) :
    (fallible body size shrinks).run s = (fallible body size shrinks).run s' := by
  apply run_next
  show (match body s with | .ok (.next s') => _ | .ok (.done r) => _ | .error e => _ : Pass σ (Except ε ρ)) = _
  rw [h]

theorem fallible_done {s : σ} {r : ρ} (h : body s = .ok (.done r)) : (fallible body size shrinks).run s = .ok r := by
  apply run_done
  show (match body s with | .ok (.next s') => _ | .ok (.done r) => _ | .error e => _ : Pass σ (Except ε ρ)) = _
  rw [h]

theorem fallible_error {s : σ} {e : ε} (h : body s = .error e) : (fallible body size shrinks).run s = .error e := by
  apply run_done
  show (match body s with | .ok (.next s') => _ | .ok (.done r) => _ | .error e => _ : Pass σ (Except ε ρ)) = _
  rw [h]

/-- **The loop rule**, where a pass may fail. -/
theorem fallible_invariant {P : σ → Prop} {Q : Except ε ρ → Prop}
    (hnext : ∀ s s', P s → body s = .ok (.next s') → P s') (hdone : ∀ s r, P s → body s = .ok (.done r) → Q (.ok r))
    (herror : ∀ s e, P s → body s = .error e → Q (.error e)) {s : σ} (hs : P s) :
    Q ((fallible body size shrinks).run s) := by
  generalize hsize : size s = n
  induction n using Nat.strongRecOn generalizing s with
  | _ n ih =>
    cases hpass : body s with
    | error e =>
      rw [fallible_error hpass]
      exact herror s e hs hpass
    | ok pass =>
      cases pass with
      | next s' =>
        rw [fallible_next hpass]
        exact ih (size s') (hsize ▸ shrinks hpass) (hnext s s' hs hpass) rfl
      | done r =>
        rw [fallible_done hpass]
        exact hdone s r hs hpass

end Fallible

end Loop
