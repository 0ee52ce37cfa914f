import Cao.Lib.Prog
import Mathlib.Algebra.GroupWithZero.Nat

/-!
# Programs that are cancelled

Programs that ask, before each of their steps, whether they are cancelled, and stop where they are.

* `poll`: one question; `Polls`: how often a program asks, and what it returns unless it is cancelled;
* **`Polls.bind`**, **`Polls.foldEach`**: sequences and loops;
* **`Polls.fail_iff`**: a program stops exactly where one of its questions is answered so.
-/

namespace Prog

variable {ε α β γ : Type} {cancelled : Nat → Bool} {stop : ε}

/-- Ask whether the program is cancelled. The state counts the questions. -/
def poll (cancelled : Nat → Bool) (stop : ε) : Prog Nat ε Unit := fun n =>
  if cancelled n then (.fail stop, n + 1) else (.done (), n + 1)

/-- A program that asks `k` times and returns `a`: cancelled at any of them, it stops. -/
structure Polls (cancelled : Nat → Bool) (stop : ε) (k : Nat) (x : Prog Nat ε α) (a : α) : Prop where
  done : ∀ n, (∀ i < k, cancelled (n + i) = false) → x n = (.done a, n + k)
  stopped : ∀ n, (∃ i < k, cancelled (n + i) = true) → (x n).1 = .fail stop

theorem polls_pure (a : α) : Polls cancelled stop 0 (pure a) a where
  done _ _ := rfl
  stopped _ h := by
    obtain ⟨i, hi, -⟩ := h
    exact absurd hi (Nat.not_lt_zero i)

theorem polls_poll : Polls cancelled stop 1 (poll cancelled stop) () where
  done n h := by
    have hn : cancelled n = false := h 0 Nat.one_pos
    unfold poll
    rw [hn, if_neg Bool.false_ne_true]
  stopped n h := by
    obtain ⟨i, hi, hcancelled⟩ := h
    obtain rfl : i = 0 := by omega
    have hn : cancelled n = true := hcancelled
    unfold poll
    rw [hn, if_pos rfl]

/-- **One program, then another.** -/
theorem Polls.bind {x : Prog Nat ε α} {f : α → Prog Nat ε β} {k l : Nat} {a : α} {b : β} (hx : Polls cancelled stop k x a)
    (hf : Polls cancelled stop l (f a) b) : Polls cancelled stop (k + l) (x >>= f) b := by
  have hlater : ∀ n i, k ≤ i → n + i = n + k + (i - k) := fun n i hi => by omega
  constructor
  · intro n h
    have hdone := hx.done n fun i hi => h i (by omega)
    rw [bind_of_done hdone, hf.done (n + k) fun i hi => by rw [Nat.add_assoc]; exact h (k + i) (by omega), Nat.add_assoc]
  · intro n h
    by_cases hfirst : ∃ i < k, cancelled (n + i) = true
    · have hstopped := hx.stopped n hfirst
      rw [bind_of_fail (Prod.ext hstopped rfl)]
    · have hnever : ∀ i < k, cancelled (n + i) = false := by
        intro i hi
        rw [Bool.eq_false_iff]
        exact fun hcancelled => hfirst ⟨i, hi, hcancelled⟩
      rw [bind_of_done (hx.done n hnever)]
      obtain ⟨i, hi, hcancelled⟩ := h
      have hki : k ≤ i := by
        by_contra hlt
        exact hfirst ⟨i, by omega, hcancelled⟩
      exact hf.stopped (n + k) ⟨i - k, by omega, hlater n i hki ▸ hcancelled⟩

/-- **A loop** asks as often as its steps do. -/
theorem Polls.foldEach {f : γ → β → Prog Nat ε γ} {cost : β → Nat} {next : γ → β → γ} {l : List β}
    (h : ∀ c, ∀ b ∈ l, Polls cancelled stop (cost b) (f c b) (next c b)) (c : γ) :
    Polls cancelled stop (l.map cost).sum (foldEach f c l) (l.foldl next c) := by
  induction l generalizing c with
  | nil => exact polls_pure c
  | cons b l ih =>
    rw [List.map_cons, List.sum_cons, List.foldl_cons]
    exact (h c b List.mem_cons_self).bind (ih (fun c b hb => h c b (List.mem_cons_of_mem _ hb)) (next c b))

/-- **It stops exactly where it is cancelled**, and else returns. -/
theorem Polls.fail_iff {x : Prog Nat ε α} {k : Nat} {a : α} (hx : Polls cancelled stop k x a) (n : Nat) :
    ((x n).1 = .fail stop ↔ ∃ i < k, cancelled (n + i) = true) ∧ ∀ b, (x n).1 = .done b → b = a := by
  by_cases h : ∃ i < k, cancelled (n + i) = true
  · have hstopped := hx.stopped n h
    refine ⟨iff_of_true hstopped h, fun b hb => ?_⟩
    rw [hstopped] at hb
    cases hb
  · have hnever : ∀ i < k, cancelled (n + i) = false := by
      intro i hi
      rw [Bool.eq_false_iff]
      exact fun hcancelled => h ⟨i, hi, hcancelled⟩
    have hdone := hx.done n hnever
    refine ⟨iff_of_false (fun hstopped => ?_) h, fun b hb => ?_⟩
    · rw [hdone] at hstopped
      cases hstopped
    · rw [hdone] at hb
      cases hb
      rfl

end Prog
