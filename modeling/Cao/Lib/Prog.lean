import Mathlib.Order.Defs.Unbundled
import Mathlib.Tactic.Common

/-!
# Programs that fail or crash

A program over a state: it may return a value, fail with an error, or crash, and whichever it does
it leaves a state. A failure can be caught; a crash cannot.

* `Prog`, `attempt`, `forEach`, `foldEach`: the programs and their loops;
* `Spec x s Q E C`: run from `s`, a value satisfies `Q`, an error `E` and a crash `C`;
* **`Spec.forEach`**, **`Spec.foldEach`**: the loop rules, an invariant indexed by what is left;
* `Yields`: what a value satisfies, whatever the state;
* `Keeps`: an invariant of every outcome, crashes included;
* `Along`: a relation from the state a program starts in to the one it leaves;
* `Always`: the same of a program that always returns;
* `Agrees`: two programs that return alike, whatever their failures.
-/

/-- How a program ended. -/
inductive Outcome (ε α : Type)
  | done (value : α)
  | fail (error : ε)
  | crash
  deriving Repr, DecidableEq

/-- A program over states `σ`, with errors `ε`. -/
def Prog (σ ε α : Type) := σ → Outcome ε α × σ

namespace Prog

variable {σ ε ε' α β γ : Type}

/-- Return a value. -/
def ret (a : α) : Prog σ ε α := fun s => (.done a, s)

/-- Run `x`, then `f` on its value. -/
def andThen (x : Prog σ ε α) (f : α → Prog σ ε β) : Prog σ ε β := fun s =>
  match x s with
  | (.done a, s) => f a s
  | (.fail e, s) => (.fail e, s)
  | (.crash, s) => (.crash, s)

instance : Monad (Prog σ ε) where
  pure := ret
  bind := andThen

theorem andThen_assoc (x : Prog σ ε α) (f : α → Prog σ ε β) (g : β → Prog σ ε γ) :
    x >>= f >>= g = x >>= fun a => f a >>= g := by
  funext s
  show andThen (andThen x f) g s = andThen x (fun a => andThen (f a) g) s
  unfold andThen
  obtain ⟨_ | _ | _, s'⟩ := x s <;> rfl

/-- Fail. -/
def fail (e : ε) : Prog σ ε α := fun s => (.fail e, s)

/-- Crash. -/
def crash : Prog σ ε α := fun s => (.crash, s)

/-- The state. -/
def get : Prog σ ε σ := fun s => (.done s, s)

/-- Change the state. -/
def modify (f : σ → σ) : Prog σ ε Unit := fun s => (.done (), f s)

/-- A computed result. -/
def ofExcept : Except ε α → Prog σ ε α
  | .ok a => ret a
  | .error e => fail e

/-- Catch a failure. -/
def attempt (x : Prog σ ε α) : Prog σ ε' (Except ε α) := fun s =>
  match x s with
  | (.done a, s) => (.done (.ok a), s)
  | (.fail e, s) => (.done (.error e), s)
  | (.crash, s) => (.crash, s)

/-- Rename a failure. -/
def mapError (f : ε → ε') (x : Prog σ ε α) : Prog σ ε' α := fun s =>
  match x s with
  | (.done a, s) => (.done a, s)
  | (.fail e, s) => (.fail (f e), s)
  | (.crash, s) => (.crash, s)

/-- A loop that stops at the first failure. -/
def forEach : List β → (β → Prog σ ε Unit) → Prog σ ε Unit
  | [], _ => ret ()
  | b :: bs, f => f b >>= fun _ => forEach bs f

/-- A loop over an accumulator. -/
def foldEach (f : γ → β → Prog σ ε γ) : γ → List β → Prog σ ε γ
  | c, [] => ret c
  | c, b :: bs => f c b >>= fun c => foldEach f c bs

/-! ### Runs of composed programs -/

theorem bind_of_done {x : Prog σ ε α} {f : α → Prog σ ε β} {a : α} {s s' : σ} (h : x s = (.done a, s')) :
    (x >>= f) s = f a s' := by
  show andThen x f s = _
  unfold andThen
  rw [h]

theorem bind_of_fail {x : Prog σ ε α} {f : α → Prog σ ε β} {e : ε} {s s' : σ} (h : x s = (.fail e, s')) :
    (x >>= f) s = (.fail e, s') := by
  show andThen x f s = _
  unfold andThen
  rw [h]

theorem attempt_of_done {x : Prog σ ε α} {a : α} {s s' : σ} (h : x s = (.done a, s')) :
    (attempt x : Prog σ ε' _) s = (.done (.ok a), s') := by
  unfold attempt
  rw [h]

theorem attempt_of_fail {x : Prog σ ε α} {e : ε} {s s' : σ} (h : x s = (.fail e, s')) :
    (attempt x : Prog σ ε' _) s = (.done (.error e), s') := by
  unfold attempt
  rw [h]

theorem forEach_append {f : β → Prog σ ε Unit} (before after : List β) :
    forEach (before ++ after) f = forEach before f >>= fun _ => forEach after f := by
  induction before with
  | nil => rfl
  | cons b before ih =>
    show f b >>= (fun _ => forEach (before ++ after) f) = (f b >>= fun _ => forEach before f) >>= _
    rw [andThen_assoc, ih]

/-! ## Specifications -/

/-- From `s`, `x` returns a value in `Q`, fails in `E` or crashes in `C`. -/
def Spec (x : Prog σ ε α) (s : σ) (Q : α → σ → Prop) (E : ε → σ → Prop) (C : σ → Prop) : Prop :=
  match x s with
  | (.done a, s') => Q a s'
  | (.fail e, s') => E e s'
  | (.crash, s') => C s'

variable {x : Prog σ ε α} {s : σ} {Q Q' : α → σ → Prop} {E E' : ε → σ → Prop} {C C' : σ → Prop}

theorem Spec.mono (h : Spec x s Q E C) (hQ : ∀ a s', Q a s' → Q' a s') (hE : ∀ e s', E e s' → E' e s')
    (hC : ∀ s', C s' → C' s') : Spec x s Q' E' C' := by
  unfold Spec at h ⊢
  split <;> simp only [*] at h
  · exact hQ _ _ h
  · exact hE _ _ h
  · exact hC _ h

theorem Spec.and (h : Spec x s Q E C) (h' : Spec x s Q' E' C') :
    Spec x s (fun a s => Q a s ∧ Q' a s) (fun e s => E e s ∧ E' e s) fun s => C s ∧ C' s := by
  unfold Spec at *
  split <;> simp only [*] at h h' <;> exact ⟨h, h'⟩

/-- What neither fails nor crashes returns. -/
theorem Spec.returns (h : Spec x s Q (fun _ _ => False) fun _ => False) : ∃ a s', x s = (.done a, s') ∧ Q a s' := by
  unfold Spec at h
  split at h
  · next a s' hrun => exact ⟨a, s', hrun, h⟩
  · exact h.elim
  · exact h.elim

/-- What holds however a program ends holds of the state that is left. -/
theorem Spec.ends {P : σ → Prop} (h : Spec x s (fun _ s' => P s') (fun _ s' => P s') P) : P (x s).2 := by
  unfold Spec at h
  split at h <;> simp only [*]

theorem Spec.of_done (h : Spec x s Q E C) {a : α} {s' : σ} (hrun : x s = (.done a, s')) : Q a s' := by
  unfold Spec at h
  rwa [hrun] at h

theorem Spec.of_fail (h : Spec x s Q E C) {e : ε} {s' : σ} (hrun : x s = (.fail e, s')) : E e s' := by
  unfold Spec at h
  rwa [hrun] at h

/-- What a program satisfies, it satisfies of the run itself. -/
theorem Spec.ran (h : Spec x s Q E C) : Spec x s (fun a s' => Q a s' ∧ x s = (.done a, s')) E C := by
  unfold Spec at *
  split <;> simp only [*] at h
  · next hrun => exact ⟨h, hrun⟩
  · exact h
  · exact h

@[simp] theorem spec_pure {a : α} : Spec (pure a : Prog σ ε α) s Q E C ↔ Q a s := Iff.rfl

@[simp] theorem spec_ret {a : α} : Spec (ret a : Prog σ ε α) s Q E C ↔ Q a s := Iff.rfl

@[simp] theorem spec_fail {e : ε} : Spec (fail e : Prog σ ε α) s Q E C ↔ E e s := Iff.rfl

@[simp] theorem spec_crash : Spec (crash : Prog σ ε α) s Q E C ↔ C s := Iff.rfl

@[simp] theorem spec_get {Q : σ → σ → Prop} : Spec (get : Prog σ ε σ) s Q E C ↔ Q s s := Iff.rfl

@[simp] theorem spec_modify {f : σ → σ} {Q : Unit → σ → Prop} :
    Spec (modify f : Prog σ ε Unit) s Q E C ↔ Q () (f s) := Iff.rfl

@[simp] theorem spec_ofExcept {r : Except ε α} : Spec (ofExcept r : Prog σ ε α) s Q E C ↔
    (∀ a, r = .ok a → Q a s) ∧ ∀ e, r = .error e → E e s := by
  cases r <;> simp [ofExcept]

/-- Sequencing. -/
theorem spec_bind {f : α → Prog σ ε β} {Q : β → σ → Prop} :
    Spec (x >>= f) s Q E C ↔ Spec x s (fun a s' => Spec (f a) s' Q E C) E C := by
  show Spec (andThen x f) s Q E C ↔ _
  unfold Spec andThen
  obtain ⟨o, s'⟩ := x s
  cases o <;> rfl

theorem spec_attempt {Q : Except ε α → σ → Prop} {E : ε' → σ → Prop} :
    Spec (attempt x : Prog σ ε' _) s Q E C ↔
      Spec x s (fun a s' => Q (.ok a) s') (fun e s' => Q (.error e) s') C := by
  unfold Spec attempt
  obtain ⟨o, s'⟩ := x s
  cases o <;> rfl

theorem spec_mapError {f : ε → ε'} {E : ε' → σ → Prop} :
    Spec (mapError f x) s Q E C ↔ Spec x s Q (fun e s' => E (f e) s') C := by
  unfold Spec mapError
  obtain ⟨o, s'⟩ := x s
  cases o <;> rfl

/-- **The loop rule**: the invariant is of the elements done and those left. -/
theorem Spec.forEach {f : β → Prog σ ε Unit} {I : List β → List β → σ → Prop}
    (step : ∀ before b after s, I before (b :: after) s →
      Spec (f b) s (fun _ s' => I (before ++ [b]) after s') E C) :
    ∀ (before after : List β) {s : σ}, I before after s →
      Spec (forEach after f) s (fun _ s' => I (before ++ after) [] s') E C := by
  intro before after
  induction after generalizing before with
  | nil => intro s h; simpa [Prog.forEach] using h
  | cons b after ih =>
    intro s h
    refine spec_bind.mpr ((step _ _ _ _ h).mono (fun _ s' h' => ?_) (fun _ _ h => h) fun _ h => h)
    have := ih _ h'
    rwa [List.append_assoc, List.singleton_append] at this

/-- **The fold rule.** -/
theorem Spec.foldEach {f : γ → β → Prog σ ε γ} {I : List β → List β → γ → σ → Prop}
    (step : ∀ before b after c s, I before (b :: after) c s →
      Spec (f c b) s (fun c' s' => I (before ++ [b]) after c' s') E C) :
    ∀ (before after : List β) {c : γ} {s : σ}, I before after c s →
      Spec (foldEach f c after) s (fun c' s' => I (before ++ after) [] c' s') E C := by
  intro before after
  induction after generalizing before with
  | nil => intro c s h; simpa [Prog.foldEach] using h
  | cons b after ih =>
    intro c s h
    refine spec_bind.mpr ((step _ _ _ _ _ h).mono (fun _ s' h' => ?_) (fun _ _ h => h) fun _ h => h)
    have := ih _ h'
    rwa [List.append_assoc, List.singleton_append] at this

/-! ## Values whatever the state -/

/-- From every state, a value of `x` satisfies `P`, and `x` never crashes. -/
def Yields (x : Prog σ ε α) (P : α → Prop) : Prop :=
  ∀ s, Spec x s (fun a _ => P a) (fun _ _ => True) fun _ => False

variable {P P' : α → Prop}

theorem yields_pure {a : α} (h : P a) : Yields (pure a : Prog σ ε α) P := fun _ => h

theorem yields_fail {e : ε} : Yields (fail e : Prog σ ε α) P := fun _ => trivial

theorem Yields.mono (hx : Yields x P) (h : ∀ a, P a → P' a) : Yields x P' := fun s =>
  (hx s).mono (fun a _ => h a) (fun _ _ h => h) fun _ h => h

theorem Yields.bind {f : α → Prog σ ε β} {R : β → Prop} (hx : Yields x P)
    (hf : ∀ a, P a → Yields (f a) R) : Yields (x >>= f) R := fun s =>
  spec_bind.mpr ((hx s).mono (fun a s' h => hf a h s') (fun _ _ h => h) fun _ h => h)

theorem yields_ofExcept {r : Except ε α} (h : ∀ a, r = .ok a → P a) :
    Yields (ofExcept r : Prog σ ε α) P := fun _ => spec_ofExcept.mpr ⟨h, fun _ _ => trivial⟩

/-- The fold rule, for a program whose steps yield. -/
theorem Yields.foldEach {f : γ → β → Prog σ ε γ} {J : List β → List β → γ → Prop}
    (step : ∀ before b after c, J before (b :: after) c → Yields (f c b) (J (before ++ [b]) after))
    {l : List β} {c : γ} (h : J [] l c) : Yields (foldEach f c l) (J l []) := fun s => by
  have := Spec.foldEach (E := fun _ _ => True) (C := fun _ => False)
    (I := fun before after c _ => J before after c)
    (fun before b after c s' h => step before b after c h s') [] l (c := c) (s := s) h
  simpa using this

/-- A value that `x` returns satisfies `P`. -/
theorem Yields.of_done (hx : Yields x P) {a : α} (h : (x s).1 = .done a) : P a := by
  have := hx s
  unfold Spec at this
  split at this <;> simp_all

/-! ## Invariants of every outcome -/

/-- `x` keeps `I`, whether it returns, fails or crashes. -/
def Keeps (I : σ → Prop) (x : Prog σ ε α) : Prop :=
  ∀ s, I s → Spec x s (fun _ s' => I s') (fun _ s' => I s') I

variable {I : σ → Prop}

/-- What is kept holds of the state that is left. -/
theorem Keeps.ends (hx : Keeps I x) {s : σ} (h : I s) : I (x s).2 := (hx s h).ends

theorem keeps_pure (a : α) : Keeps I (pure a : Prog σ ε α) := fun _ h => h

theorem keeps_fail (e : ε) : Keeps I (fail e : Prog σ ε α) := fun _ h => h

theorem keeps_get : Keeps I (get : Prog σ ε σ) := fun _ h => h

theorem keeps_ofExcept (r : Except ε α) : Keeps I (ofExcept r : Prog σ ε α) := fun _ h => by
  simp [h]

theorem Keeps.bind {f : α → Prog σ ε β} (hx : Keeps I x) (hf : ∀ a, Keeps I (f a)) :
    Keeps I (x >>= f) := fun s h =>
  spec_bind.mpr ((hx s h).mono (fun a s' h' => hf a s' h') (fun _ _ h => h) fun _ h => h)

theorem Keeps.attempt (hx : Keeps I x) : Keeps I (attempt x : Prog σ ε' _) := fun s h =>
  spec_attempt.mpr (hx s h)

theorem Keeps.mapError {f : ε → ε'} (hx : Keeps I x) : Keeps I (mapError f x) := fun s h =>
  spec_mapError.mpr (hx s h)

theorem Keeps.forEach {f : β → Prog σ ε Unit} (hf : ∀ b, Keeps I (f b)) (l : List β) :
    Keeps I (forEach l f) := fun _ h =>
  Spec.forEach (I := fun _ _ s => I s) (fun _ b _ s h => hf b s h) [] l h

/-! ## Relations between the first state and the last -/

/-- `x` moves the state along `rel`, never crashes, and what it returns satisfies `R`. -/
def Along (rel : σ → σ → Prop) (x : Prog σ ε α) (R : α → Prop) : Prop :=
  ∀ s, Spec x s (fun a s' => rel s s' ∧ R a) (fun _ s' => rel s s') fun _ => False

section Along

variable {rel : σ → σ → Prop} [IsPreorder σ rel] {R : α → Prop} {R' : β → Prop}

theorem along_pure {a : α} (h : R a) : Along rel (pure a : Prog σ ε α) R := fun s => ⟨refl s, h⟩

theorem along_fail {e : ε} : Along rel (fail e : Prog σ ε α) R := fun s => refl s

theorem Along.bind {f : α → Prog σ ε β} (hx : Along rel x R) (hf : ∀ a, R a → Along rel (f a) R') :
    Along rel (x >>= f) R' := by
  intro s
  refine spec_bind.mpr ((hx s).mono (fun a s' h => ?_) (fun _ _ h => h) fun _ h => h)
  exact (hf a h.2 s').mono (fun _ _ h' => ⟨IsTrans.trans _ _ _ h.1 h'.1, h'.2⟩)
    (fun _ _ h' => IsTrans.trans _ _ _ h.1 h') fun _ h' => h'

omit [IsPreorder σ rel] in
theorem Along.mono {R'' : α → Prop} (hx : Along rel x R) (h : ∀ a, R a → R'' a) : Along rel x R'' :=
  fun s => (hx s).mono (fun a _ h' => ⟨h'.1, h a h'.2⟩) (fun _ _ h => h) fun _ h => h

omit [IsPreorder σ rel] in
theorem Along.imp {rel' : σ → σ → Prop} (hx : Along rel x R) (h : ∀ s s', rel s s' → rel' s s') :
    Along rel' x R :=
  fun s => (hx s).mono (fun _ s' h' => ⟨h s s' h'.1, h'.2⟩) (fun _ s' h' => h s s' h') fun _ h => h

omit [IsPreorder σ rel] in
theorem Along.attempt (hx : Along rel x R) :
    Along rel (Prog.attempt x : Prog σ ε' _) fun o => ∀ a, o = .ok a → R a := fun s =>
  spec_attempt.mpr ((hx s).mono (fun a _ h => ⟨h.1, by rintro _ ⟨rfl⟩; exact h.2⟩)
    (fun _ _ h => ⟨h, nofun⟩) fun _ h => h)

omit [IsPreorder σ rel] in
theorem Along.mapError {f : ε → ε'} (hx : Along rel x R) : Along rel (Prog.mapError f x) R := fun s =>
  spec_mapError.mpr (hx s)

theorem Along.foldEach {f : γ → β → Prog σ ε γ} {J : γ → Prop} (hf : ∀ c b, J c → Along rel (f c b) J)
    (l : List β) {c : γ} (hc : J c) : Along rel (Prog.foldEach f c l) J := by
  induction l generalizing c with
  | nil => exact along_pure hc
  | cons b l ih => exact (hf c b hc).bind fun _ h => ih h

theorem Along.forEach {f : β → Prog σ ε Unit} (hf : ∀ b, Along rel (f b) fun _ => R' b) (l : List β) :
    Along rel (forEach l f) fun _ => ∀ b ∈ l, R' b := by
  induction l with
  | nil => exact along_pure (by simp)
  | cons b l ih => exact (hf b).bind fun _ hb => ih.mono fun _ hl => by simpa using ⟨hb, hl⟩

end Along

/-! ## Programs that always return -/

/-- `x` returns, having moved the state along `rel`, and what it returns satisfies `R`. -/
def Always (rel : σ → σ → Prop) (x : Prog σ ε α) (R : α → Prop) : Prop :=
  ∀ s, Spec x s (fun a s' => rel s s' ∧ R a) (fun _ _ => False) fun _ => False

section Always

variable {rel : σ → σ → Prop} [IsPreorder σ rel] {R : α → Prop} {R' : β → Prop}

theorem always_pure {a : α} (h : R a) : Always rel (pure a : Prog σ ε α) R := fun s => ⟨refl s, h⟩

theorem Always.bind {f : α → Prog σ ε β} (hx : Always rel x R) (hf : ∀ a, R a → Always rel (f a) R') :
    Always rel (x >>= f) R' := by
  intro s
  refine spec_bind.mpr ((hx s).mono (fun a s' h => ?_) (fun _ _ h => h) fun _ h => h)
  exact (hf a h.2 s').mono (fun _ _ h' => ⟨IsTrans.trans _ _ _ h.1 h'.1, h'.2⟩) (fun _ _ h' => h') fun _ h' => h'

omit [IsPreorder σ rel] in
theorem Always.along (hx : Always rel x R) : Along rel x R :=
  fun s => (hx s).mono (fun _ _ h => h) (fun _ _ h => h.elim) fun _ h => h

end Always

/-! ## Programs that return alike -/

section

variable {α' β' γ' : Type} {R : α → α' → Prop} {S : β → β' → Prop} {x : Prog σ ε α} {y : Prog σ ε α'}

/-- From every state, what either returns the other returns alike, in the same state. -/
def Agrees (R : α → α' → Prop) (x : Prog σ ε α) (y : Prog σ ε α') : Prop :=
  ∀ s, (∀ a s', x s = (.done a, s') → ∃ b, y s = (.done b, s') ∧ R a b) ∧
    ∀ b s', y s = (.done b, s') → ∃ a, x s = (.done a, s') ∧ R a b

theorem Agrees.refl (x : Prog σ ε α) : Agrees Eq x x := fun _ => ⟨fun a _ h => ⟨a, h, rfl⟩, fun a _ h => ⟨a, h, rfl⟩⟩

theorem agrees_pure {a : α} {b : α'} (h : R a b) : Agrees R (pure a : Prog σ ε α) (pure b) := fun s => by
  refine ⟨fun a' s' h' => ?_, fun b' s' h' => ?_⟩
  · cases h'
    exact ⟨b, rfl, h⟩
  · cases h'
    exact ⟨a, rfl, h⟩

theorem agrees_fail {e e' : ε} : Agrees R (fail e : Prog σ ε α) (fail e') := fun _ => ⟨nofun, nofun⟩

/-- A program that returned ran its parts. -/
theorem andThen_done {f : α → Prog σ ε β} {b : β} {s s'' : σ} :
    (x >>= f) s = (.done b, s'') ↔ ∃ a s', x s = (.done a, s') ∧ f a s' = (.done b, s'') := by
  show andThen x f s = _ ↔ _
  unfold andThen
  split
  · next a s' hx =>
    rw [hx]
    constructor
    · exact fun h => ⟨a, s', rfl, h⟩
    · rintro ⟨a', s₁, h, h'⟩
      cases h
      exact h'
  · next e s' hx =>
    rw [hx]
    exact iff_of_false nofun (by rintro ⟨_, _, h, -⟩; cases h)
  · next s' hx =>
    rw [hx]
    exact iff_of_false nofun (by rintro ⟨_, _, h, -⟩; cases h)

/-- **Sequences agree where their parts do.** -/
theorem Agrees.bind {f : α → Prog σ ε β} {g : α' → Prog σ ε β'} (hx : Agrees R x y)
    (hf : ∀ a b, R a b → Agrees S (f a) (g b)) : Agrees S (x >>= f) (y >>= g) := by
  intro s
  constructor
  · intro c s'' h
    obtain ⟨a, s', ha, hc⟩ := andThen_done.mp h
    obtain ⟨b, hb, hab⟩ := (hx s).1 a s' ha
    obtain ⟨d, hd, hcd⟩ := (hf a b hab s').1 c s'' hc
    exact ⟨d, andThen_done.mpr ⟨b, s', hb, hd⟩, hcd⟩
  · intro d s'' h
    obtain ⟨b, s', hb, hd⟩ := andThen_done.mp h
    obtain ⟨a, ha, hab⟩ := (hx s).2 b s' hb
    obtain ⟨c, hc, hcd⟩ := (hf a b hab s').2 d s'' hd
    exact ⟨c, andThen_done.mpr ⟨a, s', ha, hc⟩, hcd⟩

/-- **Folds agree over lists alike.** -/
theorem Agrees.foldEach {T : β → β' → Prop} {f : γ → β → Prog σ ε γ} {g : γ → β' → Prog σ ε γ}
    (step : ∀ c b b', T b b' → Agrees Eq (f c b) (g c b')) {l : List β} {l' : List β'} (h : List.Forall₂ T l l') (c : γ) :
    Agrees Eq (Prog.foldEach f c l) (Prog.foldEach g c l') := by
  induction h generalizing c with
  | nil => exact agrees_pure rfl
  | cons hb _ ih =>
    refine (step c _ _ hb).bind fun a b hab => ?_
    subst hab
    exact ih a

end

end Prog
