import Cao.Run.SourcePin

/-!
# Operations that only read

What an operation learns of a tree it does not change: from any state whose tree is `disk`, only the count of
calls moves, and what is returned satisfies `R`.

* `Reads disk x R`, and its rules for sequences, errors and loops;
* `reads_inspectTree`, `reads_call`, `reads_result`: the operations of an attempt that only read;
* `Computes disk x o`: what a program that only reads returns where nothing is refused, with its rules;
* `Counts disk x calls o`: the same, with the calls it takes.
-/

namespace Cao

open Prog (Along Spec spec_bind)

variable {K : Type} {V : Volume K} {P ε ε' α β γ : Type} {disk : Disk V}

/-- On the tree `disk`, `x` only reads, and what it returns satisfies `R`. -/
def Reads (disk : Disk V) (x : Prog (Site V P) ε α) (R : α → Prop) : Prop :=
  ∀ s, s.disk = disk → Spec x s (fun a s' => Idle s s' ∧ R a) (fun _ s' => Idle s s') fun _ => False

variable {R R' : α → Prop} {Q : β → Prop} {x : Prog (Site V P) ε α}

theorem reads_pure {a : α} (h : R a) : Reads disk (pure a : Prog (Site V P) ε α) R := fun s _ => ⟨.refl s, h⟩

theorem reads_fail {e : ε} : Reads disk (Prog.fail e : Prog (Site V P) ε α) R := fun s _ => .refl s

theorem reads_failWith {e : ε} : Reads disk (failWith e : Prog (Site V P) (Thrown ε) α) R := reads_fail

theorem Reads.bind {f : α → Prog (Site V P) ε β} (hx : Reads disk x R) (hf : ∀ a, R a → Reads disk (f a) Q) :
    Reads disk (x >>= f) Q := by
  intro s hs
  refine spec_bind.mpr ((hx s hs).mono (fun a s₁ h => ?_) (fun _ _ h => h) fun _ h => h)
  exact (hf a h.2 s₁ (h.1.disk.trans hs)).mono (fun _ _ h' => ⟨h.1.trans h'.1, h'.2⟩) (fun _ _ h' => h.1.trans h')
    fun _ h' => h'

theorem Reads.mono (hx : Reads disk x R) (h : ∀ a, R a → R' a) : Reads disk x R' := fun s hs =>
  (hx s hs).mono (fun _ _ h' => ⟨h'.1, h _ h'.2⟩) (fun _ _ h => h) fun _ h => h

theorem Reads.mapError {f : ε → ε'} (hx : Reads disk x R) : Reads disk (x.mapError f) R := fun s hs =>
  Prog.spec_mapError.mpr (hx s hs)

theorem Reads.attempt (hx : Reads disk x R) :
    Reads disk (Prog.attempt x : Prog (Site V P) ε' _) fun o => ∀ a, o = .ok a → R a := fun s hs =>
  Prog.spec_attempt.mpr ((hx s hs).mono (fun a _ h => ⟨h.1, by rintro _ ⟨rfl⟩; exact h.2⟩)
    (fun _ _ h => ⟨h, nofun⟩) fun _ h => h)

theorem reads_result {x : Prog (Site V P) (Thrown ε) α} (hx : Reads disk x R) :
    Reads disk (result x : Prog (Site V P) (Thrown ε') _) fun o => ∀ a, o = .ok a → R a := by
  refine hx.attempt.bind fun o ho => ?_
  rcases o with (e | message) | a
  · exact reads_pure nofun
  · exact reads_fail
  · exact reads_pure (by rintro _ ⟨rfl⟩; exact ho a rfl)

/-- A fold that only reads, with an invariant of its accumulator. -/
theorem Reads.foldEach {f : γ → β → Prog (Site V P) ε γ} {I : List β → List β → γ → Prop}
    (step : ∀ before b after c, I before (b :: after) c → Reads disk (f c b) fun c' => I (before ++ [b]) after c')
    {l : List β} {c : γ} (h : I [] l c) : Reads disk (Prog.foldEach f c l) (I l []) := by
  intro s hs
  have hloop := Prog.Spec.foldEach (f := f) (C := fun _ => False) (E := fun _ s' => Idle s s')
    (I := fun before after c s' => Idle s s' ∧ I before after c)
    (fun before b after c s₁ h => (step before b after c h.2 s₁ (h.1.disk.trans hs)).mono
      (fun _ _ h' => ⟨h.1.trans h'.1, h'.2⟩) (fun _ _ h' => h.1.trans h') fun _ h' => h')
    [] l (c := c) (s := s) ⟨.refl s, h⟩
  simpa using hloop

/-- A fold that only reads, with an invariant whatever is left. -/
theorem Reads.foldEach_inv {f : γ → β → Prog (Site V P) ε γ} {J : γ → Prop} {l : List β}
    (step : ∀ c, ∀ b ∈ l, J c → Reads disk (f c b) J) {c : γ} (h : J c) : Reads disk (Prog.foldEach f c l) J :=
  (Reads.foldEach (I := fun before after c => before ++ after = l ∧ J c)
    (fun before b after c h => (step c b (by rw [← h.1]; simp) h.2).mono fun _ h' => ⟨by rw [← h.1]; simp, h'⟩)
    ⟨rfl, h⟩).mono fun _ h => h.2

theorem Along.reads (hx : Along Idle x R) : Reads disk x R := fun s _ => hx s

theorem Reads.along (hx : ∀ disk, Reads disk x R) : Along Idle x R := fun s => hx s.disk s rfl

variable {seams : Seams}

theorem reads_nextCall : Reads disk (nextCall : Prog (Site V P) ε Nat) fun _ => True := Along.reads along_nextCall

theorem reads_call (f : Nat → Answer α) : Reads disk (call f : Prog (Site V P) (Thrown String) α) fun _ => True :=
  (Along.reads (along_call f)).mono fun _ _ => trivial

theorem reads_get : Reads disk (Prog.get : Prog (Site V P) ε (Site V P)) fun s => s.disk = disk :=
  fun s hs => ⟨.refl s, hs⟩

/-- **A read tells what the tree says.** -/
theorem reads_inspectTree (f : Disk V → Except String α) :
    Reads disk (inspectTree seams f : Prog (Site V P) (Thrown String) α) fun a => f disk = .ok a := by
  intro s hs
  subst hs
  exact spec_inspectTree

variable [DecidableEq K]

/-- The facts of a file are those of what stands at its path. -/
theorem reads_factsOf (action : String) (path : Path) :
    Reads disk (factsOf seams action path : Prog (Site V P) _ _) fun facts => entryAt path disk = .ok facts.node :=
  reads_nextCall.bind fun _ _ => (reads_inspectTree _).mapError.bind fun _ h => reads_pure h

/-! ## What is read where nothing is refused -/

section

omit [DecidableEq K]

/-- On the tree `disk`, `x` only reads, and ends so. -/
def Computes (disk : Disk V) (x : Prog (Site V P) ε α) (o : Outcome ε α) : Prop :=
  ∀ s, s.disk = disk → ∃ n, x s = (o, { s with calls := n })

theorem computes_pure (a : α) : Computes disk (pure a : Prog (Site V P) ε α) (.done a) := fun s _ => ⟨s.calls, rfl⟩

theorem computes_failWith (e : ε) : Computes disk (failWith e : Prog (Site V P) (Thrown ε) α) (.fail (.error e)) :=
  fun s _ => ⟨s.calls, rfl⟩

theorem Computes.bind {a : α} {o : Outcome ε β} {f : α → Prog (Site V P) ε β} (hx : Computes disk x (.done a))
    (hf : Computes disk (f a) o) : Computes disk (x >>= f) o := by
  intro s hs
  obtain ⟨n, hn⟩ := hx s hs
  obtain ⟨m, hm⟩ := hf { s with calls := n } hs
  exact ⟨m, (Prog.bind_of_done hn).trans hm⟩

theorem Computes.bind_fail {e : ε} {f : α → Prog (Site V P) ε β} (hx : Computes disk x (.fail e)) :
    Computes disk (x >>= f) (.fail e) := by
  intro s hs
  obtain ⟨n, hn⟩ := hx s hs
  exact ⟨n, Prog.bind_of_fail hn⟩

/-- A call number is drawn, whatever it is. -/
theorem computes_nextCall {o : Outcome ε α} {f : Nat → Prog (Site V P) ε α} (hf : ∀ n, Computes disk (f n) o) :
    Computes disk (nextCall >>= f) o := fun s hs => hf s.calls { s with calls := s.calls + 1 } hs

theorem computes_get {o : Outcome ε α} {f : Site V P → Prog (Site V P) ε α}
    (hf : ∀ s, s.disk = disk → Computes disk (f s) o) : Computes disk (Prog.get >>= f) o := fun s hs => hf s hs s hs

/-- A fold whose steps compute. -/
theorem Computes.foldEach {f : γ → β → Prog (Site V P) ε γ} {g : γ → β → γ} {l : List β}
    (step : ∀ c, ∀ b ∈ l, Computes disk (f c b) (.done (g c b))) (c : γ) :
    Computes disk (Prog.foldEach f c l) (.done (l.foldl g c)) := by
  induction l generalizing c with
  | nil => exact computes_pure c
  | cons b l ih =>
    exact (step c b List.mem_cons_self).bind (ih (fun c b' hb => step c b' (List.mem_cons_of_mem _ hb)) (g c b))

theorem result_of_done {x : Prog (Site V P) (Thrown ε) α} {a : α} {s s' : Site V P} (h : x s = (.done a, s')) :
    (result x : Prog (Site V P) (Thrown ε') _) s = (.done (.ok a), s') := Prog.bind_of_done (Prog.attempt_of_done h)

theorem result_of_error {x : Prog (Site V P) (Thrown ε) α} {e : ε} {s s' : Site V P}
    (h : x s = (.fail (.error e), s')) : (result x : Prog (Site V P) (Thrown ε') _) s = (.done (.error e), s') :=
  Prog.bind_of_done (Prog.attempt_of_fail h)

theorem computes_result_done {x : Prog (Site V P) (Thrown ε) α} {a : α} (hx : Computes disk x (.done a)) :
    Computes disk (result x : Prog (Site V P) (Thrown ε') _) (.done (.ok a)) := by
  intro s hs
  obtain ⟨n, hn⟩ := hx s hs
  exact ⟨n, result_of_done hn⟩

theorem computes_result_fail {x : Prog (Site V P) (Thrown ε) α} {e : ε} (hx : Computes disk x (.fail (.error e))) :
    Computes disk (result x : Prog (Site V P) (Thrown ε') _) (.done (.error e)) := by
  intro s hs
  obtain ⟨n, hn⟩ := hx s hs
  exact ⟨n, result_of_error hn⟩

theorem computes_call (hnative : ∀ n, seams.native n = .ok ()) :
    Computes disk (call seams.native : Prog (Site V P) (Thrown String) Unit) (.done ()) :=
  computes_nextCall fun n => by
    rw [hnative n]
    exact computes_pure ()

/-- **A read that is not refused tells what the tree says, error or not.** -/
theorem computes_inspectTree (hnative : ∀ n, seams.native n = .ok ()) (f : Disk V → Except String α) :
    Computes disk (result (inspectTree seams f) : Prog (Site V P) (Thrown ε) _) (.done (f disk)) := by
  cases hf : f disk with
  | ok a =>
    refine computes_result_done ((computes_call hnative).bind (computes_get fun s hs => ?_))
    rw [hs, hf]
    exact computes_pure a
  | error detail =>
    refine computes_result_fail ((computes_call hnative).bind (computes_get fun s hs => ?_))
    rw [hs, hf]
    exact computes_failWith detail

/-! ## How many calls a read takes -/

/-- On the tree `disk`, `x` only reads, ends so, and takes `calls` calls. -/
def Counts (disk : Disk V) (x : Prog (Site V P) ε α) (calls : Nat) (o : Outcome ε α) : Prop :=
  ∀ s, s.disk = disk → x s = (o, { s with calls := s.calls + calls })

variable {k m : Nat}

theorem Counts.computes {o : Outcome ε α} (hx : Counts disk x k o) : Computes disk x o := fun s hs => ⟨_, hx s hs⟩

theorem counts_pure (a : α) : Counts disk (pure a : Prog (Site V P) ε α) 0 (.done a) := fun _ _ => rfl

theorem Counts.bind {a : α} {o : Outcome ε β} {f : α → Prog (Site V P) ε β} (hx : Counts disk x k (.done a))
    (hf : Counts disk (f a) m o) : Counts disk (x >>= f) (k + m) o := by
  intro s hs
  rw [Prog.bind_of_done (hx s hs), hf { s with calls := s.calls + k } hs, Nat.add_assoc]

theorem Counts.bind_fail {e : ε} {f : α → Prog (Site V P) ε β} (hx : Counts disk x k (.fail e)) :
    Counts disk (x >>= f) k (.fail e) := fun s hs => Prog.bind_of_fail (hx s hs)

theorem Counts.mapError {f : ε → ε'} {a : α} (hx : Counts disk x k (.done a)) :
    Counts disk (x.mapError f) k (.done a) := by
  intro s hs
  unfold Prog.mapError
  rw [hx s hs]

theorem Counts.mapError_fail {f : ε → ε'} {e : ε} (hx : Counts disk x k (.fail e)) :
    Counts disk (x.mapError f) k (.fail (f e)) := by
  intro s hs
  unfold Prog.mapError
  rw [hx s hs]

theorem counts_call (hnative : ∀ n, seams.native n = .ok ()) :
    Counts disk (call seams.native : Prog (Site V P) (Thrown String) Unit) 1 (.done ()) := by
  intro s _
  show Answer.run (seams.native s.calls) { s with calls := s.calls + 1 } = _
  rw [hnative]
  rfl

theorem counts_inspectTree (hnative : ∀ n, seams.native n = .ok ()) {f : Disk V → Except String α} {a : α}
    (h : f disk = .ok a) : Counts disk (inspectTree seams f : Prog (Site V P) (Thrown String) α) 1 (.done a) := by
  refine (counts_call hnative).bind (m := 0) fun s hs => ?_
  subst hs
  show Prog.andThen Prog.get _ s = _
  unfold Prog.andThen Prog.get
  dsimp only
  rw [h]
  rfl

theorem counts_inspectTree_error (hnative : ∀ n, seams.native n = .ok ()) {f : Disk V → Except String α}
    {detail : String} (h : f disk = .error detail) :
    Counts disk (inspectTree seams f : Prog (Site V P) (Thrown String) α) 1 (.fail (.error detail)) := by
  refine (counts_call hnative).bind (m := 0) fun s hs => ?_
  subst hs
  show Prog.andThen Prog.get _ s = _
  unfold Prog.andThen Prog.get
  dsimp only
  rw [h]
  rfl

end

end Cao
