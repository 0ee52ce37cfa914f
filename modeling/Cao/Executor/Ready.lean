import Cao.Asset.DryRun
import Cao.Asset.Truthful
import Cao.Evidence.Recorded
import Cao.Executor.Execute

/-!
# Where a run stands

What holds of a run between two of its steps, and the rules that its steps are proved by. The predicates are of what a
run's invariants read of it, its view, so that counting a call or changing the account of Archive Finalization leaves
them as they are.

* `View`: the evidence, the site, the deferred violation, the refusals and the events;
* `Working`: nothing was refused or closed, and a Dry Run changed nothing;
* `Safe`, `Stopped`, `Halted`: no attempt was unsafe, or the last event is the one that was;
* `Stands`, `Ready`, `Ended`: between two steps of the work, between two that may go on, and at its end;
* **`spec_recorded`**, **`spec_entered`**, **`spec_attempted`**: the evidence's steps.
-/

namespace Cao.Executor

open Prog (Spec spec_bind)
open Routing Asset
open Evidence (MutableRunEvidence Recording RunPhase RunPhaseRecord RunProgress PhaseAttempt Orderly Recorded Storage)

variable {K : Type} {V : Volume K} {table : UpcaseTable} {ε α β : Type}

/-! ## Views -/

/-- What the invariants of a run read of it. -/
structure View {K : Type} (volume : Volume K) where
  evidence : MutableRunEvidence
  tree : AssetTree volume
  staged : List (Option Bytes)
  owned : Nat
  invariant : Option String
  refused : List String
  log : List RunEvent

/-- The view of a run. -/
def Run.view (run : Run V) : View V :=
  ⟨run.evidence, run.site.tree, run.site.staged, run.owned, run.invariant, run.refused, run.log⟩

/-- An event that only Safety Cleanup or what follows it marks. -/
def RunEvent.closes : RunEvent → Bool
  | entered .safetyCleanup | cleanedUp _ | serviced | consumed => true
  | _ => false

/-- The file system is as it was over a tree, and nothing that may change it was invoked. -/
structure Unchanged (tree : AssetTree V) (view : View V) : Prop where
  tree : view.tree = tree
  staged : view.staged = []
  owned : view.owned = 0
  log : ∀ event ∈ view.log, event.mutates = false

variable {checks : OverflowChecks} {mode : ExecutionMode} {tree : AssetTree V} {view : View V}

/-- Run Evidence refused nothing, no violation is deferred, Safety Cleanup is yet to come, and a Dry Run changed
nothing. -/
structure Working (checks : OverflowChecks) (mode : ExecutionMode) (tree : AssetTree V) (view : View V) : Prop where
  orderly : Orderly checks view.evidence
  unrefused : view.refused = []
  unviolated : view.invariant = none
  unclosed : ∀ event ∈ view.log, event.closes = false
  unchanged : mode = .dryRun → Unchanged tree view

/-- No attempt was unsafe. -/
def Safe (log : List RunEvent) : Prop := ∀ attempt, .attempted attempt ∈ log → safeToContinue attempt = true

/-- The last event is the one attempt that was unsafe, and Run Evidence retains it. -/
def Stopped (view : View V) : Prop :=
  ∃ before attempt, view.log = before ++ [.attempted attempt] ∧ Safe before ∧ safeToContinue attempt = false ∧
    attempt.completed ∈ view.evidence.storage.completedAttempts

/-- No attempt was unsafe, or nothing happened since the one that was. -/
def Halted (view : View V) : Prop := Safe view.log ∨ Stopped view

/-- What the operations on the evidence ask of it, beside its phases. -/
structure Flags where
  prepared : Bool
  skipped : Bool
  collisions : Bool
  nested : Bool
  routed : Bool
  finished : Bool
  based : Bool
  failed : Bool
  deriving DecidableEq, Repr

/-- The flags of what is retained. -/
def flagsOf (storage : Storage) : Flags where
  prepared := storage.preparation.isSome
  skipped := storage.skippedArchiveCountsRecorded
  collisions := storage.archiveCollisionsRecorded
  nested := storage.nestedArchiveCountRecorded
  routed := storage.routingLedger.isSome
  finished := storage.archiveFinalizationCompleted
  based := storage.plannedArchiveWork.outputBasis.isSome
  failed := !storage.failures.isEmpty

/-- A run within its work, at a phase's record. -/
structure Stands (checks : OverflowChecks) (mode : ExecutionMode) (tree : AssetTree V) (latest : RunPhaseRecord)
    (flags : Flags) (view : View V) : Prop where
  working : Working checks mode tree view
  halted : Halted view
  current : view.evidence.storage.phases.getLast? = some latest
  flags : flagsOf view.evidence.storage = flags

/-- A run within its work that may go on. -/
structure Ready (checks : OverflowChecks) (mode : ExecutionMode) (tree : AssetTree V) (latest : RunPhaseRecord)
    (flags : Flags) (view : View V) : Prop extends Stands checks mode tree latest flags view where
  safe : Safe view.log

/-- A run whose work is over. -/
structure Ended (checks : OverflowChecks) (mode : ExecutionMode) (tree : AssetTree V) (view : View V) : Prop where
  working : Working checks mode tree view
  halted : Halted view
  begun : ∃ latest, view.evidence.storage.phases.getLast? = some latest ∧ latest.phase < .safetyCleanup

variable {latest latest' : RunPhaseRecord} {flags flags' : Flags}

theorem Stands.ended (h : Stands checks mode tree latest flags view) (hlt : latest.phase < .safetyCleanup) :
    Ended checks mode tree view := ⟨h.working, h.halted, latest, h.current, hlt⟩

/-! ## Events -/

/-- An event that is neither an attempt nor of Safety Cleanup's. -/
theorem Working.mark {event : RunEvent} (h : Working checks mode tree view) (hcloses : event.closes = false)
    (hmutates : mode = .dryRun → event.mutates = false) :
    Working checks mode tree { view with log := view.log ++ [event] } where
  orderly := h.orderly
  unrefused := h.unrefused
  unviolated := h.unviolated
  unclosed := fun other hother =>
    (List.mem_append.mp hother).elim (h.unclosed other) fun hother => List.mem_singleton.mp hother ▸ hcloses
  unchanged := fun hmode =>
    { tree := (h.unchanged hmode).tree
      staged := (h.unchanged hmode).staged
      owned := (h.unchanged hmode).owned
      log := fun other hother => (List.mem_append.mp hother).elim ((h.unchanged hmode).log other) fun hother =>
        List.mem_singleton.mp hother ▸ hmutates hmode }

theorem Safe.append {log events : List RunEvent} (h : Safe log) (hevents : Safe events) : Safe (log ++ events) :=
  fun attempt hattempt => (List.mem_append.mp hattempt).elim (h attempt) (hevents attempt)

theorem safe_singleton {event : RunEvent} (h : ∀ attempt, event = .attempted attempt → safeToContinue attempt = true) :
    Safe [event] := fun attempt hattempt => h attempt (List.mem_singleton.mp hattempt).symm

/-! ## The rules of the primitive steps -/

variable {seams : RunSeams V table} {run : Run V} {Q : α → Run V → Prop} {E : ε → Run V → Prop}
  {C : Run V → Prop}

theorem spec_nextCall {Q : Nat → Run V → Prop} :
    Spec (nextCall : Prog (Run V) ε Nat) run Q E C ↔ Q run.calls { run with calls := run.calls + 1 } := Iff.rfl

theorem spec_mark {event : RunEvent} {Q : Unit → Run V → Prop} :
    Spec (mark event : Prog (Run V) ε Unit) run Q E C ↔ Q () { run with log := run.log ++ [event] } := Iff.rfl

theorem spec_isCancelled {Q : Bool → Run V → Prop} :
    Spec (isCancelled seams : Prog (Run V) ε Bool) run Q E C ↔
      Q (seams.cancelled run.calls) { run with calls := run.calls + 1 } := Iff.rfl

theorem spec_answered {answer : Except String α} {E : Thrown WorkError → Run V → Prop} (hok : ∀ a, Q a run)
    (hpanic : ∀ message, E (.panic message) run) : Spec (answered answer) run Q E C := by
  cases answer with
  | ok a => exact hok a
  | error message => exact hpanic message

theorem spec_call {f : Nat → Except String α} {E : Thrown WorkError → Run V → Prop}
    (hok : ∀ a, Q a { run with calls := run.calls + 1 })
    (hpanic : ∀ message, E (.panic message) { run with calls := run.calls + 1 }) : Spec (call f) run Q E C :=
  spec_answered hok hpanic

theorem spec_countOf {l : List β} {Q : UInt64 → Run V → Prop} {E : Thrown WorkError → Run V → Prop}
    (hok : ∀ h : l.length < u64Size, Q (.ofNatLT l.length h) run) (hpanic : ∀ message, E (.panic message) run) :
    Spec (countOf l) run Q E C := by
  unfold countOf
  split_ifs with h
  · exact hok h
  · exact hpanic _

/-- An accepted operation on the evidence. -/
theorem spec_recording {x : Recording α} {E : Thrown WorkError → Run V → Prop}
    (h : Spec x run.evidence (fun a evidence => Q a { run with evidence }) (fun _ _ => False) fun _ => False) :
    Spec (recording x) run Q E C := by
  unfold Spec recording at *
  generalize x run.evidence = ended at h ⊢
  obtain ⟨_ | (_ | _) | _, evidence⟩ := ended
  · exact h
  · exact h.elim
  · exact h.elim
  · exact h.elim

/-- A step of the file system, which only an Apply run takes. -/
theorem spec_mutating {effect : Effect} {Q : Nat → Run V → Prop} (hmode : mode = .apply)
    (h : Stands checks mode tree latest flags run.view) (hsafe : Safe run.log)
    (hQ : ∀ n run', run'.account = run.account → Ready checks mode tree latest flags run'.view → Q n run') :
    Spec (mutating seams effect : Prog (Run V) ε Nat) run Q E C := by
  refine hQ _ _ rfl ⟨⟨⟨h.working.orderly, h.working.unrefused, h.working.unviolated, ?_, ?_⟩, ?_, h.current, h.flags⟩, ?_⟩
  · exact fun other hother => (List.mem_append.mp hother).elim (h.working.unclosed other) fun hother =>
      List.mem_singleton.mp hother ▸ rfl
  · exact fun hdry => absurd (hmode.symm.trans hdry) (by decide)
  · exact .inl (hsafe.append (safe_singleton fun _ h => nomatch h))
  · exact hsafe.append (safe_singleton fun _ h => nomatch h)

/-- A sample of the token leaves a run where it stands. -/
theorem spec_polled {f : Bool → Prog (Run V) ε α} (h : Ready checks mode tree latest flags run.view)
    (hf : ∀ cancelled run', run'.account = run.account → Ready checks mode tree latest flags run'.view →
      Spec (f cancelled) run' Q E C) : Spec (isCancelled seams >>= f) run Q E C :=
  hf (seams.cancelled run.calls) { run with calls := run.calls + 1 } rfl h

/-! ## Operations on the evidence -/

theorem flagsOf_facts {storage storage' : Storage} (h : storage'.facts = storage.facts) :
    flagsOf storage' = flagsOf storage := by
  show flagsOf storage'.facts = flagsOf storage.facts
  rw [h]

theorem completedAttempts_facts {storage storage' : Storage} (h : storage'.facts = storage.facts) :
    storage'.completedAttempts = storage.completedAttempts := by
  show storage'.facts.completedAttempts = storage.facts.completedAttempts
  rw [h]

theorem Working.evidence {evidence : MutableRunEvidence} (h : Working checks mode tree view)
    (horderly : Orderly checks evidence) : Working checks mode tree { view with evidence } :=
  ⟨horderly, h.unrefused, h.unviolated, h.unclosed, fun hmode =>
    ⟨(h.unchanged hmode).tree, (h.unchanged hmode).staged, (h.unchanged hmode).owned, (h.unchanged hmode).log⟩⟩

/-- What is retained of an unsafe attempt stays. -/
theorem Halted.evidence {evidence : MutableRunEvidence} (h : Halted view)
    (hcompleted : evidence.storage.completedAttempts = view.evidence.storage.completedAttempts) :
    Halted { view with evidence } := by
  refine h.imp_right ?_
  rintro ⟨before, attempt, hlog, hsafe, hstops, hretained⟩
  exact ⟨before, attempt, hlog, hsafe, hstops, hcompleted ▸ hretained⟩

section Recorded

variable {f : Storage → Storage} {phases : List RunPhaseRecord} {evidence : MutableRunEvidence}

/-- An accepted operation, of a run that may go on. -/
theorem Ready.recorded (h : Ready checks mode tree latest flags view)
    (hrecorded : Recorded checks f phases view.evidence evidence) (hlast : phases.getLast? = some latest')
    (hflags : flagsOf (f view.evidence.storage) = flags') :
    Ready checks mode tree latest' flags' { view with evidence } where
  working := h.working.evidence hrecorded.orderly
  halted := .inl h.safe
  current := by rw [hrecorded.phases, hlast]
  flags := (flagsOf_facts hrecorded.facts).trans hflags
  safe := h.safe

/-- An accepted operation after the work, which enters no phase and drops no attempt. -/
theorem Ended.recorded (h : Ended checks mode tree view)
    (hrecorded : Recorded checks f view.evidence.storage.phases view.evidence evidence)
    (hcompleted : (f view.evidence.storage).completedAttempts = view.evidence.storage.completedAttempts) :
    Ended checks mode tree { view with evidence } where
  working := h.working.evidence hrecorded.orderly
  halted := h.halted.evidence ((completedAttempts_facts hrecorded.facts).trans hcompleted)
  begun := by
    obtain ⟨latest, hlast, hlt⟩ := h.begun
    exact ⟨latest, hrecorded.phases ▸ hlast, hlt⟩

end Recorded

/-- **An accepted operation on the evidence of a run that may go on.** -/
theorem spec_recorded (operation : Evidence.Operation) {f : Storage → Storage} {phases : List RunPhaseRecord}
    {Q : Unit → Run V → Prop} {E : Thrown WorkError → Run V → Prop} (h : Ready seams.checks mode tree latest flags run.view)
    (hexactly : Evidence.Exactly f phases (operation.run seams.checks seams.sink) run.evidence)
    (hlast : phases.getLast? = some latest') (hflags : flagsOf (f run.evidence.storage) = flags')
    (hQ : ∀ run', run'.account = run.account → Ready seams.checks mode tree latest' flags' run'.view → Q () run') :
    Spec (recording (operation.run seams.checks seams.sink)) run Q E C :=
  spec_recording ((Evidence.recorded_run operation h.working.orderly hexactly).mono
    (fun _ _ hrecorded => hQ _ rfl (h.recorded hrecorded hlast hflags)) (fun _ _ h => h) fun _ h => h)

/-- **An accepted operation on the evidence of a run whose work is over.** -/
theorem spec_endedRecorded (operation : Evidence.Operation) {f : Storage → Storage} {Q : Unit → Run V → Prop}
    {E : Thrown WorkError → Run V → Prop} (h : Ended seams.checks mode tree run.view)
    (hexactly : Evidence.Exactly f run.evidence.storage.phases (operation.run seams.checks seams.sink) run.evidence)
    (hcompleted : (f run.evidence.storage).completedAttempts = run.evidence.storage.completedAttempts)
    (hQ : ∀ run', Ended seams.checks mode tree run'.view → Q () run') :
    Spec (recording (operation.run seams.checks seams.sink)) run Q E C :=
  spec_recording ((Evidence.recorded_run operation h.working.orderly hexactly).mono
    (fun _ _ hrecorded => hQ _ (h.recorded hrecorded hcompleted)) (fun _ _ h => h) fun _ h => h)

/-- An event that a run that may go on marks. -/
theorem Ready.mark {event : RunEvent} (h : Ready checks mode tree latest flags view) (hcloses : event.closes = false)
    (hmutates : mode = .dryRun → event.mutates = false)
    (hattempted : ∀ attempt, event = .attempted attempt → safeToContinue attempt = true) :
    Ready checks mode tree latest flags { view with log := view.log ++ [event] } where
  working := h.working.mark hcloses hmutates
  halted := .inl (h.safe.append (safe_singleton hattempted))
  current := h.current
  flags := h.flags
  safe := h.safe.append (safe_singleton hattempted)

/-- **The entry of a phase**, which an accepted operation follows. -/
theorem spec_entered (operation : Evidence.Operation) {f : Storage → Storage} {record : RunPhaseRecord}
    {phase : RunPhase} {Q : Unit → Run V → Prop} {E : Thrown WorkError → Run V → Prop}
    (h : Ready seams.checks mode tree latest flags run.view) (hphase : phase < .safetyCleanup)
    (hexactly : Evidence.Exactly f (run.evidence.storage.phases ++ [record]) (operation.run seams.checks seams.sink)
      run.evidence) (hflags : flagsOf (f run.evidence.storage) = flags')
    (hQ : ∀ run', run'.account = run.account → Ready seams.checks mode tree record flags' run'.view → Q () run') :
    Spec (enter phase (operation.run seams.checks seams.sink)) run Q E C := by
  refine spec_bind.mpr (spec_mark.mpr ?_)
  have hcloses : (RunEvent.entered phase).closes = false := by
    cases phase <;> first | rfl | exact absurd hphase (by decide)
  have hmarked : Ready seams.checks mode tree latest flags
      ({ run with log := run.log ++ [.entered phase] } : Run V).view := h.mark hcloses (fun _ => rfl) fun _ h => nomatch h
  exact spec_recorded operation hmarked hexactly List.getLast?_concat hflags hQ

/-! ## Attempts -/

theorem flagsOf_retain (attempt : PhaseAttempt) (storage : Storage) :
    flagsOf (attempt.retain storage) = flagsOf storage := by cases attempt <;> rfl

/-- A retained attempt is completed. -/
theorem completed_mem_retain (attempt : PhaseAttempt) (storage : Storage) :
    attempt.completed ∈ (attempt.retain storage).completedAttempts := by
  cases attempt <;> simp [PhaseAttempt.retain, Storage.completedAttempts]

/-- **An attempt that ended is recorded**: a run that may go on does so only where it was safe. -/
theorem spec_attempted (attempt : PhaseAttempt) {progress : RunProgress} {left : Nat} {Q : Unit → Run V → Prop}
    {E : Thrown WorkError → Run V → Prop}
    (h : Ready seams.checks mode tree (.executed attempt.phase (some progress)) flags run.view)
    (hroom : progress.Room (left + 1))
    (hQ : ∀ (after : RunProgress) run', run'.account = run.account → after.Room left →
      Stands seams.checks mode tree (.executed attempt.phase (some after)) flags run'.view →
      (safeToContinue attempt = true → Safe run'.log) → Q () run') :
    Spec (recordAttempt seams attempt) run Q E C := by
  obtain ⟨before, hphases⟩ : ∃ before, run.evidence.storage.phases =
      before ++ [RunPhaseRecord.executed attempt.phase (some progress)] :=
    ⟨run.evidence.storage.phases.dropLast, (List.dropLast_append_getLast? _ h.current).symm⟩
  obtain ⟨after, hafter, hexactly⟩ :=
    @Evidence.exactly_recordAttemptProgress seams.checks seams.sink _ attempt _ _ _ hphases hroom
  refine spec_bind.mpr (spec_mark.mpr (spec_recording ?_))
  refine (Evidence.recorded_run (.recordAttempt attempt) h.working.orderly hexactly).mono
    (fun _ evidence hrecorded => ?_) (fun _ _ h => h) fun _ h => h
  refine hQ after _ rfl hafter ⟨?_, ?_, ?_, ?_⟩ fun hsafe => ?_
  · have hmarked : Working seams.checks mode tree
        ({ run with log := run.log ++ [.attempted attempt] } : Run V).view := h.working.mark rfl fun _ => rfl
    exact hmarked.evidence hrecorded.orderly
  · rcases hverdict : safeToContinue attempt with _ | _
    · refine .inr ⟨run.log, attempt, rfl, h.safe, hverdict, ?_⟩
      show attempt.completed ∈ evidence.storage.completedAttempts
      rw [completedAttempts_facts hrecorded.facts]
      exact completed_mem_retain attempt _
    · exact .inl (h.safe.append (safe_singleton (by rintro _ ⟨⟩; exact hverdict)))
  · show evidence.storage.phases.getLast? = _
    rw [hrecorded.phases, List.getLast?_concat]
  · exact (flagsOf_facts hrecorded.facts).trans ((flagsOf_retain attempt _).trans h.flags)
  · exact h.safe.append (safe_singleton (by rintro _ ⟨⟩; exact hsafe))

end Cao.Executor
