import Cao.Executor.Phases

/-!
# Archive Finalization is accepted

Archive Finalization, from a run that may go on: whatever its steps on disk come to, Run Evidence accepts what it
offers, and the account of the phase is accepted at the end. An attempt that was unsafe is the last step on disk.

* `Finalizing`, `Stranded`, `Finalizes`: within the phase, and how a step of it escapes;
* `finalizes_attemptOutputs`, `finalizes_finishPlan`, `finalizes_runPhase`: what the phase does before it is finished;
* **`steps_finalizeArchives`**, **`works_finalize`**: the phase.
-/

namespace Cao.Executor

open Prog (Spec spec_bind)
open Routing Capacity Asset
open Evidence (RunPhase RunPhaseRecord RunProgress PhaseAttempt Storage)
open Finalize (FinalizationPlan FinalizationOutput ArchiveFinalizationAccount)

variable {K : Type} {V : Volume K} {table : UpcaseTable} {α β : Type}
variable {checks : OverflowChecks} {mode : ExecutionMode} {tree : AssetTree V} {seams : RunSeams V table} {run : Run V}
variable {latest : RunPhaseRecord} {flags : Flags} {view : View V}

/-! ## Within the phase -/

/-- Archive Finalization is open. -/
def Finalizing (checks : OverflowChecks) (tree : AssetTree V) (flags : Flags) (view : View V) : Prop :=
  ∃ progress, Stands checks .apply tree (.executed .archiveFinalization progress) flags view

/-- A step that escapes is not a violation, and Archive Finalization is still open. -/
def Stranded (checks : OverflowChecks) (tree : AssetTree V) (flags : Flags) (e : Thrown WorkError) (run : Run V) : Prop :=
  (∀ message, e ≠ .error (.evidenceInvariant message)) ∧ Finalizing checks tree flags run.view

/-- A step of the phase. -/
abbrev Finalizes (checks : OverflowChecks) (tree : AssetTree V) (flags : Flags) (x : Running V α) (run : Run V)
    (Q : α → Run V → Prop) : Prop := Spec x run Q (Stranded checks tree flags) fun _ => False

/-- A step of the phase, and what follows it. -/
theorem Finalizes.bind {x : Running V α} {f : α → Running V β} {Q : α → Run V → Prop} {R : β → Run V → Prop}
    (hx : Finalizes checks tree flags x run Q) (hf : ∀ a run', Q a run' → Finalizes checks tree flags (f a) run' R) :
    Finalizes checks tree flags (x >>= f) run R := spec_bind.mpr (hx.mono hf (fun _ _ h => h) fun _ h => h)

section Steps

variable {progress : Option RunProgress}

theorem Ready.finalizing (h : Ready checks .apply tree (.executed .archiveFinalization progress) flags view) :
    Finalizing checks tree flags view := ⟨progress, h.toStands⟩

theorem Ready.strandedPanic (h : Ready checks .apply tree (.executed .archiveFinalization progress) flags run.view)
    (message : String) : Stranded checks tree flags (.panic message) run := ⟨nofun, h.finalizing⟩

theorem Ready.strandedOther (h : Ready checks .apply tree (.executed .archiveFinalization progress) flags run.view)
    (detail : String) : Stranded checks tree flags (.error (.other detail)) run := ⟨nofun, h.finalizing⟩

theorem spec_modifyAccount {f : ArchiveFinalizationAccount → ArchiveFinalizationAccount} {Q : Unit → Run V → Prop}
    {E : Thrown WorkError → Run V → Prop} {C : Run V → Prop} :
    Spec (modifyAccount f) run Q E C ↔ Q () { run with account := f run.account } := Iff.rfl

theorem spec_getAccount {Q : ArchiveFinalizationAccount → Run V → Prop} {E : Thrown WorkError → Run V → Prop}
    {C : Run V → Prop} : Spec getAccount run Q E C ↔ Q run.account run := Iff.rfl

/-- A call that may panic leaves the run where it stands. -/
theorem finalizes_called {g : Nat → Except String β} {f : β → Running V α} {Q : α → Run V → Prop}
    (h : Ready seams.checks .apply tree (.executed .archiveFinalization progress) flags run.view)
    (hf : ∀ b run', run'.account = run.account →
      Ready seams.checks .apply tree (.executed .archiveFinalization progress) flags run'.view →
      Finalizes seams.checks tree flags (f b) run' Q) : Finalizes seams.checks tree flags (call g >>= f) run Q := by
  have hcalled : Ready seams.checks .apply tree (.executed .archiveFinalization progress) flags
      ({ run with calls := run.calls + 1 } : Run V).view := h
  exact spec_bind.mpr (spec_call (fun b => hf b _ rfl hcalled) fun message => hcalled.strandedPanic message)

/-! ## After the outputs -/

/-- Pruning stops at the first cancellation. -/
theorem finalizes_pruneRoots (roots : List Path)
    (h : Ready seams.checks .apply tree (.executed .archiveFinalization progress) flags run.view) :
    Finalizes seams.checks tree flags (pruneRoots seams roots) run fun _ run' =>
      Ready seams.checks .apply tree (.executed .archiveFinalization progress) flags run'.view := by
  induction roots generalizing run with
  | nil => exact h
  | cons root roots ih =>
    refine spec_polled h fun cancelled run' _ h' => ?_
    cases cancelled with
    | true => exact h'
    | false =>
      refine spec_bind.mpr (spec_mutating rfl h'.toStands h'.safe fun n run' _ h' => ?_)
      refine spec_bind.mpr (spec_answered (fun pruned => ?_) fun message => h'.strandedPanic message)
      exact ih h'

theorem finalizes_maintainLoadingPlugins (root : Path)
    (h : Ready seams.checks .apply tree (.executed .archiveFinalization progress) flags run.view) :
    Finalizes seams.checks tree flags (maintainLoadingPlugins seams root) run fun _ run' =>
      Ready seams.checks .apply tree (.executed .archiveFinalization progress) flags run'.view := by
  refine spec_bind.mpr (spec_mutating rfl h.toStands h.safe fun n run' _ h' => ?_)
  refine spec_bind.mpr (spec_getAccount.mpr (spec_bind.mpr (spec_modifyAccount.mpr ?_)))
  rcases (seams.finalization.maintain n root run'.account).2 with (detail | message) | maintained
  · exact h'.strandedOther detail
  · exact h'.strandedPanic message
  · exact h'

theorem finalizes_maintainRoots (plan : FinalizationPlan) (roots : List Path)
    (h : Ready seams.checks .apply tree (.executed .archiveFinalization progress) flags run.view) :
    Finalizes seams.checks tree flags (maintainRoots seams plan roots) run fun _ run' =>
      Ready seams.checks .apply tree (.executed .archiveFinalization progress) flags run'.view := by
  induction roots generalizing run with
  | nil => exact h
  | cons root later ih =>
    refine spec_polled h fun cancelled run' _ h' => ?_
    cases cancelled with
    | true => exact h'
    | false =>
      refine finalizes_called h' fun shortage run' _ h' => ?_
      cases shortage with
      | some shortage => exact h'
      | none =>
        refine spec_polled h' fun cancelled run' _ h' => ?_
        cases cancelled with
        | true => exact h'
        | false =>
          refine Finalizes.bind (finalizes_maintainLoadingPlugins root h') fun maintained run' h' => ?_
          cases maintained with
          | true => exact ih h'
          | false => exact h'

theorem finalizes_maintainAndPrune (plan : FinalizationPlan)
    (h : Ready seams.checks .apply tree (.executed .archiveFinalization progress) flags run.view) :
    Finalizes seams.checks tree flags (maintainAndPrune seams plan) run fun _ run' =>
      Ready seams.checks .apply tree (.executed .archiveFinalization progress) flags run'.view := by
  refine Finalizes.bind (finalizes_maintainRoots plan plan.roots h) fun finished run' h' => ?_
  refine spec_bind.mpr (spec_getAccount.mpr ?_)
  split_ifs
  · exact finalizes_pruneRoots plan.roots h'
  · exact h'

/-- What the maintenance pass escaped with is contained. -/
theorem finalizes_endMaintenance (ended : Except (Thrown WorkError) Unit)
    (hended : ∀ message, ended ≠ .error (.error (.evidenceInvariant message)))
    (h : Finalizing checks tree flags run.view) :
    Finalizes checks tree flags (endMaintenance ended) run fun _ run' => Finalizing checks tree flags run'.view := by
  rcases ended with ((message | detail) | message) | _
  · exact absurd rfl (hended message)
  · exact h
  · exact h
  · exact h

/-- Nothing follows an account that is not safe. -/
theorem finalizes_finishPlan (plan : FinalizationPlan)
    (h : Stands seams.checks .apply tree (.executed .archiveFinalization progress) flags run.view)
    (hsafe : run.account.safeToContinue = true → Safe run.log) :
    Finalizes seams.checks tree flags (finishPlan seams plan) run fun _ run' =>
      Finalizing seams.checks tree flags run'.view := by
  refine spec_bind.mpr (spec_getAccount.mpr ?_)
  have hobserved : Finalizes seams.checks tree flags (observesCancellation seams run.account.cancelled) run
      fun _ run' => run'.view = run.view := by
    unfold observesCancellation
    split_ifs
    · exact rfl
    · exact rfl
  refine Finalizes.bind hobserved fun cancelled run' hview => spec_bind.mpr (spec_modifyAccount.mpr ?_)
  rw [← hview] at h
  split_ifs with hends
  · exact ⟨progress, h⟩
  · simp only [Bool.or_eq_true, Bool.not_eq_true', not_or, Bool.not_eq_true, Bool.not_eq_false] at hends
    have hlog : Safe run'.view.log := by
      rw [hview]
      exact hsafe hends.2
    have hready : Ready seams.checks .apply tree (.executed .archiveFinalization progress) flags
        ({ run' with account := { run'.account with cancelled } } : Run V).view := { h with safe := hlog }
    refine spec_bind.mpr (Prog.spec_attempt.mpr ((finalizes_maintainAndPrune plan hready).mono (fun _ run' h' => ?_)
      (fun e run' h' => ?_) fun _ h => h))
    · exact finalizes_endMaintenance _ nofun h'.finalizing
    · exact finalizes_endMaintenance _ (fun message he => h'.1 message (Except.error.inj he)) h'.2

/-! ## The outputs -/

theorem finalizes_attemptOutput (output : FinalizationOutput)
    (h : Ready seams.checks .apply tree (.executed .archiveFinalization progress) flags run.view) :
    Finalizes seams.checks tree flags (attemptOutput seams output) run fun _ run' =>
      Ready seams.checks .apply tree (.executed .archiveFinalization progress) flags run'.view := by
  refine spec_bind.mpr (spec_mutating rfl h.toStands h.safe fun n run' _ h' => ?_)
  exact spec_bind.mpr (spec_modifyAccount.mpr (spec_answered (fun _ => h') fun message => ⟨nofun, h'.finalizing⟩))

/-- The attempts go on while the account is safe, and then each was safe. -/
theorem finalizes_attemptOutputs (outputs : List FinalizationOutput) {progress : RunProgress}
    (h : Ready seams.checks .apply tree (.executed .archiveFinalization (some progress)) flags run.view)
    (hroom : progress.Room outputs.length) :
    Finalizes seams.checks tree flags (attemptOutputs seams outputs) run fun goesOn run' =>
      Finalizing seams.checks tree flags run'.view ∧
        (goesOn = true → run'.account.safeToContinue = true → Safe run'.log) := by
  induction outputs generalizing run progress with
  | nil => exact ⟨h.finalizing, fun _ _ => h.safe⟩
  | cons output outputs ih =>
    refine spec_polled h fun cancelled run' _ h' => ?_
    cases cancelled with
    | true => exact ⟨h'.finalizing, fun _ _ => h'.safe⟩
    | false =>
      refine Finalizes.bind (finalizes_attemptOutput output h') fun attempt run' h' => ?_
      refine spec_bind.mpr (spec_modifyAccount.mpr (spec_bind.mpr ?_))
      generalize haccount : (if decide (attempt.outcome.failureCategory = some .insufficientCapacity) = true then
        run'.account else { run'.account with safeToContinue := attempt.outcome.safeToContinue }) = account
      have hadjusted : Ready seams.checks .apply tree (.executed .archiveFinalization (some progress)) flags
          ({ run' with account } : Run V).view := h'
      refine spec_attempted (.finalization attempt) hadjusted hroom
        fun after run'' hkept hafter hstands hattempted => ?_
      refine spec_bind.mpr (spec_getAccount.mpr ?_)
      rw [hkept]
      split_ifs with hrejected hstops
      · exact ⟨⟨_, hstands⟩, nofun⟩
      · refine ⟨⟨_, hstands⟩, fun _ hsafe => absurd hsafe ?_⟩
        rw [hkept]
        simpa using hstops
      · rw [if_neg hrejected] at haccount
        have hsafe : safeToContinue (.finalization attempt) = true := by
          have haccount : account.safeToContinue = attempt.outcome.safeToContinue :=
            congrArg ArchiveFinalizationAccount.safeToContinue haccount.symm
          rw [Bool.not_eq_true', Bool.not_eq_false, haccount] at hstops
          exact hstops
        exact ih { hstands with safe := hattempted hsafe } hafter

end Steps

/-! ## The phase before it is finished -/

/-- The plan of outputs that a shortage names has room for the attempt that it fails. -/
theorem finalizes_recordShortage {progress : RunProgress} (shortage : CapacityShortage) (archive : Option Path)
    (h : Ready seams.checks .apply tree (.executed .archiveFinalization (some progress)) flags run.view)
    (hroom : archive ≠ none → progress.Room 1) :
    Finalizes seams.checks tree flags (recordShortage seams shortage archive) run fun _ run' =>
      Finalizing seams.checks tree flags run'.view := by
  cases archive with
  | none => exact h.finalizing
  | some archive => exact spec_attempted (.finalization _) h (hroom nofun) fun _ _ _ _ hstands _ => ⟨_, hstands⟩

theorem finalizes_checkCreation {progress : Option RunProgress} (plan : FinalizationPlan)
    (h : Ready seams.checks .apply tree (.executed .archiveFinalization progress) flags run.view) :
    Finalizes seams.checks tree flags (checkCreation seams plan) run fun _ run' =>
      Ready seams.checks .apply tree (.executed .archiveFinalization progress) flags run'.view := by
  refine finalizes_called h fun verdict run' _ h' => ?_
  cases verdict with
  | fits => exact h'
  | failWork shortage => exact h'
  | failRun _ => exact h'.strandedPanic _
  | warn _ => exact h'.strandedPanic _

theorem finalizes_finalizePlan {progress : RunProgress} (plan : FinalizationPlan)
    (h : Ready seams.checks .apply tree (.executed .archiveFinalization (some progress)) flags run.view)
    (hroom : progress.Room plan.outputs.length) :
    Finalizes seams.checks tree flags (finalizePlan seams plan) run fun _ run' =>
      Finalizing seams.checks tree flags run'.view := by
  refine spec_polled h fun cancelled run' _ h' => ?_
  cases cancelled with
  | true => exact h'.finalizing
  | false =>
    refine Finalizes.bind (finalizes_checkCreation plan h') fun shortage run' h' => ?_
    cases shortage with
    | some shortage =>
      refine finalizes_recordShortage shortage _ h' fun hfound => ?_
      have hlength : 0 < plan.outputs.length := by
        cases houtputs : plan.outputs with
        | nil => simp [houtputs] at hfound
        | cons output outputs => exact Nat.zero_lt_succ _
      unfold RunProgress.Room at hroom ⊢
      omega
    | none =>
      refine Finalizes.bind (finalizes_attemptOutputs plan.outputs h' hroom) fun goesOn run' h' => ?_
      obtain ⟨⟨progress, hstands⟩, hsafe⟩ := h'
      cases goesOn with
      | true => exact finalizes_finishPlan plan hstands (hsafe rfl)
      | false => exact ⟨progress, hstands⟩

/-- A plan is accepted once. -/
theorem finalizes_planPhase (total : UInt64)
    (h : Ready seams.checks .apply tree (.executed .archiveFinalization none) flags run.view)
    (hunfinished : flags.finished = false) :
    Finalizes seams.checks tree flags (planPhase seams total) run fun _ run' =>
      Ready seams.checks .apply tree (.executed .archiveFinalization (some (Evidence.zero total))) flags run'.view := by
  obtain ⟨before, hphases⟩ : ∃ before, run.evidence.storage.phases =
      before ++ [RunPhaseRecord.executed .archiveFinalization none] :=
    ⟨run.evidence.storage.phases.dropLast, (List.dropLast_append_getLast? _ h.current).symm⟩
  have hfinished : run.evidence.storage.archiveFinalizationCompleted = false :=
    (congrArg Flags.finished h.flags).trans hunfinished
  exact spec_recorded (.planArchiveFinalization total) h
    (Evidence.exactly_planArchiveFinalization total hphases hfinished) List.getLast?_concat h.flags fun _ _ h => h

theorem finalizes_runPhase (preparation : Preparation)
    (h : Ready seams.checks .apply tree (.executed .archiveFinalization none) flags run.view)
    (hunfinished : flags.finished = false) :
    Finalizes seams.checks tree flags (runPhase seams preparation) run fun _ run' =>
      Finalizing seams.checks tree flags run'.view := by
  unfold runPhase
  split_ifs
  · refine spec_bind.mpr (spec_nextCall.mpr ?_)
    have hcalled : Ready seams.checks .apply tree (.executed .archiveFinalization none) flags
        ({ run with calls := run.calls + 1 } : Run V).view := h
    rcases seams.finalization.plan run.calls with ((_ | detail) | message) | plan
    · exact h.finalizing
    · exact hcalled.strandedOther detail
    · exact hcalled.strandedPanic message
    · refine spec_bind.mpr (spec_countOf (fun hlength => ?_) fun message => hcalled.strandedPanic message)
      refine Finalizes.bind (finalizes_planPhase _ hcalled hunfinished) fun _ run' h' => ?_
      exact finalizes_finalizePlan plan h' (Evidence.room_zero hlength)
  · refine Finalizes.bind (finalizes_planPhase 0 h hunfinished) fun _ run' h' => ?_
    exact (finalizes_pruneRoots preparation.facts.modRoots h').mono (fun _ _ h => h.finalizing) (fun _ _ h => h) fun _ h => h

/-! ## The phase -/

/-- **The account is accepted** while the phase is open. -/
theorem steps_finishPhase (h : Finalizing seams.checks tree flags run.view) (hunfinished : flags.finished = false) :
    Steps seams.checks .apply tree (finishPhase : Running V Unit) run fun _ run' =>
      Ended seams.checks .apply tree run'.view := by
  obtain ⟨progress, h⟩ := h
  refine spec_bind.mpr (spec_getAccount.mpr ?_)
  obtain ⟨before, hphases⟩ : ∃ before, run.evidence.storage.phases =
      before ++ [RunPhaseRecord.executed .archiveFinalization progress] :=
    ⟨run.evidence.storage.phases.dropLast, (List.dropLast_append_getLast? _ h.current).symm⟩
  have hfinished : run.evidence.storage.archiveFinalizationCompleted = false :=
    (congrArg Flags.finished h.flags).trans hunfinished
  exact spec_endedRecorded (.finishArchiveFinalization run.account)
    (h.ended (by decide : RunPhase.archiveFinalization < .safetyCleanup))
    (Evidence.exactly_finishArchiveFinalization run.account hphases hfinished) rfl fun _ h => h

/-- **Archive Finalization.** -/
theorem steps_finalizeArchives (preparation : Preparation)
    (h : Ready seams.checks .apply tree (.executed .archiveFinalization none) flags run.view)
    (hunfinished : flags.finished = false) :
    Steps seams.checks .apply tree (finalizeArchives seams preparation) run fun _ run' =>
      Ended seams.checks .apply tree run'.view := by
  refine spec_bind.mpr (spec_modifyAccount.mpr (spec_bind.mpr (Prog.spec_attempt.mpr ?_)))
  have hreset : Ready seams.checks .apply tree (.executed .archiveFinalization none) flags
      ({ run with account := .default } : Run V).view := h
  refine (finalizes_runPhase preparation hreset hunfinished).mono (fun _ run' h' => steps_finishPhase h' hunfinished)
    (fun e run' h' => ?_) fun _ h => h
  rcases e with (message | detail) | message
  · exact absurd rfl (h'.1 message)
  · exact steps_finishPhase h'.2 hunfinished
  · exact steps_finishPhase h'.2 hunfinished

/-- Archive Finalization, planned by a Dry Run. -/
theorem works_planArchiveFinalization (preparation : Preparation)
    (h : Ready seams.checks mode tree latest routedFlags run.view) (hlatest : latest.phase < .archiveFinalization) :
    Works seams.checks mode tree (planArchiveFinalization seams preparation) run fun _ run' =>
      Ended seams.checks mode tree run'.view := by
  have hphase : RunPhase.archiveFinalization < .safetyCleanup := by decide
  refine spec_bind.mpr (spec_entered (.recordPhase (.planned .archiveFinalization)) (f := id) h hphase
    (Evidence.exactly_recordPhase (.inr ⟨latest, h.current, hlatest⟩) rfl (.inl (by decide)) (.inr (by decide))) h.flags
    fun run' _ h' => ?_)
  refine works_unlessCancelled h' hphase fun run' h' => ?_
  refine spec_bind.mpr (spec_call (fun planning => ?_) fun message => h'.escapes hphase message)
  have hcalled : Ready seams.checks mode tree (.planned .archiveFinalization) routedFlags
      ({ run' with calls := run'.calls + 1 } : Run V).view := h'
  cases planning with
  | notRequested => exact hcalled.ended hphase
  | cancelled => exact hcalled.ended hphase
  | failed detail => exact spec_bind.mpr (steps_recordFailure _ (hcalled.ended hphase))
  | planned outputs capacityWarning =>
    refine Steps.bind (steps_recordCapacityWarning capacityWarning hcalled) fun _ run' h' => ?_
    have hbasis : Evidence.Exactly (fun storage =>
        { storage with plannedArchiveWork :=
          { storage.plannedArchiveWork with outputBasis := some .estimateFromModRootsAsTheyAre } })
        run'.evidence.storage.phases (Evidence.recordOutputPlanBasis .estimateFromModRootsAsTheyAre) run'.evidence := by
      refine Evidence.exactly_getStorage (Evidence.exactly_require (h'.isCurrently _ _) (Evidence.exactly_require ?_ ⟨rfl, rfl⟩))
      have hbased : run'.evidence.storage.plannedArchiveWork.outputBasis.isSome = false := congrArg Flags.based h'.flags
      simpa using hbased
    refine Steps.bind (steps_retain (.recordOutputPlanBasis .estimateFromModRootsAsTheyAre) h' hbasis
      (congrArg (fun flags : Flags => { flags with based := true }) h'.flags)) fun _ run' h' => ?_
    refine Steps.bind (steps_forEach h' fun output run h => ?_) fun _ run' h' => h'.ended hphase
    have hbased : run.evidence.storage.plannedArchiveWork.outputBasis.isSome = true := congrArg Flags.based h.flags
    exact steps_retain (.recordPlannedOutput output) h (Evidence.exactly_getStorage (Evidence.exactly_require
      (h.isCurrently _ _) (Evidence.exactly_require hbased (Evidence.exactly_retain rfl)))) h.flags

/-- **The last phase of the work.** -/
theorem works_finalize (preparation : Preparation) (h : Ready seams.checks mode tree latest routedFlags run.view)
    (hlatest : latest.phase = .processingAssets) :
    Works seams.checks mode tree (finalize seams mode preparation) run fun _ run' =>
      Ended seams.checks mode tree run'.view := by
  have hphase : RunPhase.archiveFinalization < .safetyCleanup := by decide
  have hearlier : latest.phase < .archiveFinalization := hlatest ▸ (by decide)
  have hlt : latest.phase < .safetyCleanup := hlatest ▸ (by decide)
  refine Steps.bind (steps_publishDiagnostics h) fun _ run' h' => ?_
  refine works_unlessCancelled h' hlt fun run' h' => ?_
  cases mode with
  | dryRun => exact works_planArchiveFinalization preparation h' hearlier
  | apply =>
    rw [if_neg (by decide)]
    refine spec_bind.mpr (spec_entered .openArchiveFinalization (f := id) h' hphase
      (Evidence.exactly_openAttemptPhase h'.working.orderly.sound h'.current hearlier rfl rfl) h'.flags fun run' _ h' => ?_)
    refine works_unlessCancelled h' hphase fun run' h' => ?_
    exact Steps.bind (steps_finalizeArchives preparation h' rfl) fun _ _ h => h

/-! ## The work -/

variable [DecidableEq K]

/-- **The work of a run**, whose policy carries the run's mode. -/
theorem works_workPhases (cleanup : SourceCleanup) (preparation : Preparation)
    (hmode : preparation.policy.executionMode = mode)
    (h : Ready seams.checks mode tree (.executed .preparing none) preparedFlags run.view) :
    Works seams.checks mode tree (workPhases seams cleanup preparation) run fun _ run' =>
      Ended seams.checks mode tree run'.view := by
  subst hmode
  refine (works_discoverArchives preparation h).andThen fun archives run' h' => ?_
  refine (works_extractArchives cleanup archives.plans h').andThen fun _ run' h' => ?_
  obtain ⟨latest, hlatest, h'⟩ := h'
  refine (works_buildEffectiveAssetTree preparation archives h' hlatest).andThen fun ledger run' h' => ?_
  refine (works_processAssets preparation ledger h'.1 h'.2).andThen fun _ run' h' => ?_
  obtain ⟨progress, h'⟩ := h'
  exact works_finalize preparation h' rfl

end Cao.Executor
