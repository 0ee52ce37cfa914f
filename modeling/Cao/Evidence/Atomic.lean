import Cao.Evidence.Invariant

/-!
# Refused operations

An operation on the evidence that returns an error leaves the evidence as it was, even where it retains a fact before
its last check.

* `Atomic`, `Steady`: a program whose errors change nothing, and one that returns none;
* `Sound`: the phases strictly increase, and no phase that bears attempts completed more than its total;
* `Settles`: a program that keeps the evidence sound, and is atomic;
* **`operation_atomic`**: after every run, every operation that is refused changes nothing.
-/

namespace Cao.Evidence

open Prog (Spec spec_bind)

variable {checks : OverflowChecks} {sink : Option RunObservationSink} {evidence : MutableRunEvidence} {α β : Type}

/-! ## Programs whose errors change nothing -/

/-- An error of the program changes nothing. -/
def Atomic (x : Recording α) (evidence : MutableRunEvidence) : Prop :=
  Spec x evidence (fun _ _ => True) (fun e evidence' => ∀ message, e = .error message → evidence' = evidence)
    fun _ => False

/-- The program returns no error. -/
def Steady (x : Recording α) : Prop :=
  ∀ evidence, Spec x evidence (fun _ _ => True) (fun e _ => ∀ message, e ≠ .error message) fun _ => False

theorem Steady.atomic {x : Recording α} (h : Steady x) (evidence : MutableRunEvidence) : Atomic x evidence :=
  (h evidence).mono (fun _ _ _ => trivial) (fun _ _ he message hmessage => absurd hmessage (he message)) fun _ h => h

theorem Steady.bind {x : Recording α} {f : α → Recording β} (hx : Steady x) (hf : ∀ a, Steady (f a)) :
    Steady (x >>= f) := fun evidence =>
  spec_bind.mpr ((hx evidence).mono (fun a evidence' _ => hf a evidence') (fun _ _ h => h) fun _ h => h)

theorem steady_retain (f : Storage → Storage) : Steady (retain f) := fun _ => trivial

theorem steady_retainFailure (failure : RunFailure) : Steady (retainFailure failure) := fun _ => trivial

theorem steady_recordCancellationObservation : Steady recordCancellationObservation := fun _ => trivial

theorem steady_retainDiagnostic (diagnostic : RunDiagnostic) : Steady (retainDiagnostic diagnostic) := fun _ => trivial

theorem steady_publish (phase : RunPhase) (publication : Publication) : Steady (publish sink phase publication) :=
  fun evidence => (spec_publish phase publication evidence).mono (fun _ _ _ => trivial) (fun _ _ h => h.elim) fun _ h => h

/-- A publication that is not there panics. -/
theorem steady_publishDiagnostic (index : Nat) : Steady (publishDiagnostic sink index) := by
  intro evidence
  refine spec_bind.mpr (spec_bind.mpr (spec_getStorage.mpr ?_))
  split
  · exact fun message h => by cases h
  · exact steady_publish _ _ _

theorem steady_publishDiagnostics : Steady (publishDiagnostics sink) := by
  intro evidence
  refine spec_bind.mpr (Prog.spec_get.mpr ?_)
  exact Prog.Spec.forEach (I := fun _ _ _ => True) (fun _ index _ evidence _ => steady_publishDiagnostic index evidence)
    [] _ trivial

theorem steady_reportSafely (phase : RunPhase) (panicked : Option String) : Steady (reportSafely phase panicked) := by
  cases panicked with
  | none => exact fun _ => trivial
  | some detail => exact fun _ => trivial

theorem atomic_getStorage {f : Storage → Recording β} (h : Atomic (f evidence.storage) evidence) :
    Atomic (getStorage >>= f) evidence := h

theorem atomic_require {holds : Bool} {message : String} {f : Unit → Recording β}
    (h : holds = true → Atomic (f ()) evidence) : Atomic (require holds message >>= f) evidence :=
  spec_bind.mpr (spec_require.mpr ⟨h, fun _ _ _ => rfl⟩)

/-- **An operation that neither enters nor advances a phase is atomic**: its checks precede what it retains. -/
theorem atomic_untraversed (operation : Operation) (h : operation.traverses = false) :
    Atomic (operation.run checks sink) evidence := by
  cases operation with
  | recordPhase | openArchiveExtraction | openArchiveFinalization | openProcessingAssets => simp [Operation.traverses] at h
  | planArchiveFinalization | recordAttempt => simp [Operation.traverses] at h
  | recordDiagnostic diagnostic =>
    exact ((steady_retainDiagnostic diagnostic).bind fun _ => steady_publishDiagnostics).atomic evidence
  | retainDiagnostic diagnostic => exact (steady_retainDiagnostic diagnostic).atomic evidence
  | publishDiagnostics => exact steady_publishDiagnostics.atomic evidence
  | recordFailure failure => exact ((steady_retainFailure failure).bind fun _ => steady_publish _ _).atomic evidence
  | retainFailure failure => exact (steady_retainFailure failure).atomic evidence
  | recordCancellationObservation => exact steady_recordCancellationObservation.atomic evidence
  | reportSafely phase panicked => exact (steady_reportSafely phase panicked).atomic evidence
  | recordPreparation | recordArchiveCollisions | recordSkippedArchiveCounts | recordNestedArchiveCount =>
    exact atomic_getStorage (atomic_require fun _ => atomic_require fun _ => (steady_retain _).atomic evidence)
  | recordOutputPlanBasis | recordPlannedOutput =>
    exact atomic_getStorage (atomic_require fun _ => atomic_require fun _ => (steady_retain _).atomic evidence)
  | recordPlannedExtraction | recordSafetyCleanupFailure | finishArchiveFinalization =>
    exact atomic_getStorage (atomic_require fun _ => (steady_retain _).atomic evidence)

/-! ## Phases that can be advanced -/

/-- The phases strictly increase, and no phase that bears attempts completed more than its total. -/
structure Sound (checks : OverflowChecks) (evidence : MutableRunEvidence) : Prop where
  ordered : (evidence.storage.phases.map RunPhaseRecord.phase).Pairwise (· < ·)
  bounded : ∀ record ∈ evidence.storage.phases, record.phase ∈ attemptBearingPhases →
    ∀ progress, record.progress = some progress → progress.Bounded checks

theorem sound_new : Sound checks .new := ⟨.nil, nofun⟩

theorem Sound.congr {evidence' : MutableRunEvidence} (h : Sound checks evidence)
    (hphases : evidence'.storage.phases = evidence.storage.phases) : Sound checks evidence' :=
  ⟨hphases ▸ h.ordered, hphases ▸ h.bounded⟩

/-- A transition keeps the evidence sound, when its record's progress is bounded. -/
theorem Sound.accept {evidence' : MutableRunEvidence} {record : RunPhaseRecord} (h : Sound checks evidence)
    (hbounded : record.phase ∈ attemptBearingPhases → ∀ progress, record.progress = some progress →
      progress.Bounded checks)
    (htraverse : traverse checks evidence.storage.phases record = .ok evidence'.storage.phases) :
    Sound checks evidence' := by
  obtain ⟨before, hphases, hsub, hlt, -⟩ := traversed h.ordered htraverse
  constructor
  · rw [hphases, List.map_append, List.pairwise_append]
    refine ⟨h.ordered.sublist (hsub.map _), by simp, fun phase hphase phase' hphase' => ?_⟩
    obtain ⟨other, hbefore, rfl⟩ := List.mem_map.mp hphase
    rw [List.map_singleton, List.mem_singleton] at hphase'
    exact hphase' ▸ hlt other hbefore
  · rw [hphases]
    intro other hother
    rcases List.mem_append.mp hother with hbefore | hlast
    · exact h.bounded other (hsub.subset hbefore)
    · exact List.mem_singleton.mp hlast ▸ hbounded

/-- A later phase is entered. -/
theorem traverse_enters {phases : List RunPhaseRecord} {latest record : RunPhaseRecord}
    (hlast : phases.getLast? = some latest) (hlt : latest.phase < record.phase)
    (hzero : beginsAtZero checks record = .ok ()) : traverse checks phases record = .ok (phases ++ [record]) := by
  unfold traverse
  rw [hlast]
  dsimp only
  rw [if_neg hlt.ne, if_neg (not_le.mpr hlt), hzero]

/-- The current record is replaced. -/
theorem traverse_replaces {before : List RunPhaseRecord} {latest record : RunPhaseRecord}
    (hphase : latest.phase = record.phase) (hvalid : validateReplacement checks latest record = .ok ()) :
    traverse checks (before ++ [latest]) record = .ok (before ++ [record]) := by
  unfold traverse
  rw [List.getLast?_concat]
  dsimp only
  rw [if_pos hphase, hvalid, List.dropLast_concat]

/-! ## What every operation settles -/

/-- A program that keeps the evidence sound, and whose errors change nothing. -/
abbrev Settles (checks : OverflowChecks) (x : Recording Unit) (evidence : MutableRunEvidence) : Prop :=
  Spec x evidence (fun _ => Sound checks)
    (fun e evidence' => Sound checks evidence' ∧ ∀ message, e = .error message → evidence' = evidence) fun _ => False

theorem settles_getStorage {f : Storage → Recording Unit} (h : Settles checks (f evidence.storage) evidence) :
    Settles checks (getStorage >>= f) evidence := h

theorem settles_require {holds : Bool} {message : String} {f : Unit → Recording Unit} (h : Sound checks evidence)
    (hf : holds = true → Settles checks (f ()) evidence) : Settles checks (require holds message >>= f) evidence :=
  spec_bind.mpr (spec_require.mpr ⟨hf, fun _ => ⟨h, fun _ _ => rfl⟩⟩)

/-- A transition is accepted, or refused with nothing changed. -/
theorem settles_acceptPhase {record : RunPhaseRecord} (h : Sound checks evidence)
    (hbounded : record.phase ∈ attemptBearingPhases → ∀ progress, record.progress = some progress →
      progress.Bounded checks) : Settles checks (acceptPhase checks sink record) evidence := by
  refine (spec_acceptPhase record evidence).mono (fun _ evidence' haccepted => ?_) (fun _ _ hrefused => ?_) fun _ h => h
  · exact h.accept hbounded haccepted.traversed
  · obtain ⟨rfl, -⟩ := hrefused
    exact ⟨h, fun _ _ => rfl⟩

/-- **A transition that nothing refuses**: what was retained before it stays. -/
theorem settles_accepted {record : RunPhaseRecord} {evidence' : MutableRunEvidence} {phases : List RunPhaseRecord}
    (h : Sound checks evidence') (hvalid : validateProgress checks record = .ok ())
    (htraverse : traverse checks evidence'.storage.phases record = .ok phases)
    (hbounded : record.phase ∈ attemptBearingPhases → ∀ progress, record.progress = some progress →
      progress.Bounded checks) :
    Spec (acceptPhase checks sink record) evidence' (fun _ => Sound checks) (fun _ _ => False) fun _ => False := by
  refine (spec_acceptPhase record evidence').mono (fun _ _ haccepted => ?_) (fun e _ hrefused => ?_) fun _ h => h
  · exact h.accept hbounded haccepted.traversed
  · rcases hrefused.2 with hrefused | hrefused
    · exact absurd (hvalid.symm.trans hrefused) (by simp)
    · exact absurd (htraverse.symm.trans hrefused) (by simp)

/-- Nothing of a total is completed. -/
def zero (total : UInt64) : RunProgress := ⟨total, 0, 0⟩

theorem zero_completed (total : UInt64) : (zero total).completed checks = .ok 0 := by
  simp [zero, RunProgress.completed, addUsize, u64Size]

theorem zero_bounded (total : UInt64) : (zero total).Bounded checks :=
  ⟨0, zero_completed total, rfl, UInt64.le_iff_toNat_le.mpr (Nat.zero_le _)⟩

theorem validateProgress_zero (phase : RunPhase) (total : UInt64) :
    validateProgress checks (.executed phase (some (zero total))) = .ok () := by
  simp [validateProgress, RunPhaseRecord.progress, zero_completed]

variable (checks) in
theorem beginsAtZero_zero (phase : RunPhase) (total : UInt64) :
    beginsAtZero checks (.executed phase (some (zero total))) = .ok () := by
  simp [beginsAtZero, RunPhaseRecord.progress, zero_completed]

theorem settles_openAttemptPhase {phase : RunPhase} {progress : Option RunProgress} (h : Sound checks evidence)
    (hbounded : ∀ p, progress = some p → p.Bounded checks) :
    Settles checks (openAttemptPhase checks sink (.executed phase progress)) evidence :=
  settles_getStorage (settles_require h fun _ => settles_acceptPhase h fun _ => hbounded)

theorem settles_recordPhase {record : RunPhaseRecord} (h : Sound checks evidence) :
    Settles checks (recordPhase checks sink record) evidence := by
  refine settles_require h fun hbears => settles_require h fun _ => settles_acceptPhase h fun hbearing progress hsome => ?_
  -- a recorded phase that bears attempts is not executed, so it has no progress
  cases record with
  | executed => exact absurd hbearing (by simpa [RunPhaseRecord.status] using hbears)
  | skipped => cases hsome
  | planned => cases hsome

/-- The routing is retained before its phase is opened, and then nothing refuses it. -/
theorem settles_openProcessingAssets (ledger : RoutingLedger) (h : Sound checks evidence) :
    Settles checks (openProcessingAssets checks sink ledger) evidence := by
  refine settles_getStorage (settles_require h fun hready => settles_require h fun _ => spec_bind.mpr ?_)
  rw [decide_eq_true_eq] at hready
  have hcurrent := hready.1
  obtain ⟨total, htotal⟩ : ∃ total, total = UInt64.ofNatLT ledger.routedAssets.length ledger.fits := ⟨_, rfl⟩
  rw [← htotal]
  have h' : Sound checks { evidence with storage := { evidence.storage with routingLedger := some ledger } } := h.congr rfl
  obtain ⟨latest, hlast, hlatest⟩ := Option.map_eq_some_iff.mp hcurrent
  have hunopened : evidence.storage.phase .processingAssets = none := by
    refine List.find?_eq_none.mpr fun record hrecord heq => ?_
    rw [decide_eq_true_eq] at heq
    -- every record is at or before the latest
    obtain ⟨before, hphases⟩ : ∃ before, evidence.storage.phases = before ++ [latest] :=
      ⟨_, (List.dropLast_append_getLast? latest hlast).symm⟩
    have hordered := h.ordered
    rw [hphases, List.map_append, List.pairwise_append] at hordered
    rw [hphases] at hrecord
    rcases List.mem_append.mp hrecord with hbefore | hrecord
    · have hlt := hordered.2.2 _ (List.mem_map_of_mem hbefore) _ (List.mem_singleton_self _)
      rw [heq, hlatest] at hlt
      exact absurd hlt (by decide)
    · rw [List.mem_singleton.mp hrecord, hlatest] at heq
      cases heq
  have hlt : latest.phase < (RunPhaseRecord.executed .processingAssets (some (zero total))).phase := by
    rw [hlatest]
    exact (by decide : RunPhase.buildingEffectiveAssetTree < .processingAssets)
  have htraverse := traverse_enters hlast hlt (beginsAtZero_zero checks _ total)
  refine spec_retain.mpr (spec_bind.mpr (spec_getStorage.mpr (spec_bind.mpr (spec_require.mpr ⟨fun _ => ?_, ?_⟩))))
  · refine (settles_accepted h' (validateProgress_zero _ _) htraverse fun _ progress hsome => ?_).mono (fun _ _ h => h)
      (fun _ _ h => h.elim) fun _ h => h
    cases hsome
    exact zero_bounded total
  · intro hopened
    have hnone : (evidence.storage.phase .processingAssets).isNone = true := by rw [hunopened]; rfl
    exact absurd (hnone.symm.trans hopened) (by decide)

/-- The plan is retained before its transition, and then nothing refuses it. -/
theorem settles_planArchiveFinalization (total : UInt64) (h : Sound checks evidence) :
    Settles checks (planArchiveFinalization checks sink total) evidence := by
  refine settles_getStorage (settles_require h fun hplan => spec_bind.mpr (spec_retain.mpr ?_))
  simp only [Bool.and_eq_true] at hplan
  obtain ⟨before, current, hphases, hphase, hstatus⟩ := of_isCurrently hplan.1.2
  have hnone : current.progress = none := by simpa [hphases] using hplan.2
  have h' : Sound checks { evidence with storage := { evidence.storage with archiveFinalization := some .default } } :=
    h.congr rfl
  have htraverse : traverse checks evidence.storage.phases (.executed .archiveFinalization (some (zero total))) =
      .ok (before ++ [.executed .archiveFinalization (some (zero total))]) := by
    have hskip : current.skipReason = none := by
      cases current with
      | skipped => simp [RunPhaseRecord.status] at hstatus
      | _ => rfl
    have hvalid : validateReplacement checks current (.executed .archiveFinalization (some (zero total))) = .ok () := by
      have hsame : ¬(current.status ≠ .executed ∨ current.skipReason ≠ none) := by
        rw [hstatus, hskip]
        simp
      unfold validateReplacement
      split_ifs with hchanged
      · exact absurd hchanged hsame
      · rw [validateProgress_zero, hnone]
        exact beginsAtZero_zero checks _ _
    rw [hphases]
    exact traverse_replaces hphase hvalid
  refine (settles_accepted h' (validateProgress_zero _ _) htraverse fun _ progress hsome => ?_).mono (fun _ _ h => h)
    (fun _ _ h => h.elim) fun _ h => h
  cases hsome
  exact zero_bounded total

/-- The attempt is retained before its transition, and then nothing refuses it. -/
theorem settles_recordAttemptProgress (attempt : PhaseAttempt) (h : Sound checks evidence) :
    Settles checks (recordAttemptProgress checks sink attempt) evidence := by
  refine settles_getStorage (spec_bind.mpr (Prog.spec_ofExcept.mpr ⟨fun progress hprogress => ?_,
    fun _ _ => ⟨h, fun _ _ => rfl⟩⟩))
  refine spec_bind.mpr (Prog.spec_ofExcept.mpr ⟨fun completed hcompleted => ?_, fun _ _ => ⟨h, fun _ _ => rfl⟩⟩)
  refine settles_require h fun hlt => spec_bind.mpr (spec_retain.mpr ?_)
  have hcurrent : .executed attempt.phase (some progress) ∈ evidence.storage.phases :=
    List.mem_of_getLast? (currentProgress_ok hprogress)
  have hbearing : attempt.phase ∈ attemptBearingPhases := by
    cases attempt <;> simp [PhaseAttempt.phase, attemptBearingPhases]
  obtain ⟨after, hafter⟩ :=
    advances_of_lt hprogress (h.bounded _ hcurrent hbearing progress rfl) hcompleted (of_decide_eq_true hlt)
  refine spec_bind.mpr (Prog.spec_ofExcept.mpr ⟨fun after' hafter' => ?_, fun e he => ?_⟩)
  swap
  · exact absurd (hafter.advanced.symm.trans he) (by simp)
  obtain rfl : after = after' := Except.ok.inj (hafter.advanced.symm.trans hafter')
  have hphases : (attempt.retain evidence.storage).phases = evidence.storage.phases := attempt.retain_phases
  have h' : Sound checks { evidence with storage := attempt.retain evidence.storage } := h.congr hphases
  refine (settles_accepted h' hafter.valid (hphases ▸ hafter.traversed) fun _ progress hsome => ?_).mono (fun _ _ h => h)
    (fun _ _ h => h.elim) fun _ h => h
  cases hsome
  exact hafter.bounded

/-- **Every operation keeps the evidence sound, and its errors change nothing.** -/
theorem settles_run (operation : Operation) (h : Sound checks evidence) :
    Settles checks (operation.run checks sink) evidence := by
  cases hsilent : operation.traverses with
  | false =>
    refine ((along_untouched operation hsilent evidence).and (atomic_untraversed operation hsilent)).mono
      (fun _ _ hboth => h.congr hboth.1.1.phases) (fun _ _ hboth => ⟨h.congr hboth.1.phases, hboth.2⟩) fun _ h => h.1
  | true =>
    cases operation with
    | recordPhase record => exact settles_recordPhase h
    | openArchiveExtraction total =>
      refine settles_openAttemptPhase h fun p hp => ?_
      cases hp
      exact zero_bounded total
    | openArchiveFinalization => exact settles_openAttemptPhase h fun p hp => by cases hp
    | openProcessingAssets ledger => exact settles_openProcessingAssets ledger h
    | planArchiveFinalization total => exact settles_planArchiveFinalization total h
    | recordAttempt attempt => exact settles_recordAttemptProgress attempt h
    | _ => simp [Operation.traverses] at hsilent

/-- **A run keeps the evidence sound.** -/
theorem run_sound {operations : List Operation} {evidence' : MutableRunEvidence}
    (hrun : Trace (perform checks sink) operations evidence evidence') (h : Sound checks evidence) :
    Sound checks evidence' := by
  refine hrun.invariant (fun operation _ evidence evidence' hstep h => ?_) h
  have hsettles : Settles checks (operation.run checks sink) evidence := settles_run operation h
  unfold Settles Spec at hsettles
  rw [hstep]
  generalize operation.run checks sink evidence = ended at hsettles ⊢
  obtain ⟨_ | _ | _, evidence'⟩ := ended
  · exact hsettles
  · exact hsettles.1
  · exact hsettles.elim

/-- **After every run of operations, accepted or refused, an operation that returns an error leaves the evidence as it
was**: all that is retained, and all that was published. -/
theorem operation_atomic {before : List Operation} {operation : Operation} {evidence evidence' : MutableRunEvidence}
    {message : String} (hrun : Trace (perform checks sink) before .new evidence)
    (hfail : operation.run checks sink evidence = (.fail (.error message), evidence')) : evidence' = evidence := by
  have hsettles : Settles checks (operation.run checks sink) evidence := settles_run operation (run_sound hrun sound_new)
  unfold Settles Spec at hsettles
  rw [hfail] at hsettles
  exact hsettles.2 message rfl

/-- The evidence of a run that began preparing. -/
def preparing : MutableRunEvidence := ((Operation.recordPhase (.executed .preparing none)).run .on none .new).2

/-- An attempt outside its phase. -/
def strayAttempt : Operation := .recordAttempt (.extraction ⟨[], [], .succeeded .committed⟩)

/-- It is refused. -/
theorem operation_atomic_sample : (strayAttempt.run .on none preparing).2 = preparing := by
  have hrun : Trace (perform .on none) [.recordPhase (.executed .preparing none)] .new preparing := ⟨_, rfl, rfl⟩
  have hfail : strayAttempt.run .on none preparing =
      (.fail (.error "Archive extraction attempts must be recorded during Extracting Archives"),
        (strayAttempt.run .on none preparing).2) := rfl
  exact operation_atomic hrun hfail

end Cao.Evidence
