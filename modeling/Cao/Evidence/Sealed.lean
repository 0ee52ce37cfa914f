import Cao.Evidence.Atomic

/-!
# Sealed evidence

What is left of a run's evidence once it is consumed (`run/evidence.rs`), and the view of its completed attempts.

* `AttemptFacts`, `CompletedAttempt`, `Storage.completedAttempts`: the view;
* `RunEvidence`, `consume`: the evidence of a finished run;
* `KeptRetaining`, `KeptPublishing`, `keeps_operation`: invariants that an operation keeps, diagnostics apart;
* `Publishable`: every publication that is due names a retained diagnostic;
* **`keeps_publishable`**: every operation keeps it so.
-/

namespace Cao.Evidence

open Finalize Pack
open Prog (Keeps Spec spec_bind)

/-! ## Completed attempts -/

/-- `MutationKind`. -/
inductive MutationKind
  | archiveExtraction
  | assetProcessing
  | archiveFinalization
  deriving DecidableEq, Repr

/-- `AttemptFacts`. -/
structure AttemptFacts where
  mutation : MutationState
  succeeded : Bool
  safeToContinue : Bool
  deriving DecidableEq, Repr

/-- `CompletedAttempt`. -/
structure CompletedAttempt where
  kind : MutationKind
  modRoot : Path
  facts : AttemptFacts
  deriving DecidableEq, Repr

end Cao.Evidence

namespace Cao

/-- `AttemptOutcome::facts`. -/
def AttemptOutcome.facts {F : Type} (outcome : AttemptOutcome F) : Evidence.AttemptFacts :=
  ⟨outcome.mutation, outcome.isSuccess, outcome.safeToContinue⟩

end Cao

namespace Cao.Evidence

open Finalize Pack
open Prog (Keeps Spec spec_bind)

/-- What `completed_attempts` makes of one attempt. -/
def PhaseAttempt.completed : PhaseAttempt → CompletedAttempt
  | extraction attempt => ⟨.archiveExtraction, attempt.modRoot, attempt.outcome.facts⟩
  | asset attempt => ⟨.assetProcessing, attempt.modRoot, attempt.result.outcome.facts⟩
  | finalization attempt => ⟨.archiveFinalization, attempt.modRoot, attempt.outcome.facts⟩

/-- `Storage::completed_attempts`. -/
def Storage.completedAttempts (storage : Storage) : List CompletedAttempt :=
  storage.archiveExtractionAttempts.map (fun attempt => (PhaseAttempt.extraction attempt).completed) ++
    storage.assetAttempts.map (fun attempt => (PhaseAttempt.asset attempt).completed) ++
      ((storage.archiveFinalization.map ArchiveFinalizationResult.attempts).getD []).map fun attempt =>
        (PhaseAttempt.finalization attempt).completed

/-! ## Consuming -/

/-- `RunEvidence`: what was retained, and the cleanup failures derived from it. -/
structure RunEvidence where
  storage : Storage
  cleanupFailures : List RunFailure
  deriving DecidableEq

/-- `consume`. -/
def consume : Recording RunEvidence := do
  let storage ← getStorage
  require (storage.currentPhase = some .safetyCleanup) "Run Evidence can only be consumed after Safety Cleanup"
  return {
    storage
    cleanupFailures :=
      storage.assetAttempts.flatMap (fun attempt => attempt.result.cleanupFailures) ++ storage.safetyCleanupFailures }

/-! ## Publications that are due -/

variable {checks : OverflowChecks} {sink : Option RunObservationSink} {evidence : MutableRunEvidence} {α : Type}

/-- Every publication that is due names a retained diagnostic. -/
def Publishable (evidence : MutableRunEvidence) : Prop :=
  ∀ index ∈ evidence.diagnosticPublications, index < evidence.storage.diagnostics.length

theorem publishable_new : Publishable .new := nofun

/-- Whether an operation may add to the diagnostics or publish one. -/
def Operation.speaks : Operation → Bool
  | recordDiagnostic _ | retainDiagnostic _ | publishDiagnostics | reportSafely .. => true
  | _ => false

/-! ### Invariants that retaining and publishing keep -/

section Kept

variable {P : MutableRunEvidence → Prop}

theorem keeps_getStorage : Keeps P getStorage := fun _ h => h

theorem keeps_require {holds : Bool} {message : String} : Keeps P (require holds message) := by
  unfold require
  split_ifs
  · exact Prog.keeps_pure ()
  · exact Prog.keeps_fail _

/-- `P` stays whatever is retained, diagnostics apart. -/
def KeptRetaining (P : MutableRunEvidence → Prop) : Prop :=
  ∀ f : Storage → Storage, (∀ storage, (f storage).diagnostics = storage.diagnostics) → Keeps P (retain f)

/-- `P` stays when a phase or a failure is published. -/
def KeptPublishing (sink : Option RunObservationSink) (P : MutableRunEvidence → Prop) : Prop :=
  (∀ record, Keeps P (publish sink record.phase (.phase record))) ∧
    ∀ failure, Keeps P (publish sink failure.phase (.failure failure))

variable (hretain : KeptRetaining P) (hpublish : KeptPublishing sink P)

include hretain hpublish

theorem keeps_acceptPhase (record : RunPhaseRecord) : Keeps P (acceptPhase checks sink record) := by
  refine (Prog.keeps_ofExcept _).bind fun _ => keeps_getStorage.bind fun storage => ?_
  refine (Prog.keeps_ofExcept _).bind fun phases => Keeps.bind (hretain _ fun _ => rfl) fun _ => ?_
  exact hpublish.1 record

theorem keeps_openAttemptPhase (record : RunPhaseRecord) : Keeps P (openAttemptPhase checks sink record) :=
  keeps_getStorage.bind fun _ => keeps_require.bind fun _ => keeps_acceptPhase hretain hpublish record

theorem keeps_recordAttemptProgress (attempt : PhaseAttempt) : Keeps P (recordAttemptProgress checks sink attempt) := by
  refine keeps_getStorage.bind fun storage => (Prog.keeps_ofExcept _).bind fun progress => ?_
  refine (Prog.keeps_ofExcept _).bind fun completed => keeps_require.bind fun _ => ?_
  refine Keeps.bind (hretain _ fun storage => ?_) fun _ => ?_
  · cases attempt <;> rfl
  · exact (Prog.keeps_ofExcept _).bind fun advanced => keeps_acceptPhase hretain hpublish _

/-- **An operation that does not speak keeps what retaining and publishing keep.** -/
theorem keeps_operation (operation : Operation) (h : operation.speaks = false) :
    Keeps P (operation.run checks sink) := by
  cases operation with
  | recordDiagnostic | retainDiagnostic | publishDiagnostics | reportSafely => cases h
  | recordPhase record =>
    exact keeps_require.bind fun _ => keeps_require.bind fun _ => keeps_acceptPhase hretain hpublish record
  | recordFailure failure => exact Keeps.bind (hretain _ fun _ => rfl) fun _ => hpublish.2 failure
  | retainFailure failure =>
    show Keeps P (Evidence.retainFailure failure)
    unfold Evidence.retainFailure
    exact hretain _ fun _ => rfl
  | openArchiveExtraction total => exact keeps_openAttemptPhase hretain hpublish _
  | openArchiveFinalization => exact keeps_openAttemptPhase hretain hpublish _
  | openProcessingAssets ledger =>
    refine keeps_getStorage.bind fun _ => keeps_require.bind fun _ => keeps_require.bind fun _ => ?_
    exact Keeps.bind (hretain _ fun _ => rfl) fun _ => keeps_openAttemptPhase hretain hpublish _
  | planArchiveFinalization total =>
    refine keeps_getStorage.bind fun _ => keeps_require.bind fun _ => ?_
    exact Keeps.bind (hretain _ fun _ => rfl) fun _ => keeps_acceptPhase hretain hpublish _
  | recordAttempt attempt => exact keeps_recordAttemptProgress hretain hpublish attempt
  | recordPreparation | recordArchiveCollisions | recordSkippedArchiveCounts | recordNestedArchiveCount =>
    exact keeps_getStorage.bind fun _ => keeps_require.bind fun _ => keeps_require.bind fun _ => hretain _ fun _ => rfl
  | recordOutputPlanBasis | recordPlannedOutput =>
    exact keeps_getStorage.bind fun _ => keeps_require.bind fun _ => keeps_require.bind fun _ => hretain _ fun _ => rfl
  | recordPlannedExtraction | recordSafetyCleanupFailure | finishArchiveFinalization =>
    exact keeps_getStorage.bind fun _ => keeps_require.bind fun _ => hretain _ fun _ => rfl
  | recordCancellationObservation =>
    show Keeps P Evidence.recordCancellationObservation
    unfold Evidence.recordCancellationObservation
    exact hretain _ fun _ => rfl

end Kept

/-! ### Publishable evidence -/

theorem keptRetaining_publishable : KeptRetaining Publishable := fun _ h evidence hdue index hindex =>
  lt_of_lt_of_eq (hdue index hindex) (congrArg List.length (h evidence.storage).symm)

theorem keeps_reportSafely (phase : RunPhase) (panicked : Option String) :
    Keeps Publishable (reportSafely phase panicked) := by
  cases panicked with
  | none => exact Prog.keeps_pure ()
  | some detail =>
    intro evidence hdue index hindex
    show index < (evidence.storage.diagnostics ++ [_]).length
    rw [List.length_append]
    exact Nat.lt_of_lt_of_le (hdue index hindex) (Nat.le_add_right _ _)

theorem keeps_publish (phase : RunPhase) (publication : Publication) :
    Keeps Publishable (publish sink phase publication) := by
  cases sink with
  | none => exact Prog.keeps_pure ()
  | some sink =>
    refine Keeps.bind Prog.keeps_get fun evidence => Keeps.bind (fun _ h => h) fun _ => ?_
    exact keeps_reportSafely _ _

theorem keeps_retainDiagnostic (diagnostic : RunDiagnostic) : Keeps Publishable (retainDiagnostic diagnostic) := by
  intro evidence h index hindex
  show index < (evidence.storage.diagnostics ++ [diagnostic]).length
  rw [List.length_append, List.length_singleton]
  rcases List.mem_append.mp hindex with hdue | hnew
  · exact Nat.lt_succ_of_lt (h index hdue)
  · exact List.mem_singleton.mp hnew ▸ Nat.lt_succ_self _

theorem keeps_publishDiagnostic (index : Nat) : Keeps Publishable (publishDiagnostic sink index) := by
  refine Keeps.bind (fun _ h => h) fun _ => keeps_getStorage.bind fun storage => ?_
  cases storage.diagnostics[index]? with
  | none => exact Prog.keeps_fail _
  | some diagnostic => exact keeps_publish _ _

theorem keeps_publishDiagnostics : Keeps Publishable (publishDiagnostics sink) :=
  Prog.keeps_get.bind fun _ => Keeps.forEach keeps_publishDiagnostic _

/-- **Every operation keeps the evidence publishable.** -/
theorem keeps_publishable (operation : Operation) : Keeps Publishable (operation.run checks sink) := by
  by_cases hspeaks : operation.speaks
  · cases operation with
    | recordDiagnostic diagnostic => exact (keeps_retainDiagnostic diagnostic).bind fun _ => keeps_publishDiagnostics
    | retainDiagnostic diagnostic => exact keeps_retainDiagnostic diagnostic
    | publishDiagnostics => exact keeps_publishDiagnostics
    | reportSafely phase panicked => exact keeps_reportSafely phase panicked
    | _ => cases hspeaks
  · exact keeps_operation keptRetaining_publishable ⟨fun _ => keeps_publish _ _, fun _ => keeps_publish _ _⟩ operation
      (by simpa using hspeaks)

end Cao.Evidence
