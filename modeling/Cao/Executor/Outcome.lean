import Cao.Evidence.Summaries
import Cao.Executor.Execute

/-!
# The account of a sealed run

What a run's sealed evidence says of its effects, and what its outcome says of the evidence.

* `facts_safe`: a success is safe to continue;
* `consume_done`: what sealed evidence holds;
* `classify_succeeded_iff`: when a run has succeeded;
* **`sealed_account`**: the summaries and the outcome of sealed evidence.
-/

namespace Cao.Executor

open Evidence (RunEvidence MutableRunEvidence CompletedAttempt recordedCount)

variable {evidence : MutableRunEvidence} {result : RunEvidence}

theorem facts_safe {F : Type} {outcome : AttemptOutcome F} (h : outcome.facts.succeeded = true) :
    outcome.facts.safeToContinue = true := by
  cases outcome with
  | succeeded mutation => rfl
  | failed failure mutation claimed => cases h

/-- Every completed attempt that succeeded is safe to continue. -/
theorem completedAttempt_safe {storage : Evidence.Storage} {attempt : CompletedAttempt}
    (hattempt : attempt ∈ storage.completedAttempts) (h : attempt.facts.succeeded = true) :
    attempt.facts.safeToContinue = true := by
  unfold Evidence.Storage.completedAttempts at hattempt
  rcases List.mem_append.mp hattempt with hattempt | hattempt
  · rcases List.mem_append.mp hattempt with hattempt | hattempt
    · obtain ⟨extraction, -, rfl⟩ := List.mem_map.mp hattempt
      exact facts_safe h
    · obtain ⟨asset, -, rfl⟩ := List.mem_map.mp hattempt
      exact facts_safe h
  · obtain ⟨finalization, -, rfl⟩ := List.mem_map.mp hattempt
    exact facts_safe h

/-- What sealed evidence holds: what was retained, and the failures of Safety Cleanup alone. -/
theorem consume_done (h : (Evidence.consume evidence).1 = .done result) :
    result.storage = evidence.storage ∧ result.cleanupFailures = evidence.storage.safetyCleanupFailures := by
  have hlocal : evidence.storage.assetAttempts.flatMap (fun attempt => attempt.result.cleanupFailures) = [] :=
    List.flatMap_eq_nil_iff.mpr fun attempt _ => attempt.result.clean
  have hspec : Prog.Spec Evidence.consume evidence
      (fun result _ => result.storage = evidence.storage ∧
        result.cleanupFailures = evidence.storage.safetyCleanupFailures) (fun _ _ => True) fun _ => True := by
    refine Prog.spec_bind.mpr (Evidence.spec_getStorage.mpr (Prog.spec_bind.mpr (Evidence.spec_require.mpr ?_)))
    refine ⟨fun _ => ⟨rfl, ?_⟩, fun _ => trivial⟩
    show evidence.storage.assetAttempts.flatMap _ ++ _ = _
    rw [hlocal, List.nil_append]
  unfold Prog.Spec at hspec
  split at hspec
  · next value evidence' hrun =>
    rw [hrun] at h
    cases h
    exact hspec
  · next hrun =>
    rw [hrun] at h
    cases h
  · next hrun =>
    rw [hrun] at h
    cases h

/-- When a run has succeeded. -/
theorem classify_succeeded_iff :
    classifyTerminalOutcome result = .succeeded ↔
      result.storage.failures = [] ∧
        (∀ finalization ∈ result.storage.archiveFinalization,
          finalization.safeToContinue = true ∧ finalization.failure = none) ∧
        (∀ attempt ∈ result.storage.completedAttempts, attempt.facts.succeeded = true) ∧
        result.storage.cancellationObserved = false ∧ result.cleanupFailures = [] := by
  have hunsafe : unsafeWork result.storage = false ↔ result.storage.failures = [] ∧
      (∀ finalization ∈ result.storage.archiveFinalization, finalization.safeToContinue = true) ∧
      ∀ attempt ∈ result.storage.completedAttempts, attempt.facts.safeToContinue = true := by
    unfold unsafeWork
    cases result.storage.archiveFinalization <;> simp [and_assoc]
  have hcontained : containedFailure result.storage = false ↔
      (∀ finalization ∈ result.storage.archiveFinalization, finalization.failure = none) ∧
      ∀ attempt ∈ result.storage.completedAttempts, attempt.facts.succeeded = true := by
    unfold containedFailure
    cases result.storage.archiveFinalization <;> simp
  constructor
  · intro h
    unfold classifyTerminalOutcome at h
    split_ifs at h with hwork hcancelled hservice hfailure
    have hcalm : containedFailure result.storage = false ∧ result.cleanupFailures = [] := by simpa using hfailure
    obtain ⟨hfailures, hsafe, -⟩ := hunsafe.mp (by simpa using hwork)
    obtain ⟨hnone, hsucceeded⟩ := hcontained.mp hcalm.1
    exact ⟨hfailures, fun finalization hmem => ⟨hsafe finalization hmem, hnone finalization hmem⟩, hsucceeded,
      by simpa using hcancelled, hcalm.2⟩
  · rintro ⟨hfailures, hfinalization, hsucceeded, hcancelled, hcleanup⟩
    have hwork : unsafeWork result.storage = false :=
      hunsafe.mpr ⟨hfailures, fun finalization hmem => (hfinalization finalization hmem).1,
        fun attempt hmem => completedAttempt_safe hmem (hsucceeded attempt hmem)⟩
    have hcalm : containedFailure result.storage = false :=
      hcontained.mpr ⟨fun finalization hmem => (hfinalization finalization hmem).2, hsucceeded⟩
    unfold classifyTerminalOutcome
    rw [hwork, hcancelled, hcalm, hcleanup]
    rfl

/-- A run that extracted an Archive, and whose Safety Cleanup is over. -/
def extractedEvidence : MutableRunEvidence :=
  { MutableRunEvidence.new with
    storage := { Evidence.Storage.default with
      phases := [.executed .safetyCleanup none]
      archiveExtractionAttempts := [⟨[], [], .succeeded .committed⟩] } }

end Cao.Executor
