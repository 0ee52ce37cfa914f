import Cao.Executor.Ready
import Cao.Staging.RoundTrip

/-!
# What Processing Assets attempts

The attempts of `process_assets` and the progress they are counted in, where the phase runs to its end.

* `CountsTo`: the progress of the current phase, as the attempts have advanced it;
* `spec_acceptRecord`, `spec_countAttempt`, `spec_openAssets`: what the evidence's operations leave of it;
* `covers_attemptAssets`: a loop that goes on has attempted every asset, in order;
* `perm_attempted`: a ledger without Archives is Textures, Meshes and Animations;
* **`processAssets_covers`**: the attempts are the ledger, kind by kind, and what is completed is the total.
-/

namespace Cao.Executor

open Evidence (RunPhase RunPhaseRecord RunProgress Recording MutableRunEvidence Storage)
open Prog (Spec spec_bind)
open Routing

variable {K : Type} {V : Volume K} {table : UpcaseTable} {checks : OverflowChecks}
  {sink : Option Evidence.RunObservationSink} {evidence : MutableRunEvidence}

/-! ## Counting -/

/-- The progress of the current phase: of this total, so many are completed. -/
def CountsTo (phase : RunPhase) (total : UInt64) (completed : Nat) (storage : Storage) : Prop :=
  ∃ progress : RunProgress, storage.phases.getLast? = some (.executed phase (some progress)) ∧ progress.total = total ∧
    progress.succeeded.toNat + progress.failed.toNat = completed ∧ completed ≤ total.toNat

theorem attempts_of_facts {storage storage' : Storage} (h : storage'.facts = storage.facts) :
    storage'.assetAttempts = storage.assetAttempts := by
  have hattempts := congrArg Storage.assetAttempts h
  exact hattempts

/-- **An accepted record is the current one**, and no other fact changes. -/
theorem spec_acceptRecord (record : RunPhaseRecord) :
    Spec (Evidence.acceptPhase checks sink record) evidence
      (fun _ evidence' => evidence'.storage.facts = evidence.storage.facts ∧
        evidence'.storage.phases.getLast? = some record)
      (fun _ _ => True) fun _ => True := by
  refine spec_bind.mpr (Prog.spec_ofExcept.mpr ⟨fun _ _ => ?_, fun _ _ => trivial⟩)
  refine spec_bind.mpr (Evidence.spec_getStorage.mpr ?_)
  refine spec_bind.mpr (Prog.spec_ofExcept.mpr ⟨fun phases hphases => ?_, fun _ _ => trivial⟩)
  have hlast : phases.getLast? = some record := by
    rcases Evidence.traverse_ok hphases with ⟨rfl, -, -⟩ | ⟨before, latest, -, rfl, -, -⟩
    · exact List.getLast?_concat
    · exact List.getLast?_concat
  refine spec_bind.mpr (Evidence.spec_retain.mpr ?_)
  refine (Evidence.exactly_publish record.phase (.phase record)).mono (fun _ evidence' h => ⟨h.1, ?_⟩)
    (fun _ _ h => h.elim) fun _ h => h.elim
  rw [h.2]
  exact hlast

/-- **An attempt is counted once.** -/
theorem spec_countAttempt (attempt : Evidence.PhaseAttempt) {total : UInt64} {completed : Nat}
    (h : CountsTo attempt.phase total completed evidence.storage) :
    Spec (Evidence.recordAttemptProgress checks sink attempt) evidence
      (fun _ evidence' => evidence'.storage.facts = (attempt.retain evidence.storage).facts ∧
        CountsTo attempt.phase total (completed + 1) evidence'.storage)
      (fun _ _ => True) fun _ => True := by
  obtain ⟨progress, hlast, htotal, hcompleted, hle⟩ := h
  have hbounded : progress.Bounded checks := RunProgress.bounded_iff.mpr (by rw [hcompleted, htotal]; exact hle)
  refine spec_bind.mpr (Evidence.spec_getStorage.mpr (spec_bind.mpr (Prog.spec_ofExcept.mpr
    ⟨fun current hcurrent => ?_, fun _ _ => trivial⟩)))
  refine spec_bind.mpr (Prog.spec_ofExcept.mpr ⟨fun sum hsum => ?_, fun _ _ => trivial⟩)
  refine spec_bind.mpr (Evidence.spec_require.mpr ⟨fun hlt => ?_, fun _ => trivial⟩)
  obtain rfl : progress = current := by
    have hsame := hlast.symm.trans (Evidence.currentProgress_ok hcurrent)
    injection hsame with hsame
    injection hsame with _ hsame
    injection hsame
  obtain ⟨after, hafter⟩ := Evidence.advances_of_lt hcurrent hbounded hsum (of_decide_eq_true hlt)
  refine spec_bind.mpr (Evidence.spec_retain.mpr ?_)
  refine spec_bind.mpr (Prog.spec_ofExcept.mpr ⟨fun after' hafter' => ?_, fun _ _ => trivial⟩)
  obtain rfl : after = after' := Except.ok.inj (hafter.advanced.symm.trans hafter')
  have hroom : progress.succeeded.toNat + progress.failed.toNat < progress.total.toNat := by
    obtain ⟨sum', hsum', hexact, -⟩ := hbounded
    obtain rfl : sum = sum' := Except.ok.inj (hsum.symm.trans hsum')
    rw [← hexact]
    exact UInt64.lt_iff_toNat_lt.mp (of_decide_eq_true hlt)
  obtain ⟨after', hadvanced, htotal', -⟩ := @RunProgress.advanced_ok checks _ attempt.succeeded hroom
  obtain rfl : after = after' := Except.ok.inj (hafter.advanced.symm.trans hadvanced)
  refine (spec_acceptRecord _).mono (fun _ evidence' haccepted => ⟨haccepted.1, after, haccepted.2, ?_, ?_, ?_⟩)
    (fun _ _ h => h) fun _ h => h
  · rw [htotal', htotal]
  · rw [hafter.succeeded, hafter.failed]
    split_ifs <;> omega
  · rw [hcompleted, htotal] at hroom
    exact hroom

/-- **Processing Assets opens with nothing completed.** -/
theorem spec_openAssets (ledger : Evidence.RoutingLedger) :
    Spec (Evidence.openProcessingAssets checks sink ledger) evidence
      (fun _ evidence' => evidence'.storage.assetAttempts = evidence.storage.assetAttempts ∧
        CountsTo .processingAssets (.ofNatLT ledger.routedAssets.length ledger.fits) 0 evidence'.storage)
      (fun _ _ => True) fun _ => True := by
  refine spec_bind.mpr (Evidence.spec_getStorage.mpr (spec_bind.mpr (Evidence.spec_require.mpr
    ⟨fun _ => ?_, fun _ => trivial⟩)))
  refine spec_bind.mpr (Evidence.spec_require.mpr ⟨fun _ => ?_, fun _ => trivial⟩)
  refine spec_bind.mpr (Evidence.spec_retain.mpr (spec_bind.mpr (Evidence.spec_getStorage.mpr ?_)))
  refine spec_bind.mpr (Evidence.spec_require.mpr ⟨fun _ => ?_, fun _ => trivial⟩)
  refine (spec_acceptRecord _).mono (fun _ evidence' h => ⟨?_, _, h.2, rfl, rfl, Nat.zero_le _⟩) (fun _ _ h => h) fun _ h => h
  show evidence'.storage.assetAttempts = ({ evidence.storage with routingLedger := some ledger } : Storage).assetAttempts
  exact attempts_of_facts h.1

/-! ## One attempt -/

section Attempts

variable {seams : RunSeams V table} {run : Run V} {total : UInt64} {completed : Nat}

/-- The current phase and the attempts stay as they are. -/
structure SameAccount (run run' : Run V) : Prop where
  phases : run'.evidence.storage.phases = run.evidence.storage.phases
  attempts : run'.evidence.storage.assetAttempts = run.evidence.storage.assetAttempts

theorem SameAccount.trans {run' run'' : Run V} (h : SameAccount run run') (h' : SameAccount run' run'') :
    SameAccount run run'' := ⟨h'.phases.trans h.phases, h'.attempts.trans h.attempts⟩

/-- What an operation on the evidence leaves, where nothing is asked of its failures. -/
theorem spec_recordingDone {α : Type} {x : Recording α} {Q : α → MutableRunEvidence → Prop}
    (h : Spec x run.evidence Q (fun _ _ => True) fun _ => True) :
    Spec (recording x) run (fun a run' => Q a run'.evidence ∧ run' = { run with evidence := run'.evidence })
      (fun _ _ => True) fun _ => True := by
  unfold Spec recording at *
  generalize x run.evidence = ended at h ⊢
  obtain ⟨_ | (_ | _) | _, evidence⟩ := ended
  · exact ⟨h, rfl⟩
  · trivial
  · trivial
  · trivial

theorem spec_retainEach (diagnostics : List Evidence.RunDiagnostic) :
    Spec (Prog.forEach diagnostics fun diagnostic => recording (Evidence.retainDiagnostic diagnostic)) run
      (fun _ run' => SameAccount run run') (fun _ _ => True) fun _ => True :=
  Prog.Spec.forEach (I := fun _ _ run' => SameAccount run run')
    (fun _ diagnostic _ run' h => (@spec_recordingDone _ _ run' _ (Evidence.retainDiagnostic diagnostic)
      (fun _ evidence' => evidence'.storage.phases = run'.evidence.storage.phases ∧
        evidence'.storage.assetAttempts = run'.evidence.storage.assetAttempts) ⟨rfl, rfl⟩).mono
      (fun _ _ h' => h.trans ⟨h'.1.1, h'.1.2⟩) (fun _ _ h => h) fun _ h => h) [] diagnostics ⟨rfl, rfl⟩

theorem spec_onSiteDone {α : Type} {x : Prog (Asset.AssetSite V) Empty α} :
    Spec (onSite x) run (fun _ run' => run'.evidence = run.evidence) (fun _ _ => True) fun _ => True := by
  unfold Spec onSite
  generalize x { run.site with log := [] } = ended
  obtain ⟨_ | e | _, site⟩ := ended
  · rfl
  · exact e.elim
  · trivial

variable [DecidableEq K]

/-- An attempt is of its asset, and records nothing itself. -/
theorem spec_attemptOf (modRoots : List Path) (asset : RoutedAsset) :
    Spec (attemptAsset seams modRoots asset) run
      (fun attempt run' => SameAccount run run' ∧ ∀ a ∈ attempt, a.asset = asset.fact) (fun _ _ => True)
      fun _ => True := by
  refine spec_bind.mpr (spec_nextCall.mpr ?_)
  cases attributedModRoot ((seams.weaklyCanonical run.calls asset.executionPath).getD asset.executionPath) modRoots with
  | none =>
    refine ⟨⟨rfl, rfl⟩, fun a ha => ?_⟩
    cases ha
    rfl
  | some modRoot =>
    refine spec_bind.mpr (spec_onSiteDone.mono (fun attempted run' h => ?_) (fun _ _ h => h) fun _ h => h)
    obtain ⟨result, events⟩ := attempted
    refine spec_bind.mpr ((spec_retainEach _).mono (fun _ run'' h' => ?_) (fun _ _ h => h) fun _ h => h)
    have hsame : SameAccount run run' := ⟨congrArg (fun evidence => evidence.storage.phases) h,
      congrArg (fun evidence => evidence.storage.assetAttempts) h⟩
    refine ⟨hsame.trans h', fun a ha => ?_⟩
    cases result with
    | none => cases ha
    | some result =>
      cases ha
      rfl

/-- Attempts of these assets, in this order, are recorded and counted. -/
structure Covers (total : UInt64) (completed : Nat) (assets : List RoutedAsset) (run run' : Run V) : Prop where
  attempted : ∃ attempts, run'.evidence.storage.assetAttempts = run.evidence.storage.assetAttempts ++ attempts ∧
    attempts.map Evidence.RoutedAssetAttempt.asset = assets.map RoutedAsset.fact
  counted : CountsTo .processingAssets total (completed + assets.length) run'.evidence.storage

/-- **A loop that goes on has attempted every asset**, each once and in order. -/
theorem covers_attemptAssets (modRoots : List Path) (assets : List RoutedAsset)
    (h : CountsTo .processingAssets total completed run.evidence.storage) :
    Spec (attemptAssets seams modRoots assets) run
      (fun flow run' => flow = .proceed () → Covers total completed assets run run') (fun _ _ => True) fun _ => True := by
  induction assets generalizing run completed with
  | nil =>
    refine spec_bind.mpr (spec_isCancelled.mpr ?_)
    split_ifs
    · intro hflow
      cases hflow
    · exact fun _ => ⟨⟨[], (List.append_nil _).symm, rfl⟩, h⟩
  | cons asset assets ih =>
    refine spec_bind.mpr (spec_isCancelled.mpr ?_)
    split_ifs
    · intro hflow
      cases hflow
    refine spec_bind.mpr ((spec_attemptOf modRoots asset).mono (fun attempt run₁ hattempt => ?_) (fun _ _ h => h) fun _ h => h)
    obtain ⟨hsame, hasset⟩ := hattempt
    cases attempt with
    | none =>
      intro hflow
      cases hflow
    | some attempt =>
      have hcounts : CountsTo .processingAssets total completed run₁.evidence.storage := by
        obtain ⟨progress, hlast, hprogress⟩ := h
        exact ⟨progress, by rw [hsame.phases]; exact hlast, hprogress⟩
      refine spec_bind.mpr (spec_bind.mpr (spec_mark.mpr ?_))
      have hrecord := @spec_recordingDone _ _ { run₁ with log := run₁.log ++ [.attempted (.asset attempt)] } _
        (Evidence.recordAttemptProgress seams.checks seams.sink (.asset attempt)) _
        (spec_countAttempt (.asset attempt) hcounts)
      refine hrecord.mono (fun _ run₂ hrecorded => ?_) (fun _ _ h => h) fun _ h => h
      obtain ⟨⟨hfacts, hcounted⟩, -⟩ := hrecorded
      have hattempts : run₂.evidence.storage.assetAttempts = run.evidence.storage.assetAttempts ++ [attempt] := by
        rw [← hsame.attempts]
        exact attempts_of_facts hfacts
      split_ifs
      · refine (ih hcounted).mono (fun flow run' hcovers hflow => ?_) (fun _ _ h => h) fun _ h => h
        obtain ⟨⟨attempts, hmore, hassets⟩, hcounted'⟩ := hcovers hflow
        refine ⟨⟨attempt :: attempts, ?_, ?_⟩, ?_⟩
        · rw [hmore, hattempts, List.append_assoc]
          rfl
        · rw [List.map_cons, List.map_cons, hassets, hasset attempt rfl]
        · rw [List.length_cons, Nat.add_comm assets.length, ← Nat.add_assoc]
          exact hcounted'
      · intro hflow
        cases hflow

end Attempts

/-! ## The phase -/

/-- The targets of the Assets that `process_assets` attempts, in their order. -/
def attemptedTargets : List Evidence.OptimizerTarget := [.texture, .mesh, .animation]

theorem assetOrder_eq (ledger : Routing.Ledger) :
    assetOrder ledger = attemptedTargets.flatMap fun target => ledger.routedAssets.filter (·.target = target) := by
  simp [assetOrder, attemptedTargets, Routing.Ledger.routedAssetsFor]

/-- **A ledger without Archives is its Textures, Meshes and Animations.** -/
theorem perm_attempted (assets : List RoutedAsset) (h : ∀ asset ∈ assets, asset.target ≠ .archive) :
    (attemptedTargets.flatMap fun target => assets.filter (·.target = target)).Perm assets := by
  simp only [attemptedTargets, List.flatMap_cons, List.flatMap_nil, List.append_nil]
  induction assets with
  | nil => exact .nil
  | cons asset assets ih =>
    have hrest := ih fun a ha => h a (List.mem_cons_of_mem asset ha)
    cases htarget : asset.target with
    | texture =>
      simp only [List.filter_cons, htarget, decide_true, ↓reduceIte]
      exact hrest.cons asset
    | mesh =>
      simp only [List.filter_cons, htarget, decide_true, ↓reduceIte]
      exact List.perm_middle.trans (hrest.cons asset)
    | animation =>
      simp only [List.filter_cons, htarget, decide_true, ↓reduceIte]
      rw [← List.append_assoc] at hrest ⊢
      exact List.perm_middle.trans (hrest.cons asset)
    | archive => exact absurd htarget (h asset List.mem_cons_self)

/-- Progress of which all is completed. -/
theorem completed_total {progress : RunProgress} (h : progress.succeeded.toNat + progress.failed.toNat = progress.total.toNat) :
    progress.completed checks = .ok progress.total := by
  have hbounded : progress.Bounded checks := RunProgress.bounded_iff.mpr h.le
  obtain ⟨completed, hcompleted, hexact, -⟩ := hbounded
  obtain rfl : completed = progress.total := UInt64.toNat_inj.mp (hexact.trans h)
  exact hcompleted

variable [DecidableEq K]

/-- **Processing Assets covers its ledger**: where the phase runs to its end, it has attempted the Textures, then the
Meshes, then the Animations, each in ledger order, each once and nothing else, and what is completed is the total. -/
theorem processAssets_covers (seams : RunSeams V table) (preparation : Preparation) (ledger : RoutedLedger) (run : Run V)
    (harchive : ∀ asset ∈ ledger.1.routedAssets, asset.target ≠ .archive)
    (hruns : (processAssets seams preparation ledger run).1 = .done (.proceed ())) :
    (∃ attempts, (processAssets seams preparation ledger run).2.evidence.storage.assetAttempts =
        run.evidence.storage.assetAttempts ++ attempts ∧
      attempts.map Evidence.RoutedAssetAttempt.asset =
        (attemptedTargets.flatMap fun target => ledger.1.routedAssets.filter (·.target = target)).map RoutedAsset.fact) ∧
      (attemptedTargets.flatMap fun target => ledger.1.routedAssets.filter (·.target = target)).Perm
        ledger.1.routedAssets ∧
      ∃ progress : RunProgress, (processAssets seams preparation ledger run).2.evidence.storage.phases.getLast? =
          some (.executed .processingAssets (some progress)) ∧
        progress.total.toNat = ledger.1.routedAssets.length ∧ progress.completed seams.checks = .ok progress.total := by
  have hperm := perm_attempted ledger.1.routedAssets harchive
  have hspec : Spec (processAssets seams preparation ledger) run
      (fun flow run' => flow = .proceed () → (∃ attempts, run'.evidence.storage.assetAttempts =
          run.evidence.storage.assetAttempts ++ attempts ∧
        attempts.map Evidence.RoutedAssetAttempt.asset = (assetOrder ledger.1).map RoutedAsset.fact) ∧
        CountsTo .processingAssets (.ofNatLT ledger.fact.routedAssets.length ledger.fact.fits)
          (assetOrder ledger.1).length run'.evidence.storage) (fun _ _ => True) fun _ => True := by
    refine spec_bind.mpr (spec_bind.mpr (spec_mark.mpr ?_))
    have hopen := @spec_recordingDone _ _ { run with log := run.log ++ [.entered .processingAssets] } _
      (Evidence.openProcessingAssets seams.checks seams.sink ledger.fact) _ (spec_openAssets ledger.fact)
    refine hopen.mono (fun _ run₁ hopened => ?_) (fun _ _ h => h) fun _ h => h
    obtain ⟨⟨hattempts, hcounts⟩, -⟩ := hopened
    refine (covers_attemptAssets preparation.facts.modRoots (assetOrder ledger.1) hcounts).mono
      (fun flow run' hcovers hflow => ?_) (fun _ _ h => h) fun _ h => h
    obtain ⟨⟨attempts, hmore, hassets⟩, hcounted⟩ := hcovers hflow
    refine ⟨⟨attempts, hmore.trans (by rw [hattempts]), hassets⟩, ?_⟩
    rw [Nat.zero_add] at hcounted
    exact hcounted
  unfold Spec at hspec
  generalize processAssets seams preparation ledger run = ended at hspec hruns ⊢
  obtain ⟨_ | _ | _, run'⟩ := ended
  · obtain ⟨hattempts, progress, hlast, htotal, hcompleted, -⟩ := hspec (Outcome.done.inj hruns)
    rw [assetOrder_eq] at hattempts hcompleted
    have hlength : progress.total.toNat = ledger.1.routedAssets.length := by
      rw [htotal]
      exact UInt64.toNat_ofNatLT.trans (List.length_map _)
    exact ⟨hattempts, hperm, progress, hlast, hlength, completed_total (by rw [hcompleted, hlength, hperm.length_eq])⟩
  · cases hruns
  · cases hruns

/-- A backend that finds nothing to change. -/
def unchanging : Asset.AssetBackend where
  loadTexture _ _ _ := .ok true
  optimizeTexture _ _ _ := .ok .unchanged
  saveTexture _ := (none, .ok true)
  textureFailureDetail _ := .ok ""
  removeTexture _ _ := .reported (.ok false)
  loadMesh _ _ _ := .ok true
  optimizeMesh _ _ _ _ := .ok .unchanged
  maintainMeshReferences _ _ := .ok .unchanged
  saveMesh _ := (none, .ok true)
  optimizeAnimation _ _ _ := (none, .ok .unchanged)
  attemptFinished _ _ _ := .ok ()

/-- A run that nothing stops, and whose Archives and finalization come to nothing. -/
def unhindered : RunSeams asciiVolume asciiUpcase where
  checks := .on
  debugAssertions := true
  sink := none
  lowercase := List.map Char.toLower
  cancelled _ := false
  configuration := none
  resolveModRoots _ := ([], .ok [])
  prepareRoot _ _ := .ok none
  visit _ _ := .ok ⟨[], [], true⟩
  preflight _ _ := .ok .cancelled
  extractArchive _ _ _ := .error ""
  weaklyCanonical _ path := some path
  asset := ⟨fun _ => .ok (), fun _ _ _ => .ok (), fun _ => .ok (), fun _ => .released⟩
  backend := unchanging
  creation _ := none
  finalization := ⟨fun _ => .error (.panic ""), fun _ _ => .error "", fun _ _ => ([], .error ""), fun _ _ _ => .ok none,
    fun _ _ account => (account, .ok true), fun _ _ => .ok 0, fun _ _ => .error ""⟩
  cleanup _ := .ok []
  aftermath _ tree := ⟨tree, 0⟩

/-- A Mesh before a Texture. -/
def meshBeforeTexture : RoutedLedger :=
  ⟨⟨[⟨["m".toList, "a.nif".toList].map OsStr.ofText, .mesh .standard, .looseAssetProcessing, .mesh, .dryRun,
      ⟨true, false, false, false⟩⟩,
    ⟨["m".toList, "b.dds".toList].map OsStr.ofText, .texture .native, .looseAssetProcessing, .texture, .dryRun,
      ⟨true, false, false, false⟩⟩], []⟩, by decide⟩

/-- A run whose Effective Asset Tree is built. -/
def discoveredRun : Run asciiVolume :=
  { Run.start .empty with
    evidence := { MutableRunEvidence.new with
      storage := { Evidence.Storage.default with
        phases := [.executed .buildingEffectiveAssetTree none]
        skippedArchiveCountsRecorded := true
        nestedArchiveCountRecorded := true } } }

/-- The preparation of one Mod Root. -/
def oneRoot : Preparation := ⟨⟨.dryRun, [.nativeTextureOptimization, .standardMeshOptimization], false, []⟩,
  ⟨[["m".toList].map OsStr.ofText], [], false⟩⟩

/-- The run that processed them. -/
def coveredRun : Run asciiVolume := (processAssets unhindered oneRoot meshBeforeTexture discoveredRun).2

theorem processAssets_covers_sample :
    coveredRun.evidence.storage.assetAttempts.map (fun attempt => attempt.asset.target) = [.texture, .mesh] := by
  obtain ⟨⟨attempts, hattempts, hassets⟩, -⟩ := processAssets_covers unhindered oneRoot meshBeforeTexture discoveredRun
    (by decide) (by decide +kernel)
  have htargets := congrArg (List.map Evidence.RoutedAsset.target) hassets
  rw [List.map_map] at htargets
  unfold coveredRun
  rw [hattempts, List.map_append]
  exact htargets

end Cao.Executor
