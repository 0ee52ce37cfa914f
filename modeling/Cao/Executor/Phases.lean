import Cao.Executor.Ready

/-!
# The work phases are accepted

Each work phase, from a run that may go on: it hands on a run that may go on, or it stops or panics with its work over,
and Run Evidence refuses nothing either way.

* `Handed`, `Escapes`, `Works`: what a phase hands on, and how it escapes;
* **`works_discoverArchives`**, **`works_extractArchives`**, **`works_buildEffectiveAssetTree`**,
  **`works_processAssets`**: the phases before Archive Finalization.
-/

namespace Cao.Executor

open Prog (Spec spec_bind)
open Routing Capacity Asset
open Evidence (RunPhase RunPhaseRecord RunPhaseStatus RunProgress RunDiagnostic PhaseAttempt Storage)

variable {K : Type} {V : Volume K} {table : UpcaseTable} {ε α β γ : Type}
variable {checks : OverflowChecks} {mode : ExecutionMode} {tree : AssetTree V} {seams : RunSeams V table} {run : Run V}
variable {latest : RunPhaseRecord} {flags : Flags}

/-! ## What a phase hands on -/

/-- A run that escapes panics, and its work is over. -/
def Escapes (checks : OverflowChecks) (mode : ExecutionMode) (tree : AssetTree V) (e : Thrown WorkError) (run : Run V) :
    Prop := (∃ message, e = .panic message) ∧ Ended checks mode tree run.view

/-- What a phase hands on satisfies `Q`, and the work of a run that it stops is over. -/
def Handed (checks : OverflowChecks) (mode : ExecutionMode) (tree : AssetTree V) (Q : α → Run V → Prop) :
    Flow α → Run V → Prop
  | .proceed a, run => Q a run
  | .stopped _, run => Ended checks mode tree run.view

/-- A step of the work. -/
abbrev Steps (checks : OverflowChecks) (mode : ExecutionMode) (tree : AssetTree V) (x : Running V α) (run : Run V)
    (Q : α → Run V → Prop) : Prop := Spec x run Q (Escapes checks mode tree) fun _ => False

/-- A phase of the work. -/
abbrev Works (checks : OverflowChecks) (mode : ExecutionMode) (tree : AssetTree V) (x : Running V (Flow α)) (run : Run V)
    (Q : α → Run V → Prop) : Prop := Steps checks mode tree x run (Handed checks mode tree Q)

theorem Ready.escapes (h : Ready checks mode tree latest flags run.view) (hlt : latest.phase < .safetyCleanup)
    (message : String) : Escapes checks mode tree (.panic message) run := ⟨⟨message, rfl⟩, h.ended hlt⟩

/-- A step, and what follows it. -/
theorem Steps.bind {x : Running V α} {f : α → Running V β} {Q : α → Run V → Prop} {R : β → Run V → Prop}
    (hx : Steps checks mode tree x run Q) (hf : ∀ a run', Q a run' → Steps checks mode tree (f a) run' R) :
    Steps checks mode tree (x >>= f) run R := spec_bind.mpr (hx.mono hf (fun _ _ h => h) fun _ h => h)

theorem Works.mono {x : Running V (Flow α)} {Q R : α → Run V → Prop} (hx : Works checks mode tree x run Q)
    (h : ∀ a run', Q a run' → R a run') : Works checks mode tree x run R := by
  refine Spec.mono hx (fun flow run' hflow => ?_) (fun _ _ h => h) fun _ h => h
  cases flow with
  | proceed a => exact h a run' hflow
  | stopped stop => exact hflow

/-- **What a phase hands on, the next one takes.** -/
theorem Works.andThen {x : Running V (Flow α)} {f : α → Running V (Flow β)} {Q : α → Run V → Prop}
    {R : β → Run V → Prop} (hx : Works checks mode tree x run Q)
    (hf : ∀ a run', Q a run' → Works checks mode tree (f a) run' R) :
    Works checks mode tree (Flow.andThen x f) run R := by
  refine Steps.bind hx fun flow run' hflow => ?_
  cases flow with
  | proceed a => exact hf a run' hflow
  | stopped stop => exact hflow

theorem works_unlessCancelled {x : Running V (Flow α)} {Q : α → Run V → Prop}
    (h : Ready seams.checks mode tree latest flags run.view) (hlt : latest.phase < .safetyCleanup)
    (hx : ∀ run', Ready seams.checks mode tree latest flags run'.view →
      Works seams.checks mode tree x run' Q) : Works seams.checks mode tree (unlessCancelled seams x) run Q := by
  refine spec_polled h fun cancelled run' _ h' => ?_
  cases cancelled with
  | true => exact h'.ended hlt
  | false => exact hx run' h'

theorem works_unlessCancelledGoOn (h : Ready seams.checks mode tree latest flags run.view)
    (hlt : latest.phase < .safetyCleanup) :
    Works seams.checks mode tree (unlessCancelledGoOn seams) run fun _ run' =>
      Ready seams.checks mode tree latest flags run'.view := works_unlessCancelled h hlt fun _ h => h

/-- A loop whose every step leaves the run where it stands. -/
theorem steps_forEach {f : β → Running V Unit} {l : List β} (h : Ready checks mode tree latest flags run.view)
    (hf : ∀ b run, Ready checks mode tree latest flags run.view → Steps checks mode tree (f b) run fun _ run' =>
      Ready checks mode tree latest flags run'.view) :
    Steps checks mode tree (Prog.forEach l f) run fun _ run' => Ready checks mode tree latest flags run'.view :=
  Spec.forEach (I := fun _ _ run => Ready checks mode tree latest flags run.view) (fun _ b _ run h => hf b run h) [] l h

theorem steps_foldEach {f : γ → β → Running V γ} {l : List β} {c : γ} (h : Ready checks mode tree latest flags run.view)
    (hf : ∀ c b run, Ready checks mode tree latest flags run.view → Steps checks mode tree (f c b) run fun _ run' =>
      Ready checks mode tree latest flags run'.view) :
    Steps checks mode tree (Prog.foldEach f c l) run fun _ run' => Ready checks mode tree latest flags run'.view :=
  Spec.foldEach (I := fun _ _ _ run => Ready checks mode tree latest flags run.view)
    (fun _ b _ c run h => hf c b run h) [] l h

/-- The phase that is current. -/
theorem Stands.currentPhase (h : Stands checks mode tree latest flags run.view) :
    run.evidence.storage.currentPhase = some latest.phase := congrArg (Option.map RunPhaseRecord.phase) h.current

/-- Whether a phase is current, with a status. -/
theorem Stands.isCurrently (h : Stands checks mode tree latest flags run.view) (phase : RunPhase)
    (status : RunPhaseStatus) :
    run.evidence.storage.isCurrently phase status = (latest.phase = phase ∧ latest.status = status : Bool) := by
  have hcurrent : run.evidence.storage.phases.getLast? = some latest := h.current
  rw [Storage.isCurrently, hcurrent]
  rfl

/-- **A fact that is retained where the checks of its operation hold.** -/
theorem steps_retain (operation : Evidence.Operation) {f : Storage → Storage} {flags' : Flags}
    (h : Ready seams.checks mode tree latest flags run.view)
    (hexactly : Evidence.Exactly f run.evidence.storage.phases (operation.run seams.checks seams.sink) run.evidence)
    (hflags : flagsOf (f run.evidence.storage) = flags') :
    Steps seams.checks mode tree (recording (operation.run seams.checks seams.sink)) run fun _ run' =>
      Ready seams.checks mode tree latest flags' run'.view :=
  spec_recorded operation h hexactly h.current hflags fun _ _ h => h

/-! ## Diagnostics and failures -/

theorem steps_retainDiagnostic (diagnostic : RunDiagnostic) (h : Ready seams.checks mode tree latest flags run.view) :
    Steps seams.checks mode tree (recording (Evidence.retainDiagnostic diagnostic)) run fun _ run' =>
      Ready seams.checks mode tree latest flags run'.view :=
  steps_retain (.retainDiagnostic diagnostic) h (Evidence.exactly_retainDiagnostic diagnostic) h.flags

theorem steps_recordDiagnostic (diagnostic : RunDiagnostic) (h : Ready seams.checks mode tree latest flags run.view) :
    Steps seams.checks mode tree (recording (Evidence.recordDiagnostic seams.sink diagnostic)) run fun _ run' =>
      Ready seams.checks mode tree latest flags run'.view :=
  steps_retain (.recordDiagnostic diagnostic) h
    (Evidence.exactly_recordDiagnostic diagnostic h.working.orderly.publishable) h.flags

theorem steps_publishDiagnostics (h : Ready seams.checks mode tree latest flags run.view) :
    Steps seams.checks mode tree (recording (Evidence.publishDiagnostics seams.sink)) run fun _ run' =>
      Ready seams.checks mode tree latest flags run'.view :=
  steps_retain .publishDiagnostics h (Evidence.exactly_publishDiagnostics h.working.orderly.publishable) h.flags

theorem steps_recordCapacityWarning (warning : Option RunDiagnostic)
    (h : Ready seams.checks mode tree latest flags run.view) :
    Steps seams.checks mode tree (recordCapacityWarning seams warning) run fun _ run' =>
      Ready seams.checks mode tree latest flags run'.view := by
  cases warning with
  | none => exact h
  | some warning => exact steps_recordDiagnostic warning h

/-- **A Run Failure ends the work.** -/
theorem steps_recordFailure (failure : Evidence.RunFailure) (h : Ended seams.checks mode tree run.view) :
    Steps seams.checks mode tree (recording (Evidence.recordFailure seams.sink failure)) run fun _ run' =>
      Ended seams.checks mode tree run'.view :=
  spec_endedRecorded (.recordFailure failure) h (Evidence.exactly_recordFailure failure) rfl fun _ h => h

/-! ## Discovery -/

/-- What nothing has been recorded in. -/
def unrecorded : Flags := ⟨false, false, false, false, false, false, false, false⟩

/-- What Preparing leaves. -/
def preparedFlags : Flags := { unrecorded with prepared := true }

/-- What Archive discovery leaves. -/
def discoveredFlags : Flags := { preparedFlags with skipped := true, collisions := true }

/-- What the definitive pass leaves. -/
def builtFlags : Flags := { discoveredFlags with nested := true }

/-- What routing leaves. -/
def routedFlags : Flags := { builtFlags with routed := true }

theorem steps_visitRoots {latest : RunPhaseRecord} (phase : RunPhase) (hlt : latest.phase < .safetyCleanup)
    (roots diagnosed : List Path) (h : Ready seams.checks mode tree latest flags run.view) :
    Steps seams.checks mode tree (visitRoots seams phase roots diagnosed) run fun _ run' =>
      Ready seams.checks mode tree latest flags run'.view := by
  induction roots generalizing run diagnosed with
  | nil => exact h
  | cons root roots ih =>
    refine spec_bind.mpr (spec_call (fun visit => ?_) fun message => h.escapes hlt message)
    have hexclude : Steps seams.checks mode tree (Prog.foldEach (exclude phase) diagnosed visit.excluded)
        { run with calls := run.calls + 1 } fun _ run' => Ready seams.checks mode tree latest flags run'.view := by
      refine steps_foldEach h fun diagnosed excluded run h => ?_
      unfold exclude
      split_ifs
      · exact h
      · exact Steps.bind (steps_retainDiagnostic _ h) fun _ _ h => h
    refine Steps.bind hexclude fun diagnosed run' h => ?_
    dsimp only
    split_ifs
    · exact Steps.bind (ih diagnosed h) fun _ _ h => h
    · exact h

/-- **Discovering Archives.** -/
theorem works_discoverArchives (preparation : Preparation)
    (h : Ready seams.checks mode tree (.executed .preparing none) preparedFlags run.view) :
    Works seams.checks mode tree (discoverArchives seams preparation) run fun _ run' =>
      Ready seams.checks mode tree (.executed .discoveringArchives none) discoveredFlags run'.view := by
  have hphase : RunPhase.discoveringArchives < .safetyCleanup := by decide
  have hlt : (RunPhaseRecord.executed .discoveringArchives none).phase < .safetyCleanup := hphase
  refine spec_bind.mpr (spec_entered (.recordPhase (.executed .discoveringArchives none)) (f := id) h hphase
    (Evidence.exactly_recordPhase (.inr ⟨_, h.current, by decide⟩) rfl (.inr (by decide)) (.inl (by decide))) h.flags
    fun run' _ h' => ?_)
  refine Steps.bind (steps_visitRoots .discoveringArchives hlt preparation.facts.modRoots [] h') fun walked run' h' => ?_
  obtain ⟨walks, diagnosed⟩ := walked
  dsimp only
  generalize archivePass seams.lowercase preparation.policy walks (⟨[], [], []⟩ : ArchivePass table) = passed
  have hskipped : Evidence.Exactly (fun storage =>
      { storage with
        skippedArchiveCountsRecorded := true
        archiveDiscovery := some { storage.discovery with skippedArchiveCounts := countReasons passed.1.skipped } })
      run'.evidence.storage.phases (Evidence.recordSkippedArchiveCounts (countReasons passed.1.skipped)) run'.evidence := by
    refine Evidence.exactly_getStorage (Evidence.exactly_require ?_ (Evidence.exactly_require ?_ ⟨rfl, rfl⟩))
    · rw [Storage.archiveDiscoveryCurrent, h'.currentPhase]
      decide
    · rw [show run'.evidence.storage.skippedArchiveCountsRecorded = false from congrArg Flags.skipped h'.flags]
      rfl
  refine Steps.bind (steps_retain (.recordSkippedArchiveCounts (countReasons passed.1.skipped)) h' hskipped
    (congrArg (fun flags : Flags => { flags with skipped := true }) h'.flags)) fun _ run' h' => ?_
  split_ifs
  swap
  · exact h'.ended hphase
  refine spec_bind.mpr (spec_call (fun preflight => ?_) fun message => h'.escapes hphase message)
  cases preflight with
  | failed failure => exact spec_bind.mpr (steps_recordFailure failure (h'.ended hphase))
  | cancelled => exact h'.ended hphase
  | planned plans collisions capacityWarning =>
    have hcollisions : Evidence.Exactly (fun storage =>
        { storage with archiveCollisions := collisions, archiveCollisionsRecorded := true })
        run'.evidence.storage.phases (Evidence.recordArchiveCollisions collisions) run'.evidence := by
      refine Evidence.exactly_getStorage (Evidence.exactly_require ?_ (Evidence.exactly_require ?_ ⟨rfl, rfl⟩))
      · rw [(h'.currentPhase :)]
        decide
      · rw [show run'.evidence.storage.archiveCollisionsRecorded = false from congrArg Flags.collisions h'.flags]
        rfl
    have hcalled : Ready seams.checks mode tree (.executed .discoveringArchives none)
        { preparedFlags with skipped := true } ({ run' with calls := run'.calls + 1 } : Run V).view := h'
    refine Steps.bind (steps_retain (.recordArchiveCollisions collisions) hcalled hcollisions
      (congrArg (fun flags : Flags => { flags with collisions := true }) h'.flags)) fun _ run' h' => ?_
    exact Steps.bind (steps_recordCapacityWarning capacityWarning h') fun _ _ h => h

/-! ## Extraction -/

theorem works_planArchiveExtractions (cleanup : SourceCleanup) (plans : List ArchiveExtractionPlan)
    (h : Ready seams.checks mode tree (.executed .discoveringArchives none) flags run.view) :
    Works seams.checks mode tree (planArchiveExtractions seams cleanup plans) run fun _ run' =>
      Ready seams.checks mode tree (.planned .extractingArchives) flags run'.view := by
  have hphase : RunPhase.extractingArchives < .safetyCleanup := by decide
  refine spec_bind.mpr (spec_entered (.recordPhase (.planned .extractingArchives)) (f := id) h hphase
    (Evidence.exactly_recordPhase (.inr ⟨_, h.current, by decide⟩) rfl (.inl (by decide)) (.inr (by decide))) h.flags
    fun run' _ h' => ?_)
  refine works_unlessCancelled h' hphase fun run' h' => ?_
  refine Steps.bind (steps_forEach h' fun plan run h => ?_) fun _ run' h' => works_unlessCancelledGoOn h' hphase
  have hplanning : run.evidence.storage.isPlanning .extractingArchives = true := h.isCurrently _ _
  exact steps_retain (.recordPlannedExtraction (plannedExtraction cleanup plan)) h
    (Evidence.exactly_getStorage (Evidence.exactly_require hplanning (Evidence.exactly_retain rfl))) h.flags

theorem steps_extractArchive (hmode : mode = .apply) (plan : ArchiveExtractionPlan) (cleanup : SourceCleanup)
    (h : Ready seams.checks mode tree latest flags run.view) (hlt : latest.phase < .safetyCleanup) :
    Steps seams.checks mode tree (extractArchive seams plan cleanup) run fun _ run' =>
      Ready seams.checks mode tree latest flags run'.view := by
  refine spec_bind.mpr (spec_mutating hmode h.toStands h.safe fun n run' _ h' => ?_)
  exact spec_bind.mpr (spec_answered (fun attempt => h') fun message => h'.escapes hlt message)

/-- The attempts go on only while each was safe. -/
theorem works_extractEach (hmode : mode = .apply) (cleanup : SourceCleanup) (plans : List ArchiveExtractionPlan)
    {progress : RunProgress} (h : Ready seams.checks mode tree (.executed .extractingArchives (some progress)) flags run.view)
    (hroom : progress.Room plans.length) :
    Works seams.checks mode tree (extractEach seams cleanup plans) run fun _ run' =>
      ∃ after, Ready seams.checks mode tree (.executed .extractingArchives (some after)) flags run'.view := by
  have hlt : ∀ progress, (RunPhaseRecord.executed .extractingArchives progress).phase < .safetyCleanup := fun _ =>
    (by decide : RunPhase.extractingArchives < .safetyCleanup)
  induction plans generalizing run progress with
  | nil => exact works_unlessCancelled h (hlt _) fun run' h' => ⟨progress, h'⟩
  | cons plan plans ih =>
    refine works_unlessCancelled h (hlt _) fun run' h' => ?_
    refine Steps.bind (steps_extractArchive hmode plan cleanup h' (hlt _)) fun attempt run' h' => ?_
    refine spec_bind.mpr (spec_attempted (.extraction attempt) h' hroom fun after run' _ hafter hstands hsafe => ?_)
    split_ifs with hgoes
    · exact ih { hstands with safe := hsafe hgoes } hafter
    · exact hstands.ended (hlt _)

/-- **Extracting Archives.** -/
theorem works_extractArchives (cleanup : SourceCleanup) (plans : List ArchiveExtractionPlan)
    (h : Ready seams.checks mode tree (.executed .discoveringArchives none) flags run.view) :
    Works seams.checks mode tree (extractArchives seams mode cleanup plans) run fun _ run' =>
      ∃ latest, latest.phase = .extractingArchives ∧ Ready seams.checks mode tree latest flags run'.view := by
  have hphase : RunPhase.extractingArchives < .safetyCleanup := by decide
  have hdiscovering : (RunPhaseRecord.executed .discoveringArchives none).phase < .safetyCleanup :=
    (by decide : RunPhase.discoveringArchives < .safetyCleanup)
  refine works_unlessCancelled h hdiscovering fun run' h' => ?_
  cases mode with
  | dryRun => exact (works_planArchiveExtractions cleanup plans h').mono fun _ _ h => ⟨_, rfl, h⟩
  | apply =>
    rw [if_neg (by decide)]
    refine spec_bind.mpr (spec_countOf (fun hlength => ?_) fun message => h'.escapes hdiscovering message)
    have hopens : Evidence.Exactly id (run'.evidence.storage.phases ++
        [.executed .extractingArchives (some (Evidence.zero (.ofNatLT plans.length hlength)))])
        (Evidence.openArchiveExtraction seams.checks seams.sink (.ofNatLT plans.length hlength)) run'.evidence :=
      Evidence.exactly_openAttemptPhase h'.working.orderly.sound h'.current
        (by decide : RunPhase.discoveringArchives < .extractingArchives) (Evidence.validateProgress_zero _ _)
        (Evidence.beginsAtZero_zero _ _ _)
    refine spec_bind.mpr (spec_entered (.openArchiveExtraction (.ofNatLT plans.length hlength)) (f := id) h' hphase hopens
      h'.flags fun run' _ h' => ?_)
    refine works_unlessCancelled h' hphase fun run' h' => ?_
    by_cases hnone : plans = []
    · rw [if_pos hnone]
      exact ⟨_, rfl, h'⟩
    · rw [if_neg hnone]
      exact (works_extractEach rfl cleanup plans h' (Evidence.room_zero hlength)).mono fun _ _ h => h.elim fun after h => ⟨_, rfl, h⟩

/-! ## The Effective Asset Tree -/

/-- **Building the Effective Asset Tree**: every Routed Asset carries the mode of the policy. -/
theorem works_buildEffectiveAssetTree (preparation : Preparation) (archives : DiscoveredArchives)
    (h : Ready seams.checks mode tree latest discoveredFlags run.view) (hlatest : latest.phase = .extractingArchives) :
    Works seams.checks mode tree (buildEffectiveAssetTree seams preparation archives) run fun ledger run' =>
      (∀ asset ∈ ledger.1.routedAssets, asset.executionMode = preparation.policy.executionMode) ∧
        Ready seams.checks mode tree (.executed .buildingEffectiveAssetTree none) builtFlags run'.view := by
  have hphase : RunPhase.buildingEffectiveAssetTree < .safetyCleanup := by decide
  have hlt : (RunPhaseRecord.executed .buildingEffectiveAssetTree none).phase < .safetyCleanup := hphase
  have henters : Evidence.Enters run.evidence.storage.phases .buildingEffectiveAssetTree :=
    .inr ⟨latest, h.current, hlatest ▸ (by decide : RunPhase.extractingArchives < .buildingEffectiveAssetTree)⟩
  refine spec_bind.mpr (spec_entered (.recordPhase (.executed .buildingEffectiveAssetTree none)) (f := id) h hphase
    (Evidence.exactly_recordPhase henters rfl (.inr (by decide)) (.inl (by decide))) h.flags fun run' _ h' => ?_)
  refine works_unlessCancelled h' hphase fun run' h' => ?_
  refine Steps.bind (steps_visitRoots .buildingEffectiveAssetTree hlt preparation.facts.modRoots archives.diagnosed h')
    fun walked run' h' => ?_
  obtain ⟨walks, diagnosed⟩ := walked
  dsimp only
  split_ifs
  swap
  · exact h'.ended hphase
  generalize definitivePass preparation.policy archives.recognized walks = definitive
  obtain ⟨paths, nested⟩ := definitive
  refine spec_bind.mpr (spec_countOf (fun hcount => ?_) fun message => h'.escapes hphase message)
  have hnested : Evidence.Exactly (fun storage =>
      { storage with
        nestedArchiveCountRecorded := true
        archiveDiscovery := some { storage.discovery with nestedArchiveCount := .ofNatLT nested.length hcount } })
      run'.evidence.storage.phases (Evidence.recordNestedArchiveCount (.ofNatLT nested.length hcount)) run'.evidence := by
    refine Evidence.exactly_getStorage (Evidence.exactly_require ?_ (Evidence.exactly_require ?_ ⟨rfl, rfl⟩))
    · rw [Storage.archiveDiscoveryCurrent, h'.currentPhase]
      decide
    · rw [show run'.evidence.storage.nestedArchiveCountRecorded = false from congrArg Flags.nested h'.flags]
      rfl
  refine Steps.bind (steps_retain (.recordNestedArchiveCount (.ofNatLT nested.length hcount)) h' hnested
    (congrArg (fun flags : Flags => { flags with nested := true }) h'.flags)) fun _ run' h' => ?_
  unfold routeEffective
  split_ifs with hlength
  · exact ⟨fun asset hasset => routeAll_executionMode hasset, h'⟩
  · exact h'.escapes hphase _

/-! ## Asset attempts -/

theorem asset_mutates (event : AssetEvent) : (RunEvent.asset event).mutates = event.mutates := by
  cases event <;> rfl

theorem safe_asset (events : List AssetEvent) : Safe (events.map .asset) := fun attempt hattempt => by
  obtain ⟨event, -, hevent⟩ := List.mem_map.mp hattempt
  exact nomatch hevent

/-- A program of the Asset attempts, which a Dry Run leaves inert. -/
theorem steps_onSite {x : Prog (AssetSite V) Empty α} (h : Ready checks mode tree latest flags run.view)
    (hreturns : ∀ site, Spec x site (fun _ _ => True) (fun _ _ => False) fun _ => False)
    (hinert : mode = .dryRun → Prog.Along Inert x fun _ => True) :
    Steps checks mode tree (onSite x) run fun _ run' => Ready checks mode tree latest flags run'.view := by
  have hreturns := hreturns { run.site with log := [] }
  have hinert := fun hmode => hinert hmode { run.site with log := [] }
  unfold Steps Spec onSite
  unfold Spec at hreturns hinert
  dsimp only at hreturns hinert ⊢
  generalize x { run.site with log := [] } = ended at hreturns hinert ⊢
  obtain ⟨_ | e | _, site⟩ := ended
  · have hevents : ∀ event ∈ site.log.map RunEvent.asset, event.closes = false := fun event hevent => by
      obtain ⟨_, -, rfl⟩ := List.mem_map.mp hevent
      rfl
    have hsafe : Safe (run.log ++ site.log.map .asset) := h.safe.append (safe_asset site.log)
    refine ⟨⟨⟨h.working.orderly, h.working.unrefused, h.working.unviolated, fun event hevent => ?_, fun hmode => ?_⟩,
      .inl hsafe, h.current, h.flags⟩, hsafe⟩
    · exact (List.mem_append.mp hevent).elim (h.working.unclosed event) (hevents event)
    · have hinert := (hinert hmode).1
      have hunchanged := h.working.unchanged hmode
      refine ⟨hinert.tree.trans hunchanged.tree, hinert.staged.trans hunchanged.staged, hunchanged.owned, ?_⟩
      intro event hevent
      rcases List.mem_append.mp hevent with hbefore | hnew
      · exact hunchanged.log event hbefore
      · obtain ⟨event, hmem, rfl⟩ := List.mem_map.mp hnew
        obtain ⟨events, hlog, hevents⟩ := hinert.log
        rw [hlog, List.nil_append] at hmem
        rw [asset_mutates]
        exact hevents event hmem
  · exact e.elim
  · exact hreturns.elim

variable [DecidableEq K]

theorem steps_attemptAsset (modRoots : List Path) (asset : RoutedAsset) (hmode : asset.executionMode = mode)
    (h : Ready seams.checks mode tree latest flags run.view) :
    Steps seams.checks mode tree (attemptAsset seams modRoots asset) run fun _ run' =>
      Ready seams.checks mode tree latest flags run'.view := by
  refine spec_bind.mpr (spec_nextCall.mpr ?_)
  cases attributedModRoot ((seams.weaklyCanonical run.calls asset.executionPath).getD asset.executionPath) modRoots with
  | none => exact h
  | some modRoot =>
    have hcalled : Ready seams.checks mode tree latest flags ({ run with calls := run.calls + 1 } : Run V).view := h
    refine Steps.bind (steps_onSite hcalled spec_containedAttempt fun hdry =>
      inert_containedAttempt (hmode.trans hdry)) fun attempted run' h' => ?_
    obtain ⟨result, events⟩ := attempted
    exact Steps.bind (steps_forEach h' fun diagnostic run h => steps_retainDiagnostic diagnostic h) fun _ _ h => h

/-- The attempts go on only while each was safe. -/
theorem works_attemptAssets (modRoots : List Path) (assets : List RoutedAsset)
    (hmode : ∀ asset ∈ assets, asset.executionMode = mode) {progress : RunProgress}
    (h : Ready seams.checks mode tree (.executed .processingAssets (some progress)) flags run.view)
    (hroom : progress.Room assets.length) :
    Works seams.checks mode tree (attemptAssets seams modRoots assets) run fun _ run' =>
      ∃ after, Ready seams.checks mode tree (.executed .processingAssets (some after)) flags run'.view := by
  have hlt : ∀ progress, (RunPhaseRecord.executed .processingAssets progress).phase < .safetyCleanup := fun _ =>
    (by decide : RunPhase.processingAssets < .safetyCleanup)
  induction assets generalizing run progress with
  | nil => exact works_unlessCancelled h (hlt _) fun run' h' => ⟨progress, h'⟩
  | cons asset assets ih =>
    refine works_unlessCancelled h (hlt _) fun run' h' => ?_
    refine Steps.bind (steps_attemptAsset modRoots asset (hmode asset List.mem_cons_self) h') fun attempt run' h' => ?_
    cases attempt with
    | none => exact h'.ended (hlt _)
    | some attempt =>
      refine spec_bind.mpr (spec_attempted (.asset attempt) h' hroom fun after run' _ hafter hstands hsafe => ?_)
      split_ifs with hgoes
      · exact ih (fun asset hasset => hmode asset (List.mem_cons_of_mem _ hasset)) { hstands with safe := hsafe hgoes }
          hafter
      · exact hstands.ended (hlt _)

theorem mem_assetOrder {ledger : Routing.Ledger} {asset : RoutedAsset} (h : asset ∈ assetOrder ledger) :
    asset ∈ ledger.routedAssets := by
  simp only [assetOrder, List.mem_append] at h
  rcases h with (h | h) | h <;> exact List.mem_of_mem_filter h

/-- Every Routed Asset has one target, so the order attempts none of them twice. -/
theorem length_assetOrder (ledger : Routing.Ledger) : (assetOrder ledger).length ≤ ledger.routedAssets.length := by
  simp only [assetOrder, Routing.Ledger.routedAssetsFor, List.length_append]
  induction ledger.routedAssets with
  | nil => exact Nat.le_refl _
  | cons asset assets ih =>
    cases htarget : asset.target <;> simp [htarget] <;> omega

/-- **Processing Assets.** -/
theorem works_processAssets (preparation : Preparation) (ledger : RoutedLedger)
    (hmode : ∀ asset ∈ ledger.1.routedAssets, asset.executionMode = mode)
    (h : Ready seams.checks mode tree (.executed .buildingEffectiveAssetTree none) builtFlags run.view) :
    Works seams.checks mode tree (processAssets seams preparation ledger) run fun _ run' =>
      ∃ after, Ready seams.checks mode tree (.executed .processingAssets (some after)) routedFlags run'.view := by
  have hphase : RunPhase.processingAssets < .safetyCleanup := by decide
  have hcomplete : run.evidence.storage.archiveDiscoveryComplete = true := by
    have hskipped : run.evidence.storage.skippedArchiveCountsRecorded = true := congrArg Flags.skipped h.flags
    have hnested : run.evidence.storage.nestedArchiveCountRecorded = true := congrArg Flags.nested h.flags
    rw [Storage.archiveDiscoveryComplete, hskipped, hnested]
    rfl
  have hunfailed : run.evidence.storage.failures = [] := by
    have hfailed : (!run.evidence.storage.failures.isEmpty) = false := congrArg Flags.failed h.flags
    simpa using hfailed
  have hunrouted : run.evidence.storage.routingLedger = none := by
    have hrouted : run.evidence.storage.routingLedger.isSome = false := congrArg Flags.routed h.flags
    simpa using hrouted
  refine spec_bind.mpr (spec_entered (.openProcessingAssets ledger.fact) h hphase
    (Evidence.exactly_openProcessingAssets h.working.orderly.sound h.current rfl hcomplete hunfailed hunrouted)
    (congrArg (fun flags : Flags => { flags with routed := true }) h.flags) fun run' _ h' => ?_)
  refine works_attemptAssets _ _ (fun asset hasset => hmode asset (mem_assetOrder hasset)) h' ?_
  have hroom := Evidence.room_zero ledger.fact.fits
  unfold RunProgress.Room at hroom ⊢
  have hlength : ledger.fact.routedAssets.length = ledger.1.routedAssets.length := List.length_map _
  have hle := length_assetOrder ledger.1
  omega

end Cao.Executor
