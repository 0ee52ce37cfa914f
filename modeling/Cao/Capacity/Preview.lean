import Cao.Archive.Preflight
import Cao.Capacity.Exact

/-!
# What a Dry Run previews

A Dry Run and an Apply run over the same files go the same way up to the first mutation: the Archive pass and the
preflight (`work_phases.rs`, `archives.rs`), and the planning of Archive creation (`finalization/mod.rs`). Only a
shortage sets them apart.

* `archivePass`: the Archives and the Loose Assets of each Mod Root;
* `beforeExtraction`, `planArchiveCreation`, `creationShortage`: the two checkpoints;
* **`preview_preflight`**, **`preview_checkpoint`**, **`preview_creation`**: each step of both runs;
* **`dryRun_predicts`**: all of them.
-/

namespace Cao.Capacity

open Routing Evidence Finalize Pack

variable {table : UpcaseTable} {probe : VolumeProbe} {volumes : FrozenVolumes} {policy : RoutingPolicy}

/-! ## The Archive pass -/

/-- What the walker finds beneath a Mod Root, in enumeration order, and whether it reached the end. -/
structure Walk where
  root : Path
  files : List Path
  complete : Bool
  deriving DecidableEq, Repr

/-- `names_an_archive`. -/
def namesAnArchive (policy : RoutingPolicy) (path : Path) : Bool :=
  match route policy path with
  | .routed asset => asset.identity.kind = .archive
  | .skipped asset => asset.identity.kind = .archive
  | .unsupported => false

/-- `relative_game_path`. -/
def relativeGamePath (root path : Path) : Text := gamePathText ((relativeTo root path).getD path)

/-- `str::replace('ß', "ss")`. -/
def replaceSharpS (text : Text) : Text := text.flatMap fun c => if c = 'ß' then "ss".toList else [c]

/-- `archive_order_key`, given `char::to_lowercase` of a text. -/
def archiveOrderKey (lowercase : Text → Text) (relativeName : Text) : List (List Nat) :=
  [strKey (replaceSharpS (lowercase relativeName)), strKey relativeName]

/-- The Archive pass, so far: the Archives recognized, why the others were skipped, and the Mod Roots done. -/
structure ArchivePass (table : UpcaseTable) where
  recognized : List Path
  skipped : List SkipReason
  roots : List (RootArchives table)

/-- The pass within one Mod Root: the Archives selected and the Loose Assets. -/
structure RootPass (table : UpcaseTable) where
  recognized : List Path
  skipped : List SkipReason
  selected : List Path
  loose : OrdSet (gamePathKey table)

/-- The visitor of the Archive pass. -/
def visitFile (policy : RoutingPolicy) (root : Path) (pass : RootPass table) (path : Path) : RootPass table :=
  if !namesAnArchive policy path then { pass with loose := pass.loose.insert (relativeGamePath root path) }
  else if path ∈ pass.recognized then pass
  else
    let pass := { pass with recognized := path :: pass.recognized }
    match route policy path with
    | .routed _ => { pass with selected := pass.selected ++ [path] }
    | .skipped asset => { pass with skipped := pass.skipped ++ [asset.reason] }
    | .unsupported => pass

/-- The Archive pass, and whether it reached the end. -/
def archivePass (lowercase : Text → Text) (policy : RoutingPolicy) :
    List Walk → ArchivePass table → ArchivePass table × Bool
  | [], pass => (pass, true)
  | walk :: walks, pass =>
    let visited := walk.files.foldl (visitFile policy walk.root) ⟨pass.recognized, pass.skipped, [], .empty⟩
    let pass := { pass with recognized := visited.recognized, skipped := visited.skipped }
    if walk.complete then
      let archives := visited.selected.insertionSort fun a b =>
        archiveOrderKey lowercase (relativeGamePath walk.root a) ≤ archiveOrderKey lowercase (relativeGamePath walk.root b)
      archivePass lowercase policy walks { pass with roots := pass.roots ++ [⟨walk.root, archives, visited.loose⟩] }
    else (pass, false)

/-! ## The checkpoint before extraction -/

/-- A verdict before extraction, as the preflight takes it: a failure of work alone is `unreachable!`. -/
def verdictOfPreflight : CapacityVerdict → Option Cao.CapacityVerdict
  | .fits => some .fits
  | .warn warning => some (.warn warning.detail)
  | .failRun failure => some (.failRun ⟨.archiveInsufficientCapacity, failure.detail, failure.path⟩)
  | .failWork _ => none

/-- The Capacity Check of the preflight. -/
def beforeExtraction (probe : VolumeProbe) (mode : ExecutionMode) (volumes : FrozenVolumes)
    (estimates : List (Path × Nat)) : Cao.CapacityVerdict :=
  (verdictOfPreflight (check probe mode .beforeExtraction (demandOf estimates) volumes).1).getD .fits

/-! ## The checkpoint before creation -/

/-- `CreationPlanning`. -/
inductive CreationPlanning
  | notRequested
  | planned (outputs : List PlannedOutputArchive) (capacityWarning : Option RunDiagnostic)
  | cancelled
  | failed (detail : String)
  deriving DecidableEq

/-- `planned_outputs`. -/
def plannedOutputs (plan : FinalizationPlan) : List PlannedOutputArchive :=
  plan.outputs.map fun output =>
    { archivePath := output.archivePath
      modRoot := output.modRoot
      kind := output.archive.kind
      fileCount := output.archive.files.length
      totalBytes := output.archive.files.foldl (fun total file => saturatingAdd total file.size) 0
      dummyPluginPath := output.pluginPath
      deletesPackedSources := plan.deleteSources }

section Creation

variable {K : Type} [DecidableEq K] {V : Volume K} {P ε : Type}

/-- What `plan_archive_creation` contains: the plan and the check of its demand. -/
def planAndCheck (seams : FinalizationSeams) (request : FinalizationRequest) (preparation : Finalize.RunPreparation)
    (probe : VolumeProbe) (mode : ExecutionMode) (volumes : FrozenVolumes) :
    Prog (Site V P) (Thrown PlanningStop) (List PlannedOutputArchive × CapacityVerdict) := do
  let plan ← planFinalization seams (request.prepared preparation) preparation.modRoots
  let demand ← creationDemand plan
  return (plannedOutputs plan, (check probe mode .beforeCreation demand.phase volumes).1)

/-- What becomes of the contained planning. -/
def creationPlanned : Except (Thrown PlanningStop) (List PlannedOutputArchive × CapacityVerdict) →
    Prog (Site V P) (Thrown ε) CreationPlanning
  | .ok (outputs, .fits) => return .planned outputs none
  | .ok (outputs, .warn warning) => return .planned outputs (some warning)
  | .ok (_, .failRun _) => Prog.fail (.panic "Archive creation is planned only in a Dry Run")
  | .ok (_, .failWork _) => Prog.fail (.panic "Archive creation is planned only in a Dry Run")
  | .error (.error .cancelled) => return .cancelled
  | .error (.error (.failed detail)) => return .failed detail
  | .error (.panic message) => return .failed message

/-- `plan_archive_creation`; a Dry Run checks nothing after it. -/
def planArchiveCreation (seams : FinalizationSeams) (request : FinalizationRequest)
    (preparation : Finalize.RunPreparation) (probe : VolumeProbe) (mode : ExecutionMode) (volumes : FrozenVolumes) :
    Prog (Site V P) (Thrown ε) CreationPlanning :=
  if preparation.archiveCreation then do
    let planned ← catchUnwind (planAndCheck seams request preparation probe mode volumes)
    creationPlanned planned
  else return .notRequested

end Creation

/-- The demand that has these roots. -/
def demandWith (roots : List (Path × Nat)) : Demand := ⟨roots, min (placed (fun _ => ()) () roots) mostBytes⟩

/-- The shortage that fails the work of a verdict. -/
def failingWork : CapacityVerdict → Option CapacityShortage
  | .failWork shortage => some shortage
  | _ => none

/-- What the Capacity Check of an Apply run finds before creation. -/
def creationShortage (probe : VolumeProbe) (volumes : FrozenVolumes) (roots : List (Path × Nat)) :
    Option CapacityShortage := failingWork (check probe .apply .beforeCreation (demandWith roots) volumes).1

/-- The seams of an Apply run whose Capacity Check is over a probe. -/
def checkedBy (seams : FinalizationSeams) (probe : VolumeProbe) (volumes : FrozenVolumes) : FinalizationSeams :=
  { seams with check := fun _ roots => creationShortage probe volumes roots }

/-! ## Discovery -/

/-- `discover_archives`, of the walks of the Mod Roots, given the verdict of the check before extraction. -/
def discoverArchives (table : UpcaseTable) (view : FileView) (listEntries : Path → Answer (List ArchiveEntry)) (lowercase : Text → Text)
    (precedence : ArchivePrecedence) (policy : RoutingPolicy) (verdict : List (Path × Nat) → Cao.CapacityVerdict)
    (walks : List Walk) : Prog Polls PreflightStop Planned :=
  let passed := archivePass lowercase policy walks (⟨[], [], []⟩ : ArchivePass table)
  if passed.2 then preflight view listEntries verdict precedence passed.1.roots else Prog.fail .cancelled

theorem namesAnArchive_withMode (mode : ExecutionMode) (path : Path) :
    namesAnArchive (policy.withMode mode) path = namesAnArchive policy path := by
  unfold namesAnArchive
  rw [route_withMode]
  cases route policy path <;> rfl

theorem visitFile_withMode (mode : ExecutionMode) (root : Path) :
    (visitFile (policy.withMode mode) root : RootPass table → Path → RootPass table) = visitFile policy root := by
  funext pass path
  unfold visitFile
  rw [namesAnArchive_withMode, route_withMode]
  cases route policy path <;> rfl

/-- **The Archive pass is the same in both modes.** -/
theorem archivePass_withMode (mode : ExecutionMode) (lowercase : Text → Text) (walks : List Walk)
    (pass : ArchivePass table) :
    archivePass lowercase (policy.withMode mode) walks pass = archivePass lowercase policy walks pass := by
  induction walks generalizing pass with
  | nil => rfl
  | cons walk walks ih =>
    unfold archivePass
    rw [visitFile_withMode]
    simp only [ih]

/-! ## The preflight -/

/-- What a check before extraction makes of the plans. -/
def checkedPlan (verdict : List (Path × Nat) → Cao.CapacityVerdict) (planned : Planned) :
    Prog Polls PreflightStop Planned :=
  if planned.plans = [] then return planned
  else
    match verdict (planned.plans.map fun plan => (plan.modRoot, plan.estimatedCapacityBytes)) with
    | .fits => return planned
    | .warn warning => return { planned with capacityWarning := some warning }
    | .failRun failure => Prog.fail (.failed failure)

/-- **The check comes last**: the rest of the preflight does not read it. -/
theorem preflight_eq (view : FileView) (listEntries : Path → Answer (List ArchiveEntry))
    (verdict : List (Path × Nat) → Cao.CapacityVerdict) (precedence : ArchivePrecedence)
    (roots : List (RootArchives table)) :
    preflight view listEntries verdict precedence roots =
      preflight view listEntries (fun _ => .fits) precedence roots >>= checkedPlan verdict := by
  funext polls
  unfold preflight
  simp only [bind, Prog.andThen]
  rcases (Prog.ofExcept ((orderRoots view precedence roots).mapError PreflightStop.failed) :
    Prog Polls PreflightStop _) polls with ⟨ordered | _ | _, polls₁⟩ <;> simp only
  rcases Prog.foldEach (surveyRoot view listEntries) ⟨[], []⟩ ordered.zipIdx polls₁ with
    ⟨survey | _ | _, polls₂⟩ <;> simp only
  rcases Prog.foldEach (freezeArchive ordered survey.participants) (List.replicate ordered.length .empty, [])
    survey.drafts polls₂ with ⟨⟨_, plans⟩ | _ | _, polls₃⟩ <;> simp only
  by_cases hempty : plans = []
  · simp [hempty, checkedPlan, pure, Prog.ret]
  · simp only [checkCapacity, checkedPlan, if_neg hempty]
    cases hverdict : verdict (plans.map fun plan => (plan.modRoot, plan.estimatedCapacityBytes)) <;>
      simp [Prog.andThen, pure, Prog.ret, Prog.fail, hempty, hverdict]

/-! ## Checkpoints -/

section Checkpoints

variable {probe' : VolumeProbe} {volumes' : FrozenVolumes} {mode : ExecutionMode} {stage : CapacityStage}

/-- The shortage that a verdict warns of. -/
def warnsOf : CapacityVerdict → Option CapacityShortage
  | .warn warning => warning.capacityShortage
  | _ => none

/-- The shortage that a verdict fails on. -/
def failsOn : CapacityVerdict → Option CapacityShortage
  | .failRun failure => failure.capacityShortage
  | .failWork shortage => some shortage
  | _ => none

/-- The first shortage of a demand, of the identities in effect. -/
def shortageIn (probe : VolumeProbe) (identities : Path → Option String) (demand : Demand) : Option CapacityShortage :=
  (demanded demand).findSome? fun entry => shortageOf probe identities demand entry.1

theorem check_run (demand : Demand) : (check probe mode stage demand volumes).1 =
    verdictOf (identityOf probe volumes) mode stage (shortageIn probe (identityOf probe volumes) demand) :=
  (((looks_findShortage demand (demanded demand)).bind fun shortage => looks_verdict stage shortage) volumes).1

/-- **A Dry Run warns of what an Apply run fails on**, at a checkpoint both reach. -/
theorem preview_checkpoint (demand : Demand) (hstage : stage ≠ .recheck)
    (hidentity : identityOf probe volumes = identityOf probe' volumes')
    (havailable : ∀ root, availableBytes probe root = availableBytes probe' root) :
    warnsOf (check probe .dryRun stage demand volumes).1 = failsOn (check probe' .apply stage demand volumes').1 := by
  have hshortage : shortageIn probe (identityOf probe volumes) demand =
      shortageIn probe' (identityOf probe' volumes') demand := by
    unfold shortageIn
    rw [hidentity, shortageOf_congr havailable]
  rw [check_run, check_run, hshortage]
  cases shortageIn probe' (identityOf probe' volumes') demand with
  | none => rfl
  | some shortage =>
    cases stage with
    | beforeExtraction => rfl
    | beforeCreation => rfl
    | recheck => exact absurd rfl hstage

theorem beforeExtraction_eq (mode : ExecutionMode) (estimates : List (Path × Nat)) :
    beforeExtraction probe mode volumes estimates = ((verdictOfPreflight (verdictOf (identityOf probe volumes) mode
      .beforeExtraction (shortageIn probe (identityOf probe volumes) (demandOf estimates)))).getD .fits) := by
  unfold beforeExtraction
  rw [check_run]

/-- **Before extraction** a check never fails work alone. -/
theorem verdictOfPreflight_some (mode : ExecutionMode) (demand : Demand) :
    (verdictOfPreflight (check probe mode .beforeExtraction demand volumes).1).isSome = true := by
  rw [check_run]
  cases shortageIn probe (identityOf probe volumes) demand <;> cases mode <;> rfl

end Checkpoints

/-- A plan, with the warning of a shortage. -/
def warned (planned : Planned) (shortage : CapacityShortage) (volume : Option String) : Planned :=
  { planned with capacityWarning := some (shortageWarning shortage .discoveringArchives volume).detail }

section Preflight

variable {view : FileView} {listEntries : Path → Answer (List ArchiveEntry)} {precedence : ArchivePrecedence}
variable {roots : List (RootArchives table)} {polls : Polls}

/-- What fits is planned without a warning. -/
theorem capacityWarning_of_fits {planned : Planned}
    (h : (preflight view listEntries (fun _ => .fits) precedence roots polls).1 = .done planned) :
    planned.capacityWarning = none := by
  unfold preflight at h
  simp only [bind, Prog.andThen] at h
  rcases hroots : (Prog.ofExcept ((orderRoots view precedence roots).mapError PreflightStop.failed) :
    Prog Polls PreflightStop _) polls with ⟨ordered | _ | _, polls₁⟩ <;> simp only [hroots, reduceCtorEq] at h
  rcases hsurvey : Prog.foldEach (surveyRoot view listEntries) ⟨[], []⟩ ordered.zipIdx polls₁ with
    ⟨survey | _ | _, polls₂⟩ <;> simp only [hsurvey, reduceCtorEq] at h
  rcases hplans : Prog.foldEach (freezeArchive ordered survey.participants) (List.replicate ordered.length .empty, [])
    survey.drafts polls₂ with ⟨⟨_, plans⟩ | _ | _, polls₃⟩ <;> simp only [hplans, reduceCtorEq] at h
  by_cases hempty : plans = []
  · simp only [hempty, if_true, pure, Prog.ret, Outcome.done.injEq] at h
    rw [← h]
  · simp only [checkCapacity, if_neg hempty, pure, Prog.ret, Prog.andThen, Outcome.done.injEq] at h
    rw [← h]

/-- **The preflight of both modes** stops alike, plans alike, and is set apart by a shortage alone. -/
theorem preview_preflight :
    (∀ stop, (preflight view listEntries (fun _ => .fits) precedence roots polls).1 = .fail stop → ∀ mode,
      (preflight view listEntries (beforeExtraction probe mode volumes) precedence roots polls).1 = .fail stop) ∧
    ∀ planned, (preflight view listEntries (fun _ => .fits) precedence roots polls).1 = .done planned →
      planned.capacityWarning = none ∧
      ((∀ mode, (preflight view listEntries (beforeExtraction probe mode volumes) precedence roots polls).1 =
          .done planned) ∨
        ∃ shortage,
          (preflight view listEntries (beforeExtraction probe .dryRun volumes) precedence roots polls).1 =
            .done (warned planned shortage (identityOf probe volumes shortage.root)) ∧
          (preflight view listEntries (beforeExtraction probe .apply volumes) precedence roots polls).1 =
            .fail (.failed ⟨.archiveInsufficientCapacity, shortage.text, shortage.root⟩)) := by
  have hrun : ∀ mode, preflight view listEntries (beforeExtraction probe mode volumes) precedence roots polls =
      Prog.andThen (preflight view listEntries (fun _ => .fits) precedence roots)
        (checkedPlan (beforeExtraction probe mode volumes)) polls := fun mode => congrFun (preflight_eq ..) polls
  constructor
  · intro stop hstop mode
    rw [hrun]
    unfold Prog.andThen
    rcases hplan : preflight view listEntries (fun _ => .fits) precedence roots polls with ⟨_ | _ | _, polls'⟩ <;>
      rw [hplan] at hstop <;> simp_all
  · intro planned hplanned
    refine ⟨capacityWarning_of_fits hplanned, ?_⟩
    have hchecked : ∀ mode,
        (preflight view listEntries (beforeExtraction probe mode volumes) precedence roots polls).1 =
          (checkedPlan (beforeExtraction probe mode volumes) planned
            (preflight view listEntries (fun _ => .fits) precedence roots polls).2).1 := by
      intro mode
      rw [hrun]
      unfold Prog.andThen
      rcases hplan : preflight view listEntries (fun _ => .fits) precedence roots polls with ⟨_ | _ | _, polls'⟩ <;>
        rw [hplan] at hplanned <;> simp_all
    simp only [hchecked]
    by_cases hempty : planned.plans = []
    · exact .inl fun mode => by simp [checkedPlan, hempty, pure, Prog.ret]
    · simp only [checkedPlan, if_neg hempty, beforeExtraction_eq]
      cases shortageIn probe (identityOf probe volumes)
          (demandOf (planned.plans.map fun plan => (plan.modRoot, plan.estimatedCapacityBytes))) with
      | none => exact .inl fun mode => by cases mode <;> rfl
      | some shortage => exact .inr ⟨shortage, rfl, rfl⟩

end Preflight

/-! ## Creation -/

section Planning

variable {K : Type} {V : Volume K} {P ε : Type} {plan : FinalizationPlan}

/-- The plugin allowance of each planned Mod Root; `none` is the panic of a lookup. -/
def allowancesOf (plan : FinalizationPlan) (roots : List Path) : Option (List (Path × Nat)) :=
  roots.mapM fun root => (plan.dummyCapacityByRoot.lookup root).map fun required => (root, required)

/-- What the planned outputs are estimated to need. -/
def outputEstimates (plan : FinalizationPlan) : List (Path × Nat) :=
  plan.outputs.map fun output => (output.modRoot, output.estimatedCapacityBytes)

/-- A demand with more estimates. -/
def addAll (demand : Demand) (estimates : List (Path × Nat)) : Demand :=
  estimates.foldl (fun demand estimate => demand.add estimate.1 estimate.2) demand

theorem addAllowances_run (roots : List Path) (demand : CreationDemand) (s : Site V P) :
    (Prog.foldEach (addAllowance plan) demand roots : Prog (Site V P) (Thrown ε) CreationDemand) s =
      ((allowancesOf plan roots).elim (.fail (.panic "no entry found for key")) fun allowances =>
        .done ⟨addAll demand.phase allowances, addAll demand.dummies allowances⟩, s) := by
  induction roots generalizing demand with
  | nil => rfl
  | cons root roots ih =>
    have hstep : (Prog.foldEach (addAllowance plan) demand (root :: roots) : Prog (Site V P) (Thrown ε) _) s =
        Prog.andThen (addAllowance plan demand root)
          (fun demand => Prog.foldEach (addAllowance plan) demand roots) s := rfl
    rw [hstep]
    unfold allowancesOf at ih ⊢
    rw [List.mapM_cons]
    cases hrequired : plan.dummyCapacityByRoot.lookup root with
    | none =>
      simp [Prog.andThen, addAllowance, dummyCapacityOf, hrequired, bind, Prog.fail]
    | some required =>
      have hadd : (addAllowance plan demand root : Prog (Site V P) (Thrown ε) _) s =
          (.done ⟨demand.phase.add root required, demand.dummies.add root required⟩, s) := by
        simp [addAllowance, dummyCapacityOf, hrequired, bind, Prog.andThen, pure, Prog.ret]
      unfold Prog.andThen
      rw [hadd]
      simp only [ih]
      cases hrest : roots.mapM fun root => (plan.dummyCapacityByRoot.lookup root).map fun required => (root, required) <;>
        simp [addAll]

theorem demandOf_append (first second : List (Path × Nat)) :
    demandOf (first ++ second) = addAll (demandOf first) second := List.foldl_append

/-- **The demand of Archive creation** is that of the allowances, then of the outputs. -/
theorem creationDemand_run (s : Site V P) :
    (creationDemand plan : Prog (Site V P) (Thrown ε) CreationDemand) s =
      ((allowancesOf plan plan.roots).elim (.fail (.panic "no entry found for key")) fun allowances =>
        .done ⟨demandOf (allowances ++ outputEstimates plan), demandOf allowances⟩, s) := by
  have hrun : (creationDemand plan : Prog (Site V P) (Thrown ε) CreationDemand) s =
      Prog.andThen (Prog.foldEach (addAllowance plan) ⟨.empty, .empty⟩ plan.roots) (fun demand =>
        Prog.ret { demand with phase := plan.outputs.foldl (fun demand output =>
          demand.add output.modRoot output.estimatedCapacityBytes) demand.phase }) s := rfl
  rw [hrun]
  unfold Prog.andThen
  rw [addAllowances_run]
  cases allowancesOf plan plan.roots with
  | none => rfl
  | some allowances =>
    have hphase : plan.outputs.foldl (fun demand output => demand.add output.modRoot output.estimatedCapacityBytes)
        (demandOf allowances) = demandOf (allowances ++ outputEstimates plan) := by
      rw [demandOf_append, addAll, outputEstimates, List.foldl_map]
    simp only [Option.elim_some, Prog.ret, addAll, ← hphase]
    rfl

/-- A demand is known by its roots. -/
theorem demandWith_demandOf (estimates : List (Path × Nat)) : demandWith (demandOf estimates).roots = demandOf estimates := by
  unfold demandWith
  rw [placed_demandOf, ← total_demandOf]

end Planning

section Creation

variable {K : Type} [DecidableEq K] {V : Volume K} {P ε : Type} {plan : FinalizationPlan} {seams : FinalizationSeams}
variable {request : FinalizationRequest} {preparation : Finalize.RunPreparation} {allowances : List (Path × Nat)}

/-- The shortage that stops the creation of a plan. -/
def shortageOfPlan (probe : VolumeProbe) (volumes : FrozenVolumes) (plan : FinalizationPlan)
    (allowances : List (Path × Nat)) : Option CapacityShortage :=
  shortageIn probe (identityOf probe volumes) (demandOf (allowances ++ outputEstimates plan))

theorem creationShortage_eq (allowances : List (Path × Nat)) :
    creationShortage probe volumes (demandOf (allowances ++ outputEstimates plan)).roots =
      shortageOfPlan probe volumes plan allowances := by
  unfold creationShortage shortageOfPlan
  rw [demandWith_demandOf, check_run]
  cases shortageIn probe (identityOf probe volumes) (demandOf (allowances ++ outputEstimates plan)) <;> rfl

/-- **A Dry Run's plan** comes with a warning of the shortage. -/
theorem planArchiveCreation_run {s s' : Site V P} (hrequested : preparation.archiveCreation = true)
    (hplan : planFinalization seams (request.prepared preparation) preparation.modRoots s = (.done plan, s'))
    (hallowances : allowancesOf plan plan.roots = some allowances) :
    (planArchiveCreation seams request preparation probe .dryRun volumes : Prog (Site V P) (Thrown ε) _) s =
      (.done (.planned (plannedOutputs plan) ((shortageOfPlan probe volumes plan allowances).map fun shortage =>
        shortageWarning shortage .archiveFinalization (identityOf probe volumes shortage.root))), s') := by
  have hchecked : (planAndCheck seams request preparation probe .dryRun volumes) s =
      (.done (plannedOutputs plan, verdictOf (identityOf probe volumes) .dryRun .beforeCreation
        (shortageOfPlan probe volumes plan allowances)), s') := by
    have hdemand : (creationDemand plan : Prog (Site V P) (Thrown PlanningStop) _) s' = _ := creationDemand_run s'
    rw [hallowances, Option.elim_some] at hdemand
    simp only [planAndCheck, bind, Prog.andThen, hplan, hdemand, check_run, pure, Prog.ret]
    rfl
  have hrun : (planArchiveCreation seams request preparation probe .dryRun volumes : Prog (Site V P) (Thrown ε) _) s =
      Prog.andThen (catchUnwind (planAndCheck seams request preparation probe .dryRun volumes)) creationPlanned s :=
    congrFun (if_pos hrequested) s
  rw [hrun]
  simp only [Prog.andThen, catchUnwind, Prog.attempt, hchecked]
  cases shortageOfPlan probe volumes plan allowances <;> rfl

/-- **An Apply run** of the same plan records the same shortage, and goes on only without one. -/
theorem finalizePlan_run {settings : Settings} {s : Site V Finalization} (hcancelled : seams.cancelled s.calls = false)
    (hallowances : allowancesOf plan plan.roots = some allowances) :
    finalizePlan (checkedBy seams probe volumes) settings plan s =
      (shortageOfPlan probe volumes plan allowances).elim
        (Prog.andThen (attemptOutputs (checkedBy seams probe volumes) plan (demandOf allowances) plan.outputs)
          (fun goesOn => if goesOn then finishPlan (checkedBy seams probe volumes) settings plan else return ())
          { s with calls := s.calls + 2 })
        fun shortage => recordShortage (checkedBy seams probe volumes) shortage
          ((plan.outputs.find? fun output => output.modRoot = shortage.root).map FinalizationOutput.archivePath)
          { s with calls := s.calls + 2 } := by
  have hpoll : (isCancelled (checkedBy seams probe volumes) : Prog (Site V Finalization) (Thrown Escape) _) s =
      (.done false, { s with calls := s.calls + 1 }) := by
    simp only [isCancelled, nextCall, bind, Prog.andThen, pure, Prog.ret]
    exact congrArg (fun cancelled => (Outcome.done cancelled, _)) hcancelled
  have hdemand : (creationDemand plan : Prog (Site V Finalization) (Thrown Escape) _)
      { s with calls := s.calls + 1 } = _ := creationDemand_run _
  rw [hallowances, Option.elim_some] at hdemand
  unfold finalizePlan
  simp only [bind, Prog.andThen, hpoll, Bool.false_eq_true, if_false, hdemand, nextCall]
  simp only [checkedBy, creationShortage_eq]
  cases shortageOfPlan probe volumes plan allowances <;> rfl

end Creation

/-! ## Both runs -/

/-- What a Dry Run and an Apply run of one request have in common, up to the first mutation. -/
structure Predicts (table : UpcaseTable) (view : FileView) (listEntries : Path → Answer (List ArchiveEntry))
    (lowercase : Text → Text) (precedence : ArchivePrecedence) (policy : RoutingPolicy) (walks : List Walk)
    (polls : Polls) : Prop where
  /-- A discovery that stops before its check stops alike. -/
  stopped : ∀ stop,
    (discoverArchives table view listEntries lowercase precedence policy (fun _ => .fits) walks polls).1 = .fail stop →
    ∀ mode probe volumes, (discoverArchives table view listEntries lowercase precedence (policy.withMode mode)
      (beforeExtraction probe mode volumes) walks polls).1 = .fail stop
  /-- One that reaches it has one plan and one report of collisions, and the Dry Run warns of the shortage that the
  Apply run fails on, if there is one. -/
  planned : ∀ planned,
    (discoverArchives table view listEntries lowercase precedence policy (fun _ => .fits) walks polls).1 =
      .done planned →
    planned.capacityWarning = none ∧ ∀ probe volumes,
      (∀ mode, (discoverArchives table view listEntries lowercase precedence (policy.withMode mode)
        (beforeExtraction probe mode volumes) walks polls).1 = .done planned) ∨
      ∃ shortage,
        (discoverArchives table view listEntries lowercase precedence (policy.withMode .dryRun)
            (beforeExtraction probe .dryRun volumes) walks polls).1 =
          .done (warned planned shortage (identityOf probe volumes shortage.root)) ∧
        (discoverArchives table view listEntries lowercase precedence (policy.withMode .apply)
            (beforeExtraction probe .apply volumes) walks polls).1 =
          .fail (.failed ⟨.archiveInsufficientCapacity, shortage.text, shortage.root⟩)
  /-- At either checkpoint the Dry Run warns of exactly the shortage that the Apply run fails on. -/
  checkpoint : ∀ stage, stage ≠ .recheck → ∀ demand probe probe' volumes volumes',
    identityOf probe volumes = identityOf probe' volumes' →
    (∀ root, availableBytes probe root = availableBytes probe' root) →
    warnsOf (check probe .dryRun stage demand volumes).1 = failsOn (check probe' .apply stage demand volumes').1
  /-- Of one creation plan both find one shortage; the Dry Run warns of it, and the Apply run records it in place of
  any output. -/
  creation : ∀ {K : Type} [DecidableEq K] {V : Volume K} (seams : FinalizationSeams) (request : FinalizationRequest)
    (preparation : Finalize.RunPreparation) (probe : VolumeProbe) (volumes : FrozenVolumes) (plan : FinalizationPlan)
    (allowances : List (Path × Nat)) (s s' : Site V Finalization), preparation.archiveCreation = true →
    planFinalization (checkedBy seams probe volumes) (request.prepared preparation) preparation.modRoots s =
      (.done plan, s') →
    allowancesOf plan plan.roots = some allowances →
    (planArchiveCreation (checkedBy seams probe volumes) request preparation probe .dryRun volumes :
        Prog (Site V Finalization) (Thrown Escape) _) s =
      (.done (.planned (plannedOutputs plan) ((shortageOfPlan probe volumes plan allowances).map fun shortage =>
        shortageWarning shortage .archiveFinalization (identityOf probe volumes shortage.root))), s') ∧
    ∀ settings (reached : Site V Finalization), seams.cancelled reached.calls = false →
      finalizePlan (checkedBy seams probe volumes) settings plan reached =
        (shortageOfPlan probe volumes plan allowances).elim
          (Prog.andThen (attemptOutputs (checkedBy seams probe volumes) plan (demandOf allowances) plan.outputs)
            (fun goesOn => if goesOn then finishPlan (checkedBy seams probe volumes) settings plan else return ())
            { reached with calls := reached.calls + 2 })
          fun shortage => recordShortage (checkedBy seams probe volumes) shortage
            ((plan.outputs.find? fun output => output.modRoot = shortage.root).map FinalizationOutput.archivePath)
            { reached with calls := reached.calls + 2 }

/-- **A Dry Run predicts the Apply run** of the same request over the same files, up to the first mutation. -/
theorem dryRun_predicts (table : UpcaseTable) (view : FileView) (listEntries : Path → Answer (List ArchiveEntry))
    (lowercase : Text → Text) (precedence : ArchivePrecedence) (policy : RoutingPolicy) (walks : List Walk)
    (polls : Polls) : Predicts table view listEntries lowercase precedence policy walks polls := by
  have hpass : ∀ mode, archivePass lowercase (policy.withMode mode) walks (⟨[], [], []⟩ : ArchivePass table) =
      archivePass lowercase policy walks ⟨[], [], []⟩ := fun mode => archivePass_withMode mode lowercase walks _
  constructor
  · intro stop hstop mode probe volumes
    unfold discoverArchives at hstop ⊢
    rw [hpass]
    cases hcomplete : (archivePass lowercase policy walks (⟨[], [], []⟩ : ArchivePass table)).2 with
    | true =>
      simp only [hcomplete, if_true] at hstop ⊢
      exact preview_preflight.1 stop hstop mode
    | false =>
      simp only [hcomplete] at hstop ⊢
      exact hstop
  · intro planned hplanned
    unfold discoverArchives at hplanned ⊢
    simp only [hpass]
    cases hcomplete : (archivePass lowercase policy walks (⟨[], [], []⟩ : ArchivePass table)).2 with
    | true =>
      simp only [hcomplete, if_true] at hplanned ⊢
      exact ⟨capacityWarning_of_fits hplanned, fun probe volumes => (preview_preflight.2 planned hplanned).2⟩
    | false =>
      simp only [hcomplete] at hplanned
      cases hplanned
  · intro stage hstage demand probe probe' volumes volumes' hidentity havailable
    exact preview_checkpoint demand hstage hidentity havailable
  · intro K _ V seams request preparation probe volumes plan allowances s s' hrequested hplan hallowances
    exact ⟨planArchiveCreation_run hrequested hplan hallowances, fun settings reached hcancelled =>
      finalizePlan_run hcancelled hallowances⟩

end Cao.Capacity
