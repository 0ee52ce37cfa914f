import Cao.Run.Capacity
import Cao.Routing.Route

/-!
# The Capacity Check

A run's estimated Archive work against the free space on each affected volume (`run/capacity.rs`).

* `VolumeProbe`, `FrozenVolumes`: what the probe answers, and the volume identities a run has frozen;
* `volumeIdentity`, `requiredAt`, `shortageAt`, `firstShortage`: the check;
* `CapacityStage`, `CapacityVerdict`, `verdict`: what a shortage means;
* `check`, `checkAt`, `recheckAt`: the three ways to ask;
* `Query`, `ask`, `afterChecks`: the checks of a run.
-/

namespace Cao

namespace Capacity

open Evidence

/-! ## The probe -/

/-- What one query of the probe comes to. -/
inductive ProbeAnswer (α : Type)
  | answered (answer : Option α)
  | panicked
  deriving DecidableEq, Repr

/-- `VolumeProbe`, while one check runs. A check asks for a root's free space at most once, and for its volume at
most once, since it freezes the answer; so what the probe answers is a function of the root. -/
structure VolumeProbe where
  availableBytes : Path → ProbeAnswer Nat
  volumeIdentity : Path → ProbeAnswer String

/-- `contained_probe`. -/
def containedProbe {α : Type} : ProbeAnswer α → Option α
  | .answered answer => answer
  | .panicked => none

/-- `FrozenVolumes`: the identity of each root that a check has asked for. -/
def FrozenVolumes : Type := Path → Option (Option String)

/-- `FrozenVolumes::default`. -/
def FrozenVolumes.default : FrozenVolumes := fun _ => none

/-- `entry` and `or_insert`: an answer already frozen stands. -/
def FrozenVolumes.orInsert (volumes : FrozenVolumes) (root : Path) (volume : Option String) : FrozenVolumes :=
  fun other => if other = root then some ((volumes root).getD volume) else volumes other

/-- `CapacityCheck::volume_identity`. -/
def volumeIdentity (probe : VolumeProbe) (root : Path) : StateM FrozenVolumes (Option String) := fun volumes =>
  match volumes root with
  | some volume => (volume, volumes)
  | none =>
    let volume := containedProbe (probe.volumeIdentity root)
    (volume, volumes.orInsert root volume)

/-- `CapacityCheck::available_bytes`. -/
def availableBytes (probe : VolumeProbe) (root : Path) : Option Nat := containedProbe (probe.availableBytes root)

/-! ## Shortages -/

/-- The roots whose own demand is not zero. -/
def demanded (demand : Demand) : List (Path × Nat) := demand.roots.filter fun entry => entry.2 ≠ 0

/-- The loop of `required_at`: the demand on one volume, unknown once a root's volume is. -/
def sumOnVolume (probe : VolumeProbe) (volume : String) :
    Nat → List (Path × Nat) → StateM FrozenVolumes (Option Nat)
  | required, [] => return some required
  | required, (other, bytes) :: roots => do
    match ← volumeIdentity probe other with
    | none => return none
    | some otherVolume =>
      if otherVolume = volume then sumOnVolume probe volume (saturatingAdd required bytes) roots
      else sumOnVolume probe volume required roots

/-- `CapacityCheck::required_at`. -/
def requiredAt (probe : VolumeProbe) (demand : Demand) (root : Path) : StateM FrozenVolumes Nat := do
  if demand.roots.all fun (other, bytes) => bytes = 0 || other = root then return demand.total
  match ← volumeIdentity probe root with
  | none => return demand.total
  | some volume => return (← sumOnVolume probe volume 0 (demanded demand)).getD demand.total

/-- `CapacityCheck::shortage_at`. -/
def shortageAt (probe : VolumeProbe) (demand : Demand) (root : Path) :
    StateM FrozenVolumes (Option CapacityShortage) := do
  let required ← requiredAt probe demand root
  match availableBytes probe root with
  | none => return none
  | some available => return if available < required then some ⟨root, required, available⟩ else none

/-- `find_map` of `shortage_at`. -/
def findShortage (probe : VolumeProbe) (demand : Demand) :
    List (Path × Nat) → StateM FrozenVolumes (Option CapacityShortage)
  | [] => return none
  | (root, _) :: roots => do
    match ← shortageAt probe demand root with
    | some shortage => return some shortage
    | none => findShortage probe demand roots

/-- `CapacityCheck::first_shortage`. -/
def firstShortage (probe : VolumeProbe) (demand : Demand) : StateM FrozenVolumes (Option CapacityShortage) :=
  findShortage probe demand (demanded demand)

/-! ## Verdicts -/

/-- `CapacityStage`. -/
inductive CapacityStage
  | beforeExtraction
  | beforeCreation
  | recheck
  deriving DecidableEq, Repr

/-- `CapacityVerdict`. -/
inductive CapacityVerdict
  | fits
  | failRun (failure : Evidence.RunFailure)
  | failWork (shortage : CapacityShortage)
  | warn (warning : RunDiagnostic)
  deriving DecidableEq, Repr

/-- `RunFailure::new`, `with_path` and `with_capacity_shortage`, of a shortage. -/
def insufficientCapacity (shortage : CapacityShortage) : Evidence.RunFailure where
  code := .archiveInsufficientCapacity
  phase := .discoveringArchives
  detail := shortage.text
  path := shortage.root
  capacityShortage := some shortage

/-- `CapacityShortage::warning`. -/
def shortageWarning (shortage : CapacityShortage) (phase : RunPhase) (volume : Option String) : RunDiagnostic :=
  let place := match volume with
    | some volume => "volume " ++ volume
    | none => "the volume holding this Mod Root"
  let detail := "Capacity shortage: an Apply run would need an estimated " ++ toString shortage.required ++
    " bytes on " ++ place ++ ", but " ++ toString shortage.available ++
    " bytes are available, so it would fail its Capacity Check. The Dry Run itself needs no space."
  { RunDiagnostic.new .capacityShortage phase detail with path := shortage.root, capacityShortage := some shortage }

/-- `CapacityCheck::warning`. -/
def warning (probe : VolumeProbe) (phase : RunPhase) (shortage : CapacityShortage) :
    StateM FrozenVolumes RunDiagnostic := do
  let volume ← volumeIdentity probe shortage.root
  return shortageWarning shortage phase volume

/-- `CapacityCheck::verdict`. -/
def verdict (probe : VolumeProbe) (mode : ExecutionMode) (stage : CapacityStage) :
    Option CapacityShortage → StateM FrozenVolumes CapacityVerdict
  | none => return .fits
  | some shortage =>
    match stage, mode with
    | .beforeExtraction, .apply => return .failRun (insufficientCapacity shortage)
    | .beforeExtraction, .dryRun => return .warn (← warning probe .discoveringArchives shortage)
    | .beforeCreation, .dryRun => return .warn (← warning probe .archiveFinalization shortage)
    | .beforeCreation, .apply => return .failWork shortage
    | .recheck, _ => return .failWork shortage

/-- `CapacityCheck::check`. -/
def check (probe : VolumeProbe) (mode : ExecutionMode) (stage : CapacityStage) (demand : Demand) :
    StateM FrozenVolumes CapacityVerdict := do
  let shortage ← firstShortage probe demand
  verdict probe mode stage shortage

/-- `CapacityCheck::check_at`. -/
def checkAt (probe : VolumeProbe) (mode : ExecutionMode) (stage : CapacityStage) (demand : Demand) (root : Path) :
    StateM FrozenVolumes CapacityVerdict := do
  let shortage ← shortageAt probe demand root
  verdict probe mode stage shortage

/-- The message of a recheck that would mean more than failing its work, without the verdict itself. -/
def neverMore : String := "a recheck fails only the work it guards, never "

/-- What a recheck makes of its verdict. -/
def failsWork : CapacityVerdict → Except String (Option CapacityShortage)
  | .fits => .ok none
  | .failWork shortage => .ok (some shortage)
  | .failRun _ => .error neverMore
  | .warn _ => .error neverMore

/-- `CapacityCheck::recheck_at`. -/
def recheckAt (probe : VolumeProbe) (mode : ExecutionMode) (demand : Demand) (root : Path) :
    StateM FrozenVolumes (Except String (Option CapacityShortage)) := do
  let verdict ← checkAt probe mode .recheck demand root
  return failsWork verdict

/-! ## The checks of a run -/

/-- The demand of a list of estimates, added in order. -/
def demandOf (estimates : List (Path × Nat)) : Demand :=
  estimates.foldl (fun demand estimate => demand.add estimate.1 estimate.2) .empty

/-- A Capacity Check of a run: of a whole demand, or at one root. -/
inductive Query
  | check (stage : CapacityStage) (estimates : List (Path × Nat))
  | checkAt (stage : CapacityStage) (estimates : List (Path × Nat)) (root : Path)
  deriving DecidableEq, Repr

namespace Query

/-- Where in the run the check is. -/
def stage : Query → CapacityStage
  | check stage _ => stage
  | checkAt stage _ _ => stage

/-- The estimates added to its demand, in order. -/
def estimates : Query → List (Path × Nat)
  | check _ estimates => estimates
  | checkAt _ estimates _ => estimates

/-- The roots whose free space a check samples until one is short. -/
def Tests : Query → Path → Prop
  | check _ estimates, root => ∃ bytes, (root, bytes) ∈ estimates ∧ bytes ≠ 0
  | checkAt _ _ tested, root => root = tested

end Query

/-- A check of a run. -/
def ask (probe : VolumeProbe) (mode : ExecutionMode) : Query → StateM FrozenVolumes CapacityVerdict
  | .check stage estimates => check probe mode stage (demandOf estimates)
  | .checkAt stage estimates root => checkAt probe mode stage (demandOf estimates) root

/-- The volumes after a run's checks, each with what its probe answers then. -/
def afterChecks (mode : ExecutionMode) (volumes : FrozenVolumes) (checks : List (VolumeProbe × Query)) : FrozenVolumes :=
  checks.foldl (fun volumes asked => (ask asked.1 mode asked.2 volumes).2) volumes

end Capacity

end Cao
