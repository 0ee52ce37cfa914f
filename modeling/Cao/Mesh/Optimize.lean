import Cao.Mesh.References
import Cao.Mesh.Scan
import Cao.Staging.RoundTrip

/-!
# Optimizing a Mesh

The Mesh optimizer at the run's mesh level (`meshes.rs`), and the Mesh half of the Asset Execution Backend
(`backend.rs`) under the executor.

* `Nifly`: what nifly makes of a loaded Mesh; `MeshSettings`, `MeshOptimizer`: the run's choices and target;
* `gamePath`, **`gamePath_of_resolved`**: a Mesh is matched by its path within its Mod Root, wherever that lies;
* `scan`, `optimize`, **`dryRun_of_apply`**: a Dry Run reports what Apply does, and Apply reports every change;
* `meshBackend`: the backend of one Mesh, its calls one after another;
* **`mesh_evaluations_agree`**: the executor comes to the same in a Dry Run and in Apply.
-/

namespace Cao.Mesh

open Asset (OperationResult AssetBackend AssetSite AssetExecutionResult Attempting backendCall)
open Routing

/-! ## nifly -/

/-- `NifError`. -/
inductive NifError
  | load (code : Int32)
  | save
  | exception (message : String)

/-- `describe_load_code`. -/
def describeLoadCode (code : Int32) : String :=
  if code = 1 then "nifly cannot open this file or read its header (load code 1)"
  else if code = 2 then "nifly cannot load this file version (load code 2)"
  else if code = 3 then "nifly cannot skip an unknown block in a file without block sizes (load code 3)"
  else "nifly failed to load the file (load code " ++ toString code.toInt ++ ")"

/-- The text of a `NifError`. -/
def NifError.text : NifError → String
  | .load code => describeLoadCode code
  | .save => "nifly could not open the output file"
  | .exception message => "nifly raised a C++ exception: " ++ message

/-- `NifVersion`. -/
structure NifVersion where
  file : UInt32
  user : UInt32
  stream : UInt32
  deriving DecidableEq, Repr

/-- `NifVersion::is_sk`. -/
def NifVersion.isSk (version : NifVersion) : Bool := version.file == 0x14020007 && version.stream == 83

/-- `OptimizeOptions`. -/
structure OptimizeOptions where
  target : NifVersion
  headParts : Bool
  removeParallax : Bool
  deriving DecidableEq, Repr

/-- A loaded Mesh: its references, and whatever else nifly holds of it. -/
structure LoadedMesh (R : Type) where
  nif : Nif
  rest : R

/-- What nifly makes of a loaded Mesh. -/
structure Nifly (R : Type) where
  isValid : LoadedMesh R → Bool
  isSseCompatible : LoadedMesh R → Except NifError Bool
  optimizeFor : OptimizeOptions → LoadedMesh R → Except NifError (LoadedMesh R)
  /-- `texture_paths`, which lists the references. -/
  texturePaths : LoadedMesh R → Except NifError Unit
  /-- The calls of `TexturePaths::set` for the references that are rewritten. -/
  setTexturePaths : LoadedMesh R → Except NifError Unit
  /-- `save`, with what it leaves at the path. -/
  save : LoadedMesh R → Option Bytes × Except NifError Unit

/-! ## The optimizer -/

/-- `MeshSettings`. -/
structure MeshSettings where
  level : UInt8
  headparts : Bool
  resave : Bool
  deriving DecidableEq, Repr

/-- `recognises_headparts`. -/
def MeshSettings.recognisesHeadparts (settings : MeshSettings) : Bool := 1 ≤ settings.level

/-- `Scan`. -/
inductive Scan
  | doNotProcess
  | good
  | criticalIssue
  deriving DecidableEq, Repr

/-- `MeshOptimizer`. -/
structure MeshOptimizer where
  settings : MeshSettings
  target : NifVersion
  headparts : HeadpartList

/-- `game_path`, given how a path resolves. -/
def gamePath (weaklyCanonical : Path → Except String Path) (path modRoot : Path) : Text :=
  let within := fun path => if modRoot ≠ [] then relativeTo modRoot path else none
  let relative := ((within path).or ((weaklyCanonical path).toOption.bind within)).getD path
  (nativeText relative).lossy.map fun c => if c = '\\' then '/' else c

section

variable {R : Type} (tables : CaseTables) (weaklyCanonical : Path → Except String Path) (nifly : Nifly R)
  (optimizer : MeshOptimizer)

/-- `scan`: whether the Mesh is compatible is always asked first. -/
def MeshOptimizer.scan (mesh : LoadedMesh R) : Except NifError Scan :=
  if !nifly.isValid mesh then .ok .doNotProcess
  else do
    let compatible ← nifly.isSseCompatible mesh
    return if !compatible || optimizer.target.isSk then .criticalIssue else .good

/-- Whether the Mesh of a game path is a Headpart Mesh. -/
def MeshOptimizer.isHeadpart (gamePath : Text) : Bool :=
  optimizer.settings.recognisesHeadparts &&
    (optimizer.headparts.contains tables gamePath || "facegen".toList <:+: toLowercase tables gamePath)

/-- What a Dry Run reports of a Mesh that is no Headpart Mesh. -/
def wouldChange (level : UInt8) : Scan → Bool
  | .good => if 3 ≤ level then true else if 2 ≤ level then true else false
  | .criticalIssue => if 1 ≤ level then true else false
  | .doNotProcess => false

/-- The `OptimizeFor` of Apply: whether it was as a head part, and the Mesh. -/
def MeshOptimizer.optimizeFor (isHeadpart : Bool) (scan : Scan) (mesh : LoadedMesh R) :
    Except NifError (Bool × LoadedMesh R) :=
  let options : OptimizeOptions := ⟨optimizer.target, false, false⟩
  let level := optimizer.settings.level
  if isHeadpart then
    if optimizer.settings.headparts then do return (true, ← nifly.optimizeFor { options with headParts := true } mesh)
    else .ok (false, mesh)
  else match scan with
    | .good => if 3 ≤ level then do return (false, ← nifly.optimizeFor options mesh) else .ok (false, mesh)
    | .criticalIssue => if 1 ≤ level then do return (false, ← nifly.optimizeFor options mesh) else .ok (false, mesh)
    | .doNotProcess => .ok (false, mesh)

/-- `optimize`: whether the Mesh changed, or would, and the Mesh. -/
def MeshOptimizer.optimize (path modRoot : Path) (mode : ExecutionMode) (mesh : LoadedMesh R) :
    Except NifError (Bool × LoadedMesh R) := do
  let scan ← optimizer.scan nifly mesh
  if scan = .doNotProcess then return (false, mesh)
  else
    let level := optimizer.settings.level
    let isHeadpart := optimizer.isHeadpart tables (gamePath weaklyCanonical path modRoot)
    match mode with
    | .dryRun =>
      if isHeadpart && optimizer.settings.headparts then return (true, mesh)
      else return (wouldChange level scan || optimizer.settings.resave, mesh)
    | .apply =>
      let (processedHeadpart, mesh) ← optimizer.optimizeFor nifly isHeadpart scan mesh
      let modified := optimizer.settings.resave || (1 ≤ level && scan = .criticalIssue) || 2 ≤ level
      return (modified || processedHeadpart, mesh)

end

/-! ## The backend of one Mesh -/

/-- `unless_exception`: a C++ exception is a panic. -/
def unlessException {α : Type} (call : String) (path : Path) : Except NifError α → Except String (Except NifError α)
  | .error (.exception message) =>
    .error ("nifly raised a C++ exception in " ++ call ++ " for " ++ displayPath path ++ ": " ++ message)
  | other => .ok other

/-- `OperationResult::changed` or `unchanged`. -/
def resultOf (changed : Bool) : OperationResult := if changed then .changed else .unchanged

section

variable {R : Type} (tables : CaseTables) (weaklyCanonical : Path → Except String Path) (nifly : Nifly R)
  (optimizer : MeshOptimizer) (withholds : Bytes → Bool)

/-- `optimize_mesh`: the result, and the loaded Mesh. -/
def optimizeLoaded (path : Path) (modRoot : Option Path) (mode : ExecutionMode) :
    Option (LoadedMesh R) → Except String (OperationResult × Option (LoadedMesh R))
  | none => .ok (.failed "No Mesh is loaded.", none)
  | some mesh => do
    match ← unlessException "optimize" path (optimizer.optimize tables weaklyCanonical nifly path (modRoot.getD []) mode mesh) with
    | .ok (changed, mesh) => return (resultOf changed, some mesh)
    | .error error => return (.failed error.text, some mesh)

/-- `maintain_mesh_references`: the result, and the loaded Mesh. -/
def maintainLoaded (path : Path) (mode : ExecutionMode) :
    Option (LoadedMesh R) → Except String (OperationResult × Option (LoadedMesh R))
  | none => .ok (.failed "No Mesh is loaded.", none)
  | some mesh =>
    let maintained := maintainMeshReferences (mode = .dryRun) withholds mesh.nif
    let calls := match mode with
      | .dryRun => unlessException "texture_paths" path (nifly.texturePaths mesh)
      | .apply => unlessException "set_texture_path" path (do nifly.texturePaths mesh; nifly.setTexturePaths mesh)
    do match ← calls with
      | .ok () => return (maintained.1, some { mesh with nif := maintained.2 })
      | .error error => return (.failed error.text, some mesh)

/-- The Mesh that is loaded after an operation. -/
def loadedAfter (result : Except String (OperationResult × Option (LoadedMesh R))) (loaded : Option (LoadedMesh R)) :
    Option (LoadedMesh R) :=
  match result with
  | .ok (_, loaded) => loaded
  | .error _ => loaded

/-- The Mesh after the optimization that an Asset carries. -/
def optimizedMesh (asset : RoutedAsset) (modRoot : Option Path) (loaded : Option (LoadedMesh R)) : Option (LoadedMesh R) :=
  if asset.operations.optimization then
    loadedAfter (optimizeLoaded tables weaklyCanonical nifly optimizer asset.executionPath modRoot asset.executionMode loaded) loaded
  else loaded

/-- The Mesh after all that an Asset carries. -/
def maintainedMesh (asset : RoutedAsset) (modRoot : Option Path) (loaded : Option (LoadedMesh R)) : Option (LoadedMesh R) :=
  let loaded := optimizedMesh tables weaklyCanonical nifly optimizer asset modRoot loaded
  if asset.operations.meshReferenceMaintenance then
    loadedAfter (maintainLoaded nifly withholds asset.executionPath asset.executionMode loaded) loaded
  else loaded

/-- `OptimizerBackend` in the attempt of one Mesh: what a load gave, then each call on what the calls before it left. -/
def meshBackend (others : AssetBackend) (asset : RoutedAsset) (modRoot : Option Path)
    (load : Except NifError (LoadedMesh R)) : AssetBackend :=
  let loaded := load.toOption
  { others with
    loadMesh := fun _ path _ => (unlessException "load" path load).map fun result => result.toOption.isSome
    optimizeMesh := fun _ path modRoot mode =>
      (optimizeLoaded tables weaklyCanonical nifly optimizer path modRoot mode loaded).map Prod.fst
    maintainMeshReferences := fun _ mode =>
      (maintainLoaded nifly withholds asset.executionPath mode
        (optimizedMesh tables weaklyCanonical nifly optimizer asset modRoot loaded)).map Prod.fst
    saveMesh := fun _ =>
      match maintainedMesh tables weaklyCanonical nifly optimizer withholds asset modRoot loaded with
      | none => (none, .ok false)
      | some mesh => ((nifly.save mesh).1,
        (unlessException "save" asset.executionPath (nifly.save mesh).2).map fun result => result.toOption.isSome) }

end

/-! ## A Dry Run and Apply -/

section

variable {R : Type} {tables : CaseTables} {weaklyCanonical : Path → Except String Path} {nifly : Nifly R}
  {optimizer : MeshOptimizer} {mesh mesh' : LoadedMesh R} {path modRoot : Path}

/-- **A path that resolves below the Mod Root is matched by what is below it**, wherever the Mod Root lies. -/
theorem gamePath_of_resolved {relative : Path} (hroot : modRoot ≠ [])
    (hresolved : path = modRoot ++ relative ∨ relativeTo modRoot path = none ∧ weaklyCanonical path = .ok (modRoot ++ relative)) :
    gamePath weaklyCanonical path modRoot = (nativeText relative).lossy.map fun c => if c = '\\' then '/' else c := by
  have hrelative : relativeTo modRoot (modRoot ++ relative) = some relative := relativeTo_eq_some.mpr rfl
  unfold gamePath
  dsimp only
  obtain rfl | ⟨houtside, hcanonical⟩ := hresolved
  · rw [if_pos hroot, hrelative]
    rfl
  · rw [if_pos hroot, houtside, hcanonical]
    show ((nativeText (((if modRoot ≠ [] then relativeTo modRoot (modRoot ++ relative) else none)).getD path)).lossy.map _) = _
    rw [if_pos hroot, hrelative]
    rfl

/-- A Mesh below the levels that convert it, and that is no head part, is left. -/
theorem optimizeFor_left {isHeadpart processed : Bool} {scan : Scan}
    (h : optimizer.optimizeFor nifly isHeadpart scan mesh = .ok (processed, mesh')) (hprocessed : processed = false)
    (hcritical : scan = .criticalIssue → ¬ 1 ≤ optimizer.settings.level) (hlevel : ¬ 2 ≤ optimizer.settings.level) :
    mesh' = mesh := by
  subst hprocessed
  unfold MeshOptimizer.optimizeFor at h
  dsimp only at h
  have hfull : ¬ 3 ≤ optimizer.settings.level := fun hfull => hlevel (UInt8.le_trans (by decide) hfull)
  cases isHeadpart with
  | true =>
    rw [if_pos rfl] at h
    split_ifs at h
    · cases hoptimized : nifly.optimizeFor ⟨optimizer.target, true, false⟩ mesh <;> rw [hoptimized] at h <;> cases h
    · cases h
      rfl
  | false =>
    rw [if_neg Bool.false_ne_true] at h
    cases scan with
    | good =>
      rw [if_neg hfull] at h
      cases h
      rfl
    | criticalIssue =>
      rw [if_neg (hcritical rfl)] at h
      cases h
      rfl
    | doNotProcess =>
      cases h
      rfl

/-- A Mesh is processed as a head part where it is one and head parts are optimized. -/
theorem optimizeFor_processed {isHeadpart processed : Bool} {scan : Scan}
    (h : optimizer.optimizeFor nifly isHeadpart scan mesh = .ok (processed, mesh')) :
    processed = (isHeadpart && optimizer.settings.headparts) := by
  have hkept : ∀ {options} {processed' : Bool}, (do return (processed', ← nifly.optimizeFor options mesh)) =
      (Except.ok (processed, mesh') : Except NifError _) → processed = processed' := fun {options} _ hdone => by
    cases hoptimized : nifly.optimizeFor options mesh with
    | error error =>
      rw [hoptimized] at hdone
      cases hdone
    | ok after =>
      rw [hoptimized] at hdone
      cases hdone
      rfl
  unfold MeshOptimizer.optimizeFor at h
  dsimp only at h
  cases isHeadpart with
  | true =>
    rw [if_pos rfl] at h
    by_cases hheadparts : optimizer.settings.headparts = true
    · rw [if_pos hheadparts] at h
      rw [hkept h, hheadparts]
      rfl
    · rw [if_neg hheadparts] at h
      rw [Bool.eq_false_iff.mpr hheadparts]
      cases h
      rfl
  | false =>
    rw [if_neg Bool.false_ne_true] at h
    cases scan with
    | good =>
      dsimp only at h
      split_ifs at h
      · exact hkept h
      · cases h
        rfl
    | criticalIssue =>
      dsimp only at h
      split_ifs at h
      · exact hkept h
      · cases h
        rfl
    | doNotProcess =>
      cases h
      rfl

/-- The levels of a Dry Run and of Apply are the same. -/
theorem wouldChange_eq {level : UInt8} {scan : Scan} (h : scan ≠ .doNotProcess) :
    wouldChange level scan = (decide (1 ≤ level ∧ scan = .criticalIssue) || decide (2 ≤ level)) := by
  have hfull : 3 ≤ level → 2 ≤ level := fun hfull => UInt8.le_trans (by decide) hfull
  have hmedium : 2 ≤ level → 1 ≤ level := fun hmedium => UInt8.le_trans (by decide) hmedium
  cases scan with
  | doNotProcess => exact absurd rfl h
  | good =>
    by_cases h3 : 3 ≤ level
    · simp [wouldChange, h3, hfull h3]
    · simp [wouldChange, h3]
  | criticalIssue =>
    by_cases h1 : 1 ≤ level
    · simp [wouldChange, h1]
    · simp [wouldChange, h1, mt hmedium h1]

/-- **A Dry Run reports what Apply does**, and Apply does nothing to a Mesh that it does not report. -/
theorem dryRun_of_apply {changed : Bool}
    (h : optimizer.optimize tables weaklyCanonical nifly path modRoot .apply mesh = .ok (changed, mesh')) :
    optimizer.optimize tables weaklyCanonical nifly path modRoot .dryRun mesh = .ok (changed, mesh) ∧
      (changed = false → mesh' = mesh) := by
  unfold MeshOptimizer.optimize at h ⊢
  cases hscan : optimizer.scan nifly mesh with
  | error error =>
    rw [hscan] at h
    cases h
  | ok scan =>
    rw [hscan] at h
    simp only [bind, Except.bind] at h ⊢
    by_cases hvalid : scan = .doNotProcess
    · rw [if_pos hvalid] at h ⊢
      cases h
      exact ⟨rfl, fun _ => rfl⟩
    rw [if_neg hvalid] at h ⊢
    generalize hheadpart : optimizer.isHeadpart tables (gamePath weaklyCanonical path modRoot) = isHeadpart at h ⊢
    cases hoptimized : optimizer.optimizeFor nifly isHeadpart scan mesh with
    | error error =>
      rw [hoptimized] at h
      cases h
    | ok result =>
      obtain ⟨processed, after⟩ := result
      have hprocessed := optimizeFor_processed hoptimized
      rw [hoptimized] at h
      cases h
      refine ⟨?_, fun hunreported => ?_⟩
      · rw [← hprocessed, wouldChange_eq hvalid]
        cases processed <;> cases optimizer.settings.resave <;> simp [pure, Except.pure]
      · simp only [Bool.or_eq_false_iff, Bool.and_eq_false_iff, decide_eq_false_iff_not] at hunreported
        obtain ⟨⟨⟨-, hcritical⟩, hlevel⟩, hkept⟩ := hunreported
        exact optimizeFor_left hoptimized hkept (fun hscan => hcritical.resolve_right fun h => h hscan) hlevel

end

/-! ## The executor -/

section

variable {K R α : Type} {V : Volume K} {tables : CaseTables} {weaklyCanonical : Path → Except String Path} {nifly : Nifly R}
  {optimizer : MeshOptimizer} {withholds : Bytes → Bool} {mesh mesh' : LoadedMesh R} {others : AssetBackend}
  {asset : RoutedAsset} {modRoot : Option Path} {load : Except NifError (LoadedMesh R)} {changed : Bool}

/-- A loaded Mesh, after the optimization that an Asset carries. -/
def optimized (tables : CaseTables) (weaklyCanonical : Path → Except String Path) (nifly : Nifly R) (optimizer : MeshOptimizer)
    (asset : RoutedAsset) (modRoot : Option Path) (mesh : LoadedMesh R) : Except NifError (Bool × LoadedMesh R) :=
  if asset.operations.optimization then
    optimizer.optimize tables weaklyCanonical nifly asset.executionPath (modRoot.getD []) asset.executionMode mesh
  else .ok (false, mesh)

/-- A loaded Mesh, after the maintenance that an Asset carries. -/
def maintained (nifly : Nifly R) (withholds : Bytes → Bool) (asset : RoutedAsset) (mesh : LoadedMesh R) :
    Except NifError (Bool × LoadedMesh R) :=
  if asset.operations.meshReferenceMaintenance then
    let maintained := maintainMeshReferences (asset.executionMode = .dryRun) withholds mesh.nif
    let calls := match asset.executionMode with
      | .dryRun => nifly.texturePaths mesh
      | .apply => do nifly.texturePaths mesh; nifly.setTexturePaths mesh
    calls.map fun _ => (maintained.1.wouldChange, { mesh with nif := maintained.2 })
  else .ok (false, mesh)

@[simp] theorem resultOf_succeeded (changed : Bool) : (resultOf changed).succeeded = true := by cases changed <;> rfl

@[simp] theorem resultOf_wouldChange (changed : Bool) : (resultOf changed).wouldChange = changed := by cases changed <;> rfl

theorem ok_of_map_fst {answer : Except String (OperationResult × Option (LoadedMesh R))} {result : OperationResult}
    (h : answer.map Prod.fst = .ok result) : ∃ loaded, answer = .ok (result, loaded) := by
  cases answer with
  | error message => cases h
  | ok given =>
    cases h
    exact ⟨given.2, rfl⟩

/-- An optimization that succeeded. -/
theorem optimizeLoaded_ok {path : Path} {mode : ExecutionMode} {result : OperationResult} {loaded : Option (LoadedMesh R)}
    (h : optimizeLoaded tables weaklyCanonical nifly optimizer path modRoot mode (some mesh) = .ok (result, loaded))
    (hsucceeded : result.succeeded = true) : ∃ changed mesh', result = resultOf changed ∧ loaded = some mesh' ∧
      optimizer.optimize tables weaklyCanonical nifly path (modRoot.getD []) mode mesh = .ok (changed, mesh') := by
  unfold optimizeLoaded at h
  dsimp only at h
  cases hanswer : optimizer.optimize tables weaklyCanonical nifly path (modRoot.getD []) mode mesh with
  | ok answer =>
    rw [hanswer] at h
    cases h
    exact ⟨_, _, rfl, rfl, rfl⟩
  | error error =>
    rw [hanswer] at h
    cases error <;> cases h <;> cases hsucceeded

/-- A maintenance that succeeded. -/
theorem maintainLoaded_ok {result : OperationResult} {loaded : Option (LoadedMesh R)}
    (hcarried : asset.operations.meshReferenceMaintenance = true)
    (h : maintainLoaded nifly withholds asset.executionPath asset.executionMode (some mesh) = .ok (result, loaded))
    (hsucceeded : result.succeeded = true) : ∃ mesh', loaded = some mesh' ∧
      maintained nifly withholds asset mesh = .ok (result.wouldChange, mesh') := by
  unfold maintainLoaded at h
  unfold maintained
  rw [if_pos hcarried]
  dsimp only at h ⊢
  cases hmode : asset.executionMode with
  | dryRun =>
    rw [hmode] at h
    cases hanswer : nifly.texturePaths mesh with
    | ok =>
      rw [hanswer] at h
      cases h
      exact ⟨_, rfl, rfl⟩
    | error error =>
      rw [hanswer] at h
      cases error <;> cases h <;> cases hsucceeded
  | apply =>
    rw [hmode] at h
    cases hanswer : (do nifly.texturePaths mesh; nifly.setTexturePaths mesh : Except NifError Unit) with
    | ok =>
      rw [hanswer] at h
      cases h
      exact ⟨_, rfl, rfl⟩
    | error error =>
      rw [hanswer] at h
      cases error <;> cases h <;> cases hsucceeded

/-- A backend's call that returned. -/
theorem backendCall_done {f : Nat → Except String α} {a : α} {s s' : AssetSite V}
    (h : (backendCall f : Attempting V α) s = (.done a, s')) : ∃ n, f n = .ok a := by
  refine ⟨s.calls, ?_⟩
  obtain ⟨n, s₁, hcall, hanswered⟩ := Prog.andThen_done.mp h
  cases hcall
  cases hanswer : f s.calls with
  | ok answer =>
    rw [hanswer] at hanswered
    cases hanswered
    rfl
  | error message =>
    rw [hanswer] at hanswered
    cases hanswered

/-- What is required, where the attempt goes on. -/
theorem require_done {succeeded : Bool} {failure : Attempting V AssetExecutionResult} {u : Unit} {s s' : AssetSite V}
    (h : Asset.require succeeded failure s = (.done u, s')) : succeeded = true := by
  cases succeeded with
  | true => rfl
  | false =>
    obtain ⟨result, s₁, -, hgiven⟩ := Prog.andThen_done.mp h
    cases hgiven

/-- Ordinary optimization, where it returns. -/
theorem optimizeMesh_done {s s' : AssetSite V}
    (h : Asset.optimizeMesh (meshBackend tables weaklyCanonical nifly optimizer withholds others asset modRoot (.ok mesh)) asset
      modRoot s = (.done changed, s')) :
    ∃ mesh', optimized tables weaklyCanonical nifly optimizer asset modRoot mesh = .ok (changed, mesh') ∧
      optimizedMesh tables weaklyCanonical nifly optimizer asset modRoot (some mesh) = some mesh' := by
  unfold Asset.optimizeMesh at h
  unfold optimized optimizedMesh
  by_cases hcarried : asset.operations.optimization = true
  · rw [if_pos hcarried] at h ⊢
    rw [if_pos hcarried]
    obtain ⟨result, s₁, hcall, hrest⟩ := Prog.andThen_done.mp h
    obtain ⟨_, s₂, hrequired, hreturned⟩ := Prog.andThen_done.mp hrest
    cases hreturned
    obtain ⟨n, hanswer⟩ := backendCall_done hcall
    obtain ⟨loaded, hloaded⟩ := ok_of_map_fst hanswer
    change optimizeLoaded tables weaklyCanonical nifly optimizer asset.executionPath modRoot asset.executionMode (some mesh) = _
      at hloaded
    obtain ⟨changed, mesh', rfl, rfl, hoptimized⟩ := optimizeLoaded_ok hloaded (require_done hrequired)
    rw [hloaded, resultOf_wouldChange]
    exact ⟨mesh', hoptimized, rfl⟩
  · rw [if_neg hcarried] at h ⊢
    rw [if_neg hcarried]
    cases h
    exact ⟨mesh, rfl, rfl⟩

/-- Mesh Reference Maintenance, where it returns. -/
theorem maintainMesh_done {s s' : AssetSite V}
    (hoptimized : optimizedMesh tables weaklyCanonical nifly optimizer asset modRoot load.toOption = some mesh)
    (h : Asset.maintainMeshReferences (meshBackend tables weaklyCanonical nifly optimizer withholds others asset modRoot load) asset s =
      (.done changed, s')) :
    ∃ mesh', maintained nifly withholds asset mesh = .ok (changed, mesh') ∧
      maintainedMesh tables weaklyCanonical nifly optimizer withholds asset modRoot load.toOption = some mesh' := by
  unfold Asset.maintainMeshReferences at h
  unfold maintainedMesh
  rw [hoptimized]
  dsimp only
  by_cases hcarried : asset.operations.meshReferenceMaintenance = true
  · rw [if_pos hcarried] at h ⊢
    obtain ⟨result, s₁, hcall, hrest⟩ := Prog.andThen_done.mp h
    obtain ⟨_, s₂, hrequired, hreturned⟩ := Prog.andThen_done.mp hrest
    cases hreturned
    obtain ⟨n, hanswer⟩ := backendCall_done hcall
    obtain ⟨loaded, hloaded⟩ := ok_of_map_fst hanswer
    rw [hoptimized] at hloaded
    obtain ⟨mesh', rfl, hmaintained⟩ := maintainLoaded_ok hcarried hloaded (require_done hrequired)
    rw [hloaded]
    exact ⟨mesh', hmaintained, rfl⟩
  · rw [if_neg hcarried] at h ⊢
    cases h
    refine ⟨mesh, ?_, rfl⟩
    unfold maintained
    rw [if_neg hcarried]

/-- **An evaluation that returned**: the Mesh was loaded, and each operation that the Asset carries succeeded. -/
theorem evaluateMesh_done {variant : MeshVariant} {s s' : AssetSite V}
    (h : Asset.evaluateMesh (meshBackend tables weaklyCanonical nifly optimizer withholds others asset modRoot load) asset modRoot
      variant s = (.done changed, s')) :
    ∃ mesh mesh' mesh'' modified rewritten, load = .ok mesh ∧
      optimized tables weaklyCanonical nifly optimizer asset modRoot mesh = .ok (modified, mesh') ∧
      maintained nifly withholds asset mesh' = .ok (rewritten, mesh'') ∧ changed = (modified || rewritten) ∧
      maintainedMesh tables weaklyCanonical nifly optimizer withholds asset modRoot load.toOption = some mesh'' := by
  obtain ⟨loaded, s₁, hcall, hrest⟩ := Prog.andThen_done.mp h
  obtain ⟨_, s₂, hrequired, hrest⟩ := Prog.andThen_done.mp hrest
  obtain ⟨modified, s₃, hoptimize, hrest⟩ := Prog.andThen_done.mp hrest
  obtain ⟨rewritten, s₄, hmaintain, hreturned⟩ := Prog.andThen_done.mp hrest
  cases hreturned
  have hloaded := require_done hrequired
  obtain ⟨n, hanswer⟩ := backendCall_done hcall
  cases load with
  | error error => cases error <;> cases hanswer <;> cases hloaded
  | ok mesh =>
    obtain ⟨mesh', hoptimized, hlive⟩ := optimizeMesh_done hoptimize
    obtain ⟨mesh'', hmaintained, hlive'⟩ := maintainMesh_done hlive hmaintain
    exact ⟨mesh, mesh', mesh'', modified, rewritten, rfl, hoptimized, hmaintained, rfl, hlive'⟩

/-! ### The Dry Run -/

/-- The Asset, routed for a Dry Run. -/
def dryRunOf (asset : RoutedAsset) : RoutedAsset := { asset with executionMode := .dryRun }

theorem optimized_dryRun (hmode : asset.executionMode = .apply)
    (h : optimized tables weaklyCanonical nifly optimizer asset modRoot mesh = .ok (changed, mesh')) :
    optimized tables weaklyCanonical nifly optimizer (dryRunOf asset) modRoot mesh = .ok (changed, mesh) ∧
      (changed = false → mesh' = mesh) := by
  unfold optimized at h ⊢
  by_cases hcarried : asset.operations.optimization = true
  · rw [if_pos hcarried, hmode] at h
    rw [if_pos (show (dryRunOf asset).operations.optimization = true from hcarried)]
    exact dryRun_of_apply h
  · rw [if_neg hcarried] at h
    rw [if_neg (show ¬ (dryRunOf asset).operations.optimization = true from hcarried)]
    cases h
    exact ⟨rfl, fun _ => rfl⟩

/-- Maintenance changes a Mesh where the Dry Run says so. -/
theorem maintainMeshReferences_dryRun (withholds : Bytes → Bool) (nif : Nif) :
    (maintainMeshReferences true withholds nif).1 = (maintainMeshReferences false withholds nif).1 ∧
      ((maintainMeshReferences false withholds nif).1.wouldChange = false → (maintainMeshReferences false withholds nif).2 = nif) := by
  have hpassed := @passed_replaceReferenced (fun reference => !withholds reference) nif
  have hsame : hasReferencedTgaTexture (fun reference => !withholds reference) nif =
      (replaceReferencedTgaTextureNames (fun reference => !withholds reference) nif).1 := by
    rw [Bool.eq_iff_iff, hasReferencedTgaTexture_iff, hpassed.changed]
  rw [maintain_dryRun, maintain_apply, hsame]
  refine ⟨rfl, fun hunchanged => ?_⟩
  have hnot : (replaceReferencedTgaTextureNames (fun reference => !withholds reference) nif).1 = false := by
    cases hchanged : (replaceReferencedTgaTextureNames (fun reference => !withholds reference) nif).1 with
    | false => rfl
    | true =>
      rw [hchanged] at hunchanged
      cases hunchanged
  have hnone : ∀ slot ∈ nif.references, ∀ reference, nif.strings[slot]? = some reference →
      isRewritable (fun reference => !withholds reference) reference = false := fun slot hmem reference hreference => by
    rw [Bool.eq_false_iff]
    intro hrewritable
    rw [hpassed.changed.mpr ⟨slot, hmem, reference, hreference, hrewritable⟩] at hnot
    cases hnot
  exact congrArg Prod.snd (replaceReferenced_of_none hnone)

theorem maintained_dryRun (hmode : asset.executionMode = .apply)
    (h : maintained nifly withholds asset mesh = .ok (changed, mesh')) :
    maintained nifly withholds (dryRunOf asset) mesh = .ok (changed, mesh) ∧ (changed = false → mesh' = mesh) := by
  unfold maintained at h ⊢
  by_cases hcarried : asset.operations.meshReferenceMaintenance = true
  · rw [if_pos hcarried, hmode] at h
    rw [if_pos (show (dryRunOf asset).operations.meshReferenceMaintenance = true from hcarried)]
    obtain ⟨hsame, hleft⟩ := maintainMeshReferences_dryRun withholds mesh.nif
    dsimp only [dryRunOf] at h ⊢
    cases hlisted : nifly.texturePaths mesh with
    | error error =>
      rw [hlisted] at h
      cases h
    | ok =>
      rw [hlisted] at h
      cases hset : nifly.setTexturePaths mesh with
      | error error =>
        simp only [hset, bind, Except.bind] at h
        cases h
      | ok =>
        simp only [hset, bind, Except.bind] at h
        cases h
        refine ⟨?_, fun hunchanged => ?_⟩
        · show Except.ok ((maintainMeshReferences true withholds mesh.nif).1.wouldChange, _) = _
          rw [hsame]
          rfl
        · show LoadedMesh.mk (maintainMeshReferences false withholds mesh.nif).2 mesh.rest = mesh
          rw [hleft hunchanged]
  · rw [if_neg hcarried] at h
    rw [if_neg (show ¬ (dryRunOf asset).operations.meshReferenceMaintenance = true from hcarried)]
    cases h
    exact ⟨rfl, fun _ => rfl⟩

variable (withholds) in
/-- The Dry Run of maintenance returns where the references are listed. -/
theorem maintained_dryRun_returns
    (hlisted : asset.operations.meshReferenceMaintenance = true → nifly.texturePaths mesh = .ok ()) :
    ∃ changed, maintained nifly withholds (dryRunOf asset) mesh = .ok (changed, mesh) := by
  unfold maintained
  by_cases hcarried : asset.operations.meshReferenceMaintenance = true
  · rw [if_pos (show (dryRunOf asset).operations.meshReferenceMaintenance = true from hcarried)]
    dsimp only [dryRunOf]
    rw [hlisted hcarried]
    exact ⟨_, rfl⟩
  · rw [if_neg (show ¬ (dryRunOf asset).operations.meshReferenceMaintenance = true from hcarried)]
    exact ⟨false, rfl⟩

/-- A backend's call that answers. -/
theorem backendCall_eq {f : Nat → Except String α} {a : α} (h : ∀ n, f n = .ok a) (s : AssetSite V) :
    (backendCall f : Attempting V α) s = (.done a, { s with calls := s.calls + 1 }) := by
  show Asset.answered (f s.calls) { s with calls := s.calls + 1 } = _
  rw [h]
  rfl

variable (withholds others) in
/-- Ordinary optimization returns what the optimizer comes to. -/
theorem optimizeMesh_eq (h : optimized tables weaklyCanonical nifly optimizer asset modRoot mesh = .ok (changed, mesh'))
    (s : AssetSite V) : ∃ s', Asset.optimizeMesh
      (meshBackend tables weaklyCanonical nifly optimizer withholds others asset modRoot (.ok mesh)) asset modRoot s =
        (.done changed, s') ∧
      optimizedMesh tables weaklyCanonical nifly optimizer asset modRoot (some mesh) = some mesh' := by
  unfold optimized at h
  unfold Asset.optimizeMesh optimizedMesh
  by_cases hcarried : asset.operations.optimization = true
  · rw [if_pos hcarried] at h ⊢
    rw [if_pos hcarried]
    have hloaded : optimizeLoaded tables weaklyCanonical nifly optimizer asset.executionPath modRoot asset.executionMode
        (some mesh) = .ok (resultOf changed, some mesh') := by
      unfold optimizeLoaded
      dsimp only
      rw [h]
      rfl
    rw [hloaded]
    refine ⟨{ s with calls := s.calls + 1 },
      (Prog.bind_of_done (backendCall_eq (fun _ => congrArg (Except.map Prod.fst) hloaded) s)).trans ?_, rfl⟩
    cases changed <;> rfl
  · rw [if_neg hcarried] at h ⊢
    rw [if_neg hcarried]
    cases h
    exact ⟨s, rfl, rfl⟩

/-- Maintenance that comes to a Mesh succeeds. -/
theorem maintainLoaded_of_ok (hcarried : asset.operations.meshReferenceMaintenance = true)
    (h : maintained nifly withholds asset mesh = .ok (changed, mesh')) :
    ∃ result, maintainLoaded nifly withholds asset.executionPath asset.executionMode (some mesh) = .ok (result, some mesh') ∧
      result.succeeded = true ∧ result.wouldChange = changed := by
  have hsucceeded : ∀ dryRun, (maintainMeshReferences dryRun withholds mesh.nif).1.succeeded = true := fun dryRun => by
    cases dryRun
    · rw [maintain_apply]
      cases (replaceReferencedTgaTextureNames (fun reference => !withholds reference) mesh.nif).1 <;> rfl
    · rw [maintain_dryRun]
      cases hasReferencedTgaTexture (fun reference => !withholds reference) mesh.nif <;> rfl
  unfold maintained at h
  unfold maintainLoaded
  rw [if_pos hcarried] at h
  dsimp only at h ⊢
  cases hmode : asset.executionMode with
  | dryRun =>
    rw [hmode] at h
    cases hanswer : nifly.texturePaths mesh with
    | error error =>
      rw [hanswer] at h
      cases h
    | ok =>
      rw [hanswer] at h
      cases h
      exact ⟨_, rfl, hsucceeded true, rfl⟩
  | apply =>
    rw [hmode] at h
    cases hanswer : (do nifly.texturePaths mesh; nifly.setTexturePaths mesh : Except NifError Unit) with
    | error error =>
      rw [hanswer] at h
      cases h
    | ok =>
      rw [hanswer] at h
      cases h
      exact ⟨_, rfl, hsucceeded false, rfl⟩

variable (others) in
/-- Mesh Reference Maintenance returns what it comes to. -/
theorem maintainMesh_eq (hoptimized : optimizedMesh tables weaklyCanonical nifly optimizer asset modRoot load.toOption = some mesh)
    (h : maintained nifly withholds asset mesh = .ok (changed, mesh')) (s : AssetSite V) :
    ∃ s', Asset.maintainMeshReferences (meshBackend tables weaklyCanonical nifly optimizer withholds others asset modRoot load)
      asset s = (.done changed, s') := by
  unfold Asset.maintainMeshReferences
  by_cases hcarried : asset.operations.meshReferenceMaintenance = true
  · rw [if_pos hcarried]
    obtain ⟨result, hloaded, hsucceeded, rfl⟩ := maintainLoaded_of_ok hcarried h
    refine ⟨{ s with calls := s.calls + 1 }, (Prog.bind_of_done (backendCall_eq (a := result) (fun _ => ?_) s)).trans ?_⟩
    · show (maintainLoaded nifly withholds asset.executionPath asset.executionMode _).map Prod.fst = _
      rw [hoptimized, hloaded]
      rfl
    · rw [hsucceeded]
      rfl
  · rw [if_neg hcarried]
    unfold maintained at h
    rw [if_neg hcarried] at h
    cases h
    exact ⟨s, rfl⟩

/-- **An evaluation returns what its two operations come to.** -/
theorem evaluateMesh_eq {mesh'' : LoadedMesh R} {modified rewritten : Bool} (variant : MeshVariant)
    (hoptimized : optimized tables weaklyCanonical nifly optimizer asset modRoot mesh = .ok (modified, mesh'))
    (hmaintained : maintained nifly withholds asset mesh' = .ok (rewritten, mesh'')) (s : AssetSite V) :
    (Asset.evaluateMesh (meshBackend tables weaklyCanonical nifly optimizer withholds others asset modRoot (.ok mesh)) asset modRoot
      variant s).1 = .done (modified || rewritten) := by
  obtain ⟨s₁, hoptimize, hlive⟩ := optimizeMesh_eq withholds others hoptimized
    { s with calls := s.calls + 1 }
  have hloaded : optimizedMesh tables weaklyCanonical nifly optimizer asset modRoot (Except.ok mesh : Except NifError _).toOption =
    some mesh' := hlive
  obtain ⟨s₂, hmaintain⟩ := maintainMesh_eq others hloaded hmaintained s₁
  have hload : (backendCall fun n => (meshBackend tables weaklyCanonical nifly optimizer withholds others asset modRoot
      (.ok mesh)).loadMesh n asset.executionPath variant : Attempting V Bool) s = (.done true, { s with calls := s.calls + 1 }) :=
    backendCall_eq (fun _ => rfl) s
  refine congrArg Prod.fst ((Prog.bind_of_done hload).trans ?_ : _ = (_, s₂))
  have hrequired : (Asset.require true (pure (AssetExecutionResult.failed .loadFailed "Failed to load Mesh."
      |>.withPath asset.executionPath |>.withOperation "load_mesh")) : Attempting V Unit) { s with calls := s.calls + 1 } =
    (.done (), { s with calls := s.calls + 1 }) := rfl
  refine (Prog.bind_of_done hrequired).trans ?_
  exact (Prog.bind_of_done hoptimize).trans ((Prog.bind_of_done hmaintain).trans rfl)

/-! ### Both -/

variable [DecidableEq K]

/-- An Apply attempt that succeeded: its evaluation, and whether it published. -/
theorem executeMesh_done {seams : Asset.AssetSeams} {backend : AssetBackend} {result : AssetExecutionResult} {s s' : AssetSite V}
    (hmode : asset.executionMode = .apply) (h : Asset.executeMesh seams backend asset modRoot s = (.done result, s')) :
    ∃ variant changed, ∃ s₁ s₂ : AssetSite V, asset.identity = .mesh variant ∧
      Asset.evaluateMesh backend asset modRoot variant s₁ = (.done changed, s₂) ∧
      result = .success (if changed then .committed else .none) := by
  unfold Asset.executeMesh at h
  cases hidentity : asset.identity with
  | mesh variant =>
    rw [hidentity] at h
    obtain ⟨_, s₁, -, hrest⟩ := Prog.andThen_done.mp h
    obtain ⟨changed, s₂, hevaluate, hrest⟩ := Prog.andThen_done.mp hrest
    refine ⟨variant, changed, s₁, s₂, rfl, hevaluate, ?_⟩
    cases changed with
    | false =>
      rw [if_neg (by simp)] at hrest
      cases hrest
      rfl
    | true =>
      rw [if_pos (by simp [hmode])] at hrest
      obtain ⟨receipt, s₃, -, hrest⟩ := Prog.andThen_done.mp hrest
      obtain ⟨publication, s₄, -, hreturned⟩ := Prog.andThen_done.mp hrest
      cases hreturned
      rfl
  | texture variant =>
    rw [hidentity] at h
    cases h
  | animation =>
    rw [hidentity] at h
    cases h
  | archive =>
    rw [hidentity] at h
    cases h

/-- **A Dry Run finds what Apply publishes.** Where the attempt on a Mesh succeeds in Apply, and nifly lists the references
of the Mesh as it was loaded, the Dry Run's evaluation of it returns, and finds a change exactly where Apply published one;
and where it finds none, Apply left the loaded Mesh as it was. -/
theorem mesh_evaluations_agree {seams : Asset.AssetSeams} {result : AssetExecutionResult} {s s' : AssetSite V}
    (others' : AssetBackend) (t : AssetSite V)
    (hmode : asset.executionMode = .apply)
    (hlisted : ∀ mesh, load = .ok mesh → asset.operations.meshReferenceMaintenance = true → nifly.texturePaths mesh = .ok ())
    (h : Asset.executeMesh seams (meshBackend tables weaklyCanonical nifly optimizer withholds others asset modRoot load) asset
      modRoot s = (.done result, s')) :
    ∃ variant changed, asset.identity = .mesh variant ∧
      (Asset.evaluateMesh (meshBackend tables weaklyCanonical nifly optimizer withholds others' (dryRunOf asset) modRoot load)
        (dryRunOf asset) modRoot variant t).1 = .done changed ∧
      result = .success (if changed then .committed else .none) ∧
      (changed = false → maintainedMesh tables weaklyCanonical nifly optimizer withholds asset modRoot load.toOption =
        load.toOption) := by
  obtain ⟨variant, changed, s₁, s₂, hidentity, hevaluate, hresult⟩ := executeMesh_done hmode h
  obtain ⟨mesh, mesh', mesh'', modified, rewritten, rfl, hoptimized, hmaintained, rfl, hlive⟩ := evaluateMesh_done hevaluate
  obtain ⟨hoptimizedDry, hleft⟩ := optimized_dryRun hmode hoptimized
  refine ⟨variant, modified || rewritten, hidentity, ?_, hresult, fun hunchanged => ?_⟩
  · cases modified with
    | true =>
      -- the optimizer may have changed the references, but Apply publishes already
      obtain ⟨found, hfound⟩ := maintained_dryRun_returns withholds (hlisted mesh rfl)
      exact evaluateMesh_eq variant hoptimizedDry hfound t
    | false =>
      rw [hleft rfl] at hmaintained
      exact evaluateMesh_eq variant hoptimizedDry (maintained_dryRun hmode hmaintained).1 t
  · rw [Bool.or_eq_false_iff] at hunchanged
    rw [hlive, (maintained_dryRun hmode hmaintained).2 hunchanged.2, hleft hunchanged.1]
    rfl

end

/-! ### One Mesh -/

/-- nifly, where it converts nothing and every call succeeds. -/
def agreeable : Nifly Unit where
  isValid _ := true
  isSseCompatible _ := .ok true
  optimizeFor _ mesh := .ok mesh
  texturePaths _ := .ok ()
  setTexturePaths _ := .ok ()
  save mesh := (some mesh.nif.strings.flatten, .ok ())

/-- A Mesh with a TGA reference. -/
def hair : LoadedMesh Unit := ⟨⟨[bytes "textures/hair.tga".toList], [0], by decide⟩, ()⟩

/-- Its Asset. -/
def hairAsset : RoutedAsset :=
  ⟨["m".toList, "hair.nif".toList].map OsStr.ofText, .mesh .standard, .looseAssetProcessing, .mesh, .apply, ⟨true, false, true, false⟩⟩

/-- Calls of the backend that are none of a Mesh. -/
def noOthers : AssetBackend where
  loadTexture _ _ _ := .ok false
  optimizeTexture _ _ _ := .ok .unchanged
  saveTexture _ := (none, .ok false)
  textureFailureDetail _ := .ok ""
  removeTexture _ _ := .reported (.ok false)
  loadMesh _ _ _ := .ok false
  optimizeMesh _ _ _ _ := .ok .unchanged
  maintainMeshReferences _ _ := .ok .unchanged
  saveMesh _ := (none, .ok false)
  optimizeAnimation _ _ _ := (none, .ok .unchanged)
  attemptFinished _ _ _ := .ok ()

/-- The backend of the attempt, with head parts off and the necessary level. -/
def hairBackend (asset : RoutedAsset) : AssetBackend :=
  meshBackend .ascii (fun _ => .error "") agreeable ⟨⟨1, false, false⟩, ⟨0x14020007, 12, 100⟩, ⟨[]⟩⟩ (fun _ => false) noOthers asset
    none (.ok hair)

/-- The seams of an attempt that no call hinders. -/
def openSeams : Asset.AssetSeams := ⟨fun _ => .ok (), fun _ _ _ => .ok (), fun _ => .ok (), fun _ => .released⟩

/-- The Mesh stands in its Mod Root. -/
def hairSite : AssetSite asciiVolume :=
  ⟨⟨[(["m".toList].map OsStr.ofText, .dir), (["m".toList, "hair.nif".toList].map OsStr.ofText, .leaf (.file 0 [1] 1))], by decide,
    by decide, by decide, by decide⟩, [], 0, []⟩

theorem mesh_evaluations_agree_hair :
    (Asset.evaluateMesh (hairBackend (dryRunOf hairAsset)) (dryRunOf hairAsset) none .standard hairSite).1 = .done true := by
  have hrun : (Asset.executeMesh openSeams (hairBackend hairAsset) hairAsset none hairSite).1 = .done (.success .committed) := rfl
  obtain ⟨variant, changed, hidentity, hevaluated, hresult, -⟩ := mesh_evaluations_agree noOthers hairSite
    (show hairAsset.executionMode = .apply from rfl) (fun _ _ _ => rfl) (Prod.ext hrun rfl)
  cases hidentity
  cases changed with
  | true => exact hevaluated
  | false => exact absurd (congrArg AssetExecutionResult.outcome hresult) (by decide)

end Cao.Mesh
