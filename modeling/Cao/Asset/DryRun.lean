import Cao.Asset.Before

/-!
# A Dry Run attempt changes nothing

An attempt on an Asset routed for a Dry Run loads and evaluates it, and calls nothing that changes the file
system: it stages nothing, publishes nothing, removes nothing and quarantines nothing.

* `Inert`: the tree and the staged files stay, and no mutating call was invoked;
* **`inert_containedAttempt`**: a Dry Run attempt is inert, whatever the backend does.
-/

namespace Cao.Asset

open Prog (Along along_pure along_fail spec_bind)
open Routing

variable {K : Type} {V : Volume K} {ε α : Type}

/-- A mutating call was invoked, or took effect. -/
def AssetEvent.mutates : AssetEvent → Bool
  | .invoked _ | .published .. | .removed .. | .quarantined .. => true
  | _ => false

/-- The tree and the staged files stay, and no mutating call was invoked. -/
structure Inert (s s' : AssetSite V) : Prop where
  tree : s'.tree = s.tree
  staged : s'.staged = s.staged
  log : ∃ events, s'.log = s.log ++ events ∧ ∀ e ∈ events, e.mutates = false

theorem Inert.refl (s : AssetSite V) : Inert s s := ⟨rfl, rfl, [], by simp, by simp⟩

theorem Inert.trans {s s' s'' : AssetSite V} (h : Inert s s') (h' : Inert s' s'') : Inert s s'' := by
  obtain ⟨events, hlog, hevents⟩ := h.log
  obtain ⟨events', hlog', hevents'⟩ := h'.log
  refine ⟨h'.tree.trans h.tree, h'.staged.trans h.staged, events ++ events', ?_, fun e he => ?_⟩
  · rw [hlog', hlog, List.append_assoc]
  · exact (List.mem_append.mp he).elim (hevents e) (hevents' e)

instance : IsPreorder (AssetSite V) Inert where
  refl := Inert.refl
  trans _ _ _ := Inert.trans

variable {seams : AssetSeams} {backend : AssetBackend} {asset : RoutedAsset} {modRoot : Option Path}

theorem inert_nextCall : Along Inert (nextCall : Prog (AssetSite V) ε Nat) fun _ => True := fun _ =>
  ⟨⟨rfl, rfl, [], by simp, by simp⟩, trivial⟩

theorem inert_record {event : AssetEvent} (h : event.mutates = false) :
    Along Inert (record event : Prog (AssetSite V) ε Unit) fun _ => True := fun _ =>
  ⟨⟨rfl, rfl, [event], rfl, by simpa using h⟩, trivial⟩

theorem inert_answered (answer : Except String α) : Along Inert (answered answer : Attempting V α) fun _ => True := by
  cases answer with
  | ok a => exact along_pure trivial
  | error message => exact along_fail

theorem inert_backendCall (f : Nat → Except String α) :
    Along Inert (backendCall f : Attempting V α) fun _ => True :=
  inert_nextCall.bind fun n _ => inert_answered (f n)

theorem inert_require {succeeded : Bool} {failure : Attempting V AssetExecutionResult}
    (h : Along Inert failure fun _ => True) : Along Inert (require succeeded failure) fun _ => True := by
  unfold require
  split_ifs
  · exact along_pure trivial
  · exact h.bind fun _ _ => along_fail

theorem inert_evaluateTexture (variant : TextureVariant) :
    Along Inert (evaluateTexture backend asset variant : Attempting V Bool) fun _ => True := by
  refine (inert_backendCall _).bind fun loaded _ => (inert_require ?_).bind fun _ _ => ?_
  · exact (inert_backendCall _).bind fun detail _ => along_pure trivial
  · refine (inert_backendCall _).bind fun operation _ => ?_
    exact (inert_require (along_pure trivial)).bind fun _ _ => along_pure trivial

theorem inert_evaluateMesh (variant : MeshVariant) :
    Along Inert (evaluateMesh backend asset modRoot variant : Attempting V Bool) fun _ => True := by
  have hoptimized : Along Inert (optimizeMesh backend asset modRoot : Attempting V Bool) fun _ => True := by
    unfold optimizeMesh
    split_ifs
    · refine (inert_backendCall _).bind fun optimization _ => ?_
      exact (inert_require (along_pure trivial)).bind fun _ _ => along_pure trivial
    · exact along_pure trivial
  have hmaintained : Along Inert (maintainMeshReferences backend asset : Attempting V Bool) fun _ => True := by
    unfold maintainMeshReferences
    split_ifs
    · refine (inert_backendCall _).bind fun maintenance _ => ?_
      exact (inert_require (along_pure trivial)).bind fun _ _ => along_pure trivial
    · exact along_pure trivial
  refine (inert_backendCall _).bind fun loaded _ => (inert_require (along_pure trivial)).bind fun _ _ => ?_
  exact hoptimized.bind fun _ _ => hmaintained.bind fun _ _ => along_pure trivial

variable [DecidableEq K]

theorem inert_executeTexture (hmode : asset.executionMode = .dryRun) :
    Along Inert (executeTexture seams backend asset modRoot : Attempting V _) fun _ => True := by
  unfold executeTexture
  cases asset.identity with
  | texture variant =>
    have hprepare : Along Inert (prepareTexture seams asset modRoot variant : Attempting V _) fun _ => True := by
      unfold prepareTexture
      rw [hmode, if_neg (by decide)]
      exact along_pure trivial
    refine hprepare.bind fun pin _ => (inert_evaluateTexture variant).bind fun wouldChange _ => ?_
    rw [hmode, if_neg (by simp)]
    exact along_pure trivial
  | mesh variant => exact along_fail
  | animation => exact along_fail
  | archive => exact along_fail

theorem inert_executeMesh (hmode : asset.executionMode = .dryRun) :
    Along Inert (executeMesh seams backend asset modRoot : Attempting V _) fun _ => True := by
  unfold executeMesh
  cases asset.identity with
  | mesh variant =>
    have hcapture : Along Inert (captureMesh seams asset modRoot : Attempting V _) fun _ => True := by
      unfold captureMesh
      rw [hmode, if_neg (by decide)]
      exact along_pure trivial
    refine hcapture.bind fun _ _ => (inert_evaluateMesh variant).bind fun wouldChange _ => ?_
    rw [hmode, if_neg (by simp)]
    exact along_pure trivial
  | texture variant => exact along_fail
  | animation => exact along_fail
  | archive => exact along_fail

theorem inert_executeAnimation (hmode : asset.executionMode = .dryRun) :
    Along Inert (executeAnimation seams backend asset modRoot : Attempting V _) fun _ => True := by
  have hstage : Along Inert (stageAnimation seams asset modRoot : Attempting V _) fun receipt => receipt = none := by
    unfold stageAnimation
    rw [hmode, if_neg (by decide)]
    exact along_pure rfl
  refine (inert_require (along_pure trivial)).bind fun _ _ => (inert_require (along_pure trivial)).bind fun _ _ => ?_
  refine hstage.bind fun receipt hreceipt => ?_
  subst hreceipt
  refine (inert_backendCall _).bind fun operation _ => ?_
  exact (inert_require (along_pure trivial)).bind fun _ _ => along_pure trivial

theorem inert_execute (hmode : asset.executionMode = .dryRun) :
    Along Inert (execute seams backend asset modRoot : Prog (AssetSite V) String _) fun _ => True := by
  have htarget : Along Inert (executeTarget seams backend asset modRoot : Attempting V _) fun _ => True := by
    unfold executeTarget
    cases asset.target with
    | texture => exact inert_executeTexture hmode
    | mesh => exact inert_executeMesh hmode
    | animation => exact inert_executeAnimation hmode
    | archive => exact along_fail
  refine htarget.attempt.bind fun ended _ => ?_
  rcases ended with (result | message) | result
  · exact along_pure trivial
  · exact along_fail
  · exact along_pure trivial

theorem inert_attemptWith (hmode : asset.executionMode = .dryRun) :
    Along Inert (attemptWith seams backend asset modRoot : Prog (AssetSite V) String _) fun _ => True := by
  refine (inert_execute hmode).bind fun result _ => inert_nextCall.bind fun n _ => ?_
  refine Along.bind (R := fun _ => True) ?_ fun _ _ => ?_
  · cases backend.attemptFinished n asset result with
    | ok _ => exact along_pure trivial
    | error message => exact along_fail
  · unfold quarantineFailedLoad
    rw [if_pos (.inl (by rw [hmode]; decide))]
    exact along_pure trivial

/-- **A Dry Run attempt invokes nothing that changes the file system.** -/
theorem inert_containedAttempt {creation : Option (Except String BackendCreation)}
    (hmode : asset.executionMode = .dryRun) :
    Along Inert (containedAttempt seams backend creation asset modRoot : Prog (AssetSite V) ε _) fun _ => True := by
  have hretain : ∀ diagnostics, Along Inert (Prog.forEach diagnostics fun diagnostic => record (.retained diagnostic) :
      Prog (AssetSite V) String Unit) fun _ => ∀ d ∈ diagnostics, True :=
    Along.forEach fun _ => inert_record rfl
  have hattempt : Along Inert (attempt seams backend creation asset modRoot : Prog (AssetSite V) String _)
      fun _ => True := by
    unfold attempt
    rcases creation with _ | message | (diagnostics | _ | ⟨error, diagnostics⟩)
    · exact (inert_attemptWith hmode).bind fun _ _ => along_pure trivial
    · exact along_fail
    · exact (hretain diagnostics).bind fun _ _ => (inert_attemptWith hmode).bind fun _ _ => along_pure trivial
    · exact along_pure trivial
    · exact (hretain diagnostics).bind fun _ _ => along_pure trivial
  refine hattempt.attempt.bind fun ended _ => ?_
  cases ended with
  | ok result => exact along_pure trivial
  | error message => exact along_pure trivial

end Cao.Asset
