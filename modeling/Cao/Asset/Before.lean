import Cao.Asset.Execute

/-!
# Before publication

Until its output is published an Asset attempt changes nothing outside staging: each call of the backend, each
pin and each staging step leaves the tree, and an attempt that ends there reports no mutation.

* `Plainly`: the tree stays, and nothing that went wrong with the source was noted;
* `Refused`: an attempt that ended there;
* `Prepares`: a program of this part of an attempt, and its rules;
* **`prepares_prepareTexture`**, **`prepares_evaluateTexture`** and the others: the parts of `execute_*`.
-/

namespace Cao.Asset

open Prog (Along Always Spec along_pure along_fail always_pure spec_bind)
open Routing

variable {K : Type} {V : Volume K} {ε α β : Type}

/-! ## Relations -/

/-- An event that changes nothing and tells nothing of the source. -/
def AssetEvent.plain : AssetEvent → Bool
  | .invoked _ | .retained _ | .pinned true => true
  | _ => false

/-- The tree stays and the events are plain. -/
structure Plainly (s s' : AssetSite V) : Prop where
  tree : s'.tree = s.tree
  log : ∃ events, s'.log = s.log ++ events ∧ ∀ e ∈ events, e.plain = true

theorem Plainly.refl (s : AssetSite V) : Plainly s s := ⟨rfl, [], by simp, by simp⟩

theorem Plainly.trans {s s' s'' : AssetSite V} (h : Plainly s s') (h' : Plainly s' s'') : Plainly s s'' := by
  obtain ⟨htree, events, hlog, hplain⟩ := h
  obtain ⟨htree', events', hlog', hplain'⟩ := h'
  refine ⟨htree'.trans htree, events ++ events', by rw [hlog', hlog, List.append_assoc], fun e he => ?_⟩
  exact (List.mem_append.mp he).elim (hplain e) (hplain' e)

instance : IsPreorder (AssetSite V) Plainly where
  refl := Plainly.refl
  trans _ _ _ := Plainly.trans

/-- An attempt ended, by a result or a panic, and nothing outside staging changed. A source that could not
be pinned makes the result unsafe. -/
structure Refused (s : AssetSite V) (e : Thrown AssetExecutionResult) (s' : AssetSite V) : Prop where
  tree : s'.tree = s.tree
  log : ∃ events, s'.log = s.log ++ events ∧ ∀ event ∈ events, event.plain = true ∨
    event = .pinned false ∧ ∀ r, e = .error r → r.outcome.safeToContinue = false
  mutation : ∀ r, e = .error r → r.outcome.mutation = .none

theorem Plainly.refused {s s' s'' : AssetSite V} {e : Thrown AssetExecutionResult} (h : Plainly s s')
    (h' : Refused s' e s'') : Refused s e s'' := by
  obtain ⟨htree, events, hlog, hplain⟩ := h
  obtain ⟨htree', ⟨events', hlog', hplain'⟩, hmutation⟩ := h'
  refine ⟨htree'.trans htree, ⟨events ++ events', by rw [hlog', hlog, List.append_assoc], fun e he => ?_⟩, hmutation⟩
  exact (List.mem_append.mp he).elim (fun he => .inl (hplain e he)) (hplain' e)

theorem Plainly.panic {s s' : AssetSite V} (h : Plainly s s') (message : String) : Refused s (.panic message) s' := by
  obtain ⟨htree, events, hlog, hplain⟩ := h
  exact ⟨htree, ⟨events, hlog, fun e he => .inl (hplain e he)⟩, fun _ h => nomatch h⟩

theorem Plainly.gaveUp {s s' : AssetSite V} (h : Plainly s s') {r : AssetExecutionResult}
    (hr : r.outcome.mutation = .none) : Refused s (.error r) s' := by
  obtain ⟨htree, events, hlog, hplain⟩ := h
  exact ⟨htree, ⟨events, hlog, fun e he => .inl (hplain e he)⟩, by rintro _ ⟨rfl⟩; exact hr⟩

/-! ## Programs -/

/-- A part of an attempt before publication: it changes nothing outside staging, and what it returns is `R`
of the tree. -/
def Prepares (x : Attempting V α) (R : AssetTree V → α → Prop) : Prop :=
  ∀ s, Spec x s (fun a s' => Plainly s s' ∧ R s.tree a) (Refused s) fun _ => False

variable {x : Attempting V α} {R R' : AssetTree V → α → Prop}

theorem Prepares.mono (hx : Prepares x R) (h : ∀ t a, R t a → R' t a) : Prepares x R' := fun s =>
  (hx s).mono (fun a _ h' => ⟨h'.1, h _ a h'.2⟩) (fun _ _ h => h) fun _ h => h

theorem prepares_pure {a : α} (h : ∀ t, R t a) : Prepares (pure a : Attempting V α) R := fun s =>
  ⟨.refl s, h s.tree⟩

theorem prepares_giveUp {r : AssetExecutionResult} (h : r.outcome.mutation = .none) :
    Prepares (giveUp r : Attempting V α) R := fun s => (Plainly.refl s).gaveUp h

/-- **The rule of sequence.** -/
theorem Prepares.bind {f : α → Attempting V β} {R' : AssetTree V → β → Prop} (hx : Prepares x R)
    (hf : ∀ a, Prepares (f a) fun t b => R t a → R' t b) : Prepares (x >>= f) R' := by
  intro s
  refine spec_bind.mpr ((hx s).mono (fun a s₁ h => ?_) (fun _ _ h => h) fun _ h => h)
  obtain ⟨h, ha⟩ := h
  have hrule := hf a s₁
  rw [h.tree] at hrule
  exact hrule.mono (fun b s₂ h' => ⟨h.trans h'.1, h'.2 ha⟩) (fun _ _ h' => h.refused h') fun _ h => h

/-- A step that cannot end the attempt. -/
theorem Prepares.of_always {R : α → Prop} (hx : Always Plainly x R) : Prepares x fun _ => R := fun s =>
  (hx s).mono (fun _ _ h => h) (fun _ _ h => h.elim) fun _ h => h

/-! ## The calls -/

theorem plainly_calls {s : AssetSite V} {n : Nat} : Plainly s { s with calls := n } := ⟨rfl, [], by simp, by simp⟩

theorem plainly_staged {s : AssetSite V} {staged : List (Option Bytes)} : Plainly s { s with staged } :=
  ⟨rfl, [], by simp, by simp⟩

theorem plainly_event {s : AssetSite V} {event : AssetEvent} (h : event.plain = true) :
    Plainly s { s with log := s.log ++ [event] } := ⟨rfl, [event], rfl, by simpa using h⟩

theorem always_nextCall : Always Plainly (nextCall : Prog (AssetSite V) ε Nat) fun _ => True := fun _ =>
  ⟨plainly_calls, trivial⟩

theorem always_record {event : AssetEvent} (h : event.plain = true) :
    Always Plainly (record event : Prog (AssetSite V) ε Unit) fun _ => True := fun _ => ⟨plainly_event h, trivial⟩

theorem always_nativeCall (seams : AssetSeams) :
    Always Plainly (nativeCall seams : Prog (AssetSite V) ε _) fun _ => True :=
  always_nextCall.bind fun _ _ => always_pure trivial

theorem always_hash (seams : AssetSeams) (data : Bytes) :
    Always Plainly (PinnedSource.hash seams data : Prog (AssetSite V) ε _) fun _ => True := by
  refine (always_nativeCall seams).bind fun answer _ => ?_
  rcases answer with _ | _
  · exact always_pure trivial
  · exact always_pure trivial

/-- A refused native call is no lookup. -/
theorem spec_nativeIo (seams : AssetSeams) (context : String) (path : Path) (s : AssetSite V) :
    Spec (nativeIo seams context path) s (fun _ s' => Plainly s s')
      (fun error s' => Plainly s s' ∧ error.isLookup = false) fun _ => False := by
  refine spec_bind.mpr ((always_nativeCall seams s).mono (fun answer s' h => ?_) (fun _ _ h => h.elim) fun _ h => h)
  rcases answer with source | _
  · exact ⟨h.1, rfl⟩
  · exact h.1

theorem along_ofExcept {r : Except ε α} : Along Plainly (Prog.ofExcept r : Prog (AssetSite V) ε α) fun _ => True := by
  cases r with
  | ok a => exact along_pure trivial
  | error e => exact along_fail

theorem prepares_answered (answer : Except String α) :
    Prepares (answered answer : Attempting V α) fun _ _ => True := by
  intro s
  cases answer with
  | ok a => exact ⟨.refl s, trivial⟩
  | error message => exact (Plainly.refl s).panic message

theorem prepares_backendCall (f : Nat → Except String α) :
    Prepares (backendCall f : Attempting V α) fun _ _ => True :=
  (Prepares.of_always always_nextCall).bind fun n => (prepares_answered (f n)).mono fun _ _ _ _ => trivial

theorem prepares_savingCall (receipt : Nat) (f : Nat → Option Bytes × Except String α) :
    Prepares (savingCall receipt f : Attempting V α) fun _ _ => True := by
  refine (Prepares.of_always always_nextCall).bind fun n => ?_
  have hsave : Prepares (Prog.modify fun s => { s with staged := s.staged.set receipt (f n).1 } : Attempting V Unit)
      fun _ _ => True := fun _ => ⟨plainly_staged, trivial⟩
  exact (hsave.bind fun _ => (prepares_answered (f n).2).mono fun _ _ _ _ => trivial).mono fun _ _ _ _ => trivial

theorem prepares_orStagingFailed {kind boundary : String} {path : Path} {x : Prog (AssetSite V) StagingFailure α}
    (hx : Along Plainly x fun _ => True) :
    Prepares (orStagingFailed kind boundary path x) fun _ _ => True := by
  intro s
  exact Prog.spec_mapError.mpr ((hx s).mono (fun _ _ h => h) (fun _ _ h => h.gaveUp rfl) fun _ h => h)

theorem along_capturePublicationTarget (seams : AssetSeams) (root destination : Path) :
    Along Plainly (capturePublicationTarget seams root destination : Prog (AssetSite V) _ Unit) fun _ => True :=
  always_nextCall.along.bind fun _ _ => along_ofExcept

theorem along_stageFileForPublication (seams : AssetSeams) :
    Along Plainly (stageFileForPublication seams : Prog (AssetSite V) _ Nat) fun _ => True := by
  refine (always_record rfl).along.bind fun _ _ => always_nextCall.along.bind fun n _ =>
    along_ofExcept.bind fun _ _ s => ?_
  exact ⟨plainly_staged, trivial⟩

theorem along_captureAndStageFile (seams : AssetSeams) (root destination : Path) :
    Along Plainly (captureAndStageFile seams root destination : Prog (AssetSite V) _ Nat) fun _ => True :=
  (along_capturePublicationTarget seams root destination).bind fun _ _ => along_stageFileForPublication seams

theorem always_stagedFingerprint (seams : AssetSeams) (receipt : Nat) :
    Always Plainly (stagedFingerprint seams receipt : Prog (AssetSite V) ε _) fun _ => True := by
  refine (always_nativeCall seams).bind fun answer _ s => ?_
  rw [spec_bind, Prog.spec_get]
  split
  · exact ⟨.refl s, trivial⟩
  · exact ⟨.refl s, trivial⟩

/-! ## The parts of `execute_texture`, `execute_mesh` and `execute_animation` -/

/-- Sequence, where nothing is to be known of the first value. -/
theorem Prepares.then {f : α → Attempting V β} {R : AssetTree V → β → Prop} (hx : Prepares x fun _ _ => True)
    (hf : ∀ a, Prepares (f a) R) : Prepares (x >>= f) R :=
  hx.bind fun a => (hf a).mono fun _ _ h _ => h

/-- A demand that fails with no mutation. -/
theorem prepares_require {succeeded : Bool} {failure : Attempting V AssetExecutionResult}
    (h : Prepares failure fun _ r => r.outcome.mutation = .none) :
    Prepares (require succeeded failure) fun _ _ => True := by
  unfold require
  split_ifs
  · exact prepares_pure fun _ => trivial
  · intro s
    refine spec_bind.mpr ((h s).mono (fun r s' h => ?_) (fun _ _ h => h) fun _ h => h)
    exact h.1.gaveUp h.2

theorem prepares_evaluateTexture (backend : AssetBackend) (asset : RoutedAsset) (variant : TextureVariant) :
    Prepares (evaluateTexture backend asset variant : Attempting V Bool) fun _ _ => True := by
  refine (prepares_backendCall _).then fun loaded => (prepares_require ?_).then fun _ => ?_
  · exact (prepares_backendCall _).then fun detail => prepares_pure fun _ => rfl
  · refine (prepares_backendCall _).then fun operation => ?_
    exact (prepares_require (prepares_pure fun _ => rfl)).then fun _ => prepares_pure fun _ => trivial

theorem prepares_saveTexture (seams : AssetSeams) (backend : AssetBackend) (output : Path) :
    Prepares (saveTexture seams backend output : Attempting V _) fun _ _ => True := by
  refine (prepares_orStagingFailed (along_stageFileForPublication seams)).then fun receipt => ?_
  refine (prepares_savingCall _ _).then fun saved => (prepares_require ?_).then fun _ => ?_
  · exact (prepares_backendCall _).then fun detail => prepares_pure fun _ => rfl
  · refine (Prepares.of_always (always_stagedFingerprint seams receipt)).then fun bytes => ?_
    cases bytes with
    | some outputBefore => exact prepares_pure fun _ => trivial
    | none => exact prepares_giveUp rfl

theorem prepares_captureMesh (seams : AssetSeams) (asset : RoutedAsset) (modRoot : Option Path) :
    Prepares (captureMesh seams asset modRoot : Attempting V Unit) fun _ _ => True := by
  unfold captureMesh
  split_ifs
  · exact prepares_orStagingFailed (along_capturePublicationTarget seams _ _)
  · exact prepares_pure fun _ => trivial

theorem prepares_optimizeMesh (backend : AssetBackend) (asset : RoutedAsset) (modRoot : Option Path) :
    Prepares (optimizeMesh backend asset modRoot : Attempting V Bool) fun _ _ => True := by
  unfold optimizeMesh
  split_ifs
  · refine (prepares_backendCall _).then fun optimization => ?_
    exact (prepares_require (prepares_pure fun _ => rfl)).then fun _ => prepares_pure fun _ => trivial
  · exact prepares_pure fun _ => trivial

theorem prepares_maintainMeshReferences (backend : AssetBackend) (asset : RoutedAsset) :
    Prepares (maintainMeshReferences backend asset : Attempting V Bool) fun _ _ => True := by
  unfold maintainMeshReferences
  split_ifs
  · refine (prepares_backendCall _).then fun maintenance => ?_
    exact (prepares_require (prepares_pure fun _ => rfl)).then fun _ => prepares_pure fun _ => trivial
  · exact prepares_pure fun _ => trivial

theorem prepares_evaluateMesh (backend : AssetBackend) (asset : RoutedAsset) (modRoot : Option Path)
    (variant : MeshVariant) : Prepares (evaluateMesh backend asset modRoot variant : Attempting V Bool) fun _ _ => True := by
  refine (prepares_backendCall _).then fun loaded => (prepares_require (prepares_pure fun _ => rfl)).then fun _ => ?_
  refine (prepares_optimizeMesh backend asset modRoot).then fun optimized => ?_
  exact (prepares_maintainMeshReferences backend asset).then fun maintained => prepares_pure fun _ => trivial

theorem prepares_saveMesh (seams : AssetSeams) (backend : AssetBackend) (path : Path) :
    Prepares (saveMesh seams backend path : Attempting V Nat) fun _ _ => True := by
  refine (prepares_orStagingFailed (along_stageFileForPublication seams)).then fun receipt => ?_
  refine (prepares_savingCall _ _).then fun saved => ?_
  refine (prepares_require (prepares_pure fun _ => rfl)).then fun _ => ?_
  refine (Prepares.of_always (always_stagedFingerprint seams receipt)).then fun bytes => ?_
  exact (prepares_require (prepares_pure fun _ => rfl)).then fun _ => prepares_pure fun _ => trivial

theorem prepares_stageAnimation (seams : AssetSeams) (asset : RoutedAsset) (modRoot : Option Path) :
    Prepares (stageAnimation seams asset modRoot : Attempting V (Option Nat)) fun _ _ => True := by
  unfold stageAnimation
  split_ifs
  · exact (prepares_orStagingFailed (along_captureAndStageFile seams _ _)).then fun _ => prepares_pure fun _ => trivial
  · exact prepares_pure fun _ => trivial

theorem prepares_optimizeAnimation (backend : AssetBackend) (asset : RoutedAsset) (receipt : Option Nat) :
    Prepares (optimizeAnimation backend asset receipt : Attempting V _) fun _ _ => True := by
  cases receipt with
  | some receipt => exact prepares_savingCall _ _
  | none => exact prepares_backendCall _

/-! ## The pin -/

variable [DecidableEq K]

/-- A pin holds the ordinary file its path names in a tree. -/
structure PinnedSource.Holds (tree : AssetTree V) (path : Path) (pin : PinnedSource) : Prop where
  samePath : pin.path = path
  names : ∃ q data, leafAt tree path = some (q, .file pin.identity data 1) ∧ pin.file = some data

theorem spec_openSource (seams : AssetSeams) (path : Path) (s : AssetSite V) :
    Spec (PinnedSource.openSource seams path) s (fun pin s' => Plainly s s' ∧ pin.Holds s.tree path)
      (fun error s' => Plainly s s' ∧ error.isLookup = false) fun _ => False := by
  refine spec_bind.mpr ((spec_nativeIo seams _ _ s).mono (fun _ s₁ h₁ => ?_) (fun _ _ h => h) fun _ h => h)
  rw [spec_bind, Prog.spec_get]
  cases hleaf : leafAt s₁.tree path with
  | none => exact ⟨h₁, rfl⟩
  | some found =>
    obtain ⟨q, entry⟩ := found
    refine spec_bind.mpr ((spec_nativeIo seams _ _ s₁).mono (fun _ s₂ h₂ => ?_)
      (fun _ _ h => ⟨h₁.trans h.1, h.2⟩) fun _ h => h)
    refine spec_bind.mpr ((spec_nativeIo seams _ _ s₂).mono (fun _ s₃ h₃ => ?_)
      (fun _ _ h => ⟨(h₁.trans h₂).trans h.1, h.2⟩) fun _ h => h)
    have h : Plainly s s₃ := (h₁.trans h₂).trans h₃
    cases entry with
    | file identity data links =>
      refine spec_bind.mpr ((always_hash seams data s₃).mono (fun bytes s₄ h₄ => ?_) (fun _ _ h => h.elim) fun _ h => h)
      cases bytes with
      | none => exact ⟨h.trans h₄.1, rfl⟩
      | some bytes =>
        dsimp only
        split_ifs with hlinks
        · subst hlinks
          exact ⟨h.trans h₄.1, rfl, q, data, by rw [← h₁.tree, hleaf], rfl⟩
        · exact ⟨h.trans h₄.1, rfl⟩
    | link => exact ⟨h, rfl⟩
    | other => exact ⟨h, rfl⟩

theorem prepares_pinSource (seams : AssetSeams) (path : Path) :
    Prepares (pinSource seams path : Attempting V PinnedSource) fun t pin => pin.Holds t path := by
  intro s
  refine spec_bind.mpr (Prog.spec_attempt.mpr ((spec_openSource seams path s).mono (fun pin s₁ h => ?_)
    (fun error s₁ h => ?_) fun _ h => h))
  · exact ⟨h.1.trans (plainly_event rfl), h.2⟩
  · obtain ⟨⟨htree, events, hlog, hplain⟩, hlookup⟩ := h
    have hlog' : s₁.log ++ [.pinned false] = s.log ++ (events ++ [.pinned false]) := by rw [hlog, List.append_assoc]
    refine ⟨htree, ⟨events ++ [.pinned false], hlog', fun e he => ?_⟩, ?_⟩
    · rcases List.mem_append.mp he with he | he
      · exact .inl (hplain e he)
      · refine .inr ⟨List.mem_singleton.mp he, ?_⟩
        rintro _ ⟨rfl⟩
        show (error.isLookup && _) = false
        rw [hlookup, Bool.false_and]
    · rintro _ ⟨rfl⟩
      rfl

theorem prepares_prepareTexture (seams : AssetSeams) (asset : RoutedAsset) (modRoot : Option Path)
    (variant : TextureVariant) : Prepares (prepareTexture seams asset modRoot variant : Attempting V _) fun t pin =>
      asset.executionMode = .apply → converts asset variant = true →
        ∃ p, pin = some p ∧ p.Holds t asset.executionPath := by
  unfold prepareTexture
  split_ifs with hmode hconverts
  · refine Prepares.bind (R := fun t pin => ∃ p, pin = some p ∧ p.Holds t asset.executionPath) ?_ fun pin => ?_
    · exact (prepares_pinSource seams asset.executionPath).bind fun p => prepares_pure fun _ h => ⟨p, rfl, h⟩
    · refine (prepares_orStagingFailed (along_capturePublicationTarget seams _ _)).then fun _ => ?_
      exact prepares_pure fun _ h _ _ => h
  · refine (prepares_pure (R := fun _ _ => True) fun _ => trivial).then fun pin => ?_
    refine (prepares_orStagingFailed (along_capturePublicationTarget seams _ _)).then fun _ => ?_
    exact prepares_pure fun _ _ h => absurd h hconverts
  · exact prepares_pure fun _ h => absurd h hmode

end Cao.Asset
