import Cao.Finalize.Attempt
import Cao.Finalize.Loading

/-!
# An output attempt is ordered and truthful

What one planned output's attempt does, for any behaviour of the operations it is made of, and what it reports.

* `Publication`, `Ordered`: the log of an attempt; its packed sources go last;
* `Reached`, **`spec_tryAttempt`**: how far the attempt gets, step by step;
* `Verified`, **`spec_verifyCommitted`**: what a committed Archive and the sources left must show;
* **`attemptOutput_ordered`**: the attempt ends, in order, and reports what its log shows.
-/

namespace Cao.Finalize

open Pack
open Prog (Spec spec_bind)

variable {K : Type} [DecidableEq K] {V : Volume K} {ε : Type}

/-! ## The log of an attempt -/

/-- The publication of an output's Archive: its receipt, and whether it was released. -/
abbrev Publication := Option (Nat × Bool)

/-- The event of a publication. -/
def archiveEvents (output : FinalizationOutput) : Publication → List Event
  | none => []
  | some (receipt, released) => [.published receipt output.archivePath released]

/-- The Archive is published, and its registration released. -/
def IsReleased (publication : Publication) : Prop := ∃ receipt, publication = some (receipt, true)

/-- An event of the check of a committed Archive. -/
def IsCheck : Event → Prop
  | .listed _ => True
  | .unloaded => True
  | .readWhole _ => True
  | _ => False

/-- An attempt's log: packing, the publication of the Archive, what is done for it to load, the packed sources removed,
and a check of what is left. -/
structure Ordered (plan : FinalizationPlan) (output : FinalizationOutput) (staging : List Event)
    (publication : Publication) (loading : List Event) (removed : List Path) (ending : List Event)
    (s s' : Site V Finalization) : Prop where
  did : Did (AttemptStep plan output)
    (staging ++ archiveEvents output publication ++ loading ++ removed.map .removed ++ ending) s s'
  packs : ∀ event ∈ staging, ∃ receipt, event = .packed receipt
  loads : ∀ event ∈ loading, IsLoad output.loadingPluginPaths event
  loadsLater : loading ≠ [] → IsReleased publication
  sources : removed <+: output.archive.files.map PackSource.path
  removesLast : removed ≠ [] → plan.deleteSources = true ∧ IsReleased publication ∧
    (output.loadingPluginPaths ≠ [] → ∃ plugin ∈ output.loadingPluginPaths, Event.pluginPinned plugin ∈ loading)
  checks : ∀ event ∈ ending, IsCheck event
  account : s'.progress.account.mutations = s.progress.account.mutations ++ creations output.modRoot loading

/-- The mutation a publication makes. -/
def mutationOf : Publication → MutationState
  | none => .none
  | some _ => .committed

/-- The continuation a publication allows. -/
def claimOf : Publication → Bool
  | some (_, false) => false
  | _ => true

/-- The committed Archive was listed and let go of, and every source left was read whole. -/
def Verified (output : FinalizationOutput) (removed : List Path) (ending : List Event) : Prop :=
  ending = [.listed output.archivePath, .unloaded] ++
    (output.archive.files.drop removed.length).map fun source => .readWhole source.path

/-- What an attempt reports agrees with what it did. -/
structure Reports (plan : FinalizationPlan) (output : FinalizationOutput) (publication : Publication)
    (removed : List Path) (ending : List Event) (s s' : Site V Finalization)
    (outcome : AttemptOutcome ArchiveFinalizationFailure) : Prop where
  mutation : outcome.mutation = mutationOf publication
  quiet : publication = none → s'.disk = s.disk
  success : outcome.isSuccess = true → IsReleased publication ∧
    (plan.deleteSources = true → removed = output.archive.files.map PackSource.path)
  safe : outcome.safeToContinue = true ↔
    (publication = none ∧ outcome.failureCategory ≠ some .unexpectedException) ∨
    (IsReleased publication ∧ (outcome.isSuccess = true ∨
      outcome.failureCategory = some .sourceCleanupFailed ∧ Verified output removed ending))

/-! ## How far an attempt gets -/

/-- An attempt that has not ended, and its progress. -/
structure Reached (plan : FinalizationPlan) (output : FinalizationOutput) (boundary : ArchiveFinalizationFailure)
    (staging : List Event) (publication : Publication) (loading : List Event) (removed : List Path)
    (s s' : Site V Finalization) : Prop where
  ordered : Ordered plan output staging publication loading removed [] s s'
  progress : s'.progress.progress = ⟨boundary, removed.length, mutationOf publication, claimOf publication⟩

variable {plan : FinalizationPlan} {output : FinalizationOutput} {boundary : ArchiveFinalizationFailure}
  {staging loading events : List Event} {publication : Publication} {removed : List Path}
  {s s₁ s₂ s' : Site V Finalization} {seams : FinalizationSeams} {demand : Demand}

/-- The first events of an attempt, before its publication. -/
theorem Reached.logged (h : Reached plan output boundary [] none [] [] s s₁) (h' : Logged events s₁ s₂)
    (hpacks : ∀ event ∈ events, ∃ receipt, event = .packed receipt) :
    Reached plan output boundary events none [] [] s s₂ := by
  refine ⟨⟨?_, hpacks, nofun, fun h => absurd rfl h, by simp, fun h => absurd rfl h, nofun, ?_⟩, ?_⟩
  · have hlater : Did (AttemptStep plan output) events s₁ s₂ := by
      refine h'.did fun event hevent => ?_
      obtain ⟨receipt, rfl⟩ := hpacks event hevent
      rfl
    simpa [archiveEvents] using h.ordered.did.trans hlater
  · rw [h'.progress, h.ordered.account]
  · rw [h'.progress, h.progress]

theorem Reached.idle (h : Reached plan output boundary staging publication loading removed s s₁) (h' : Idle s₁ s₂) :
    Reached plan output boundary staging publication loading removed s s₂ := by
  have hprogress : s₂.progress = s₁.progress := h'.logged.progress
  refine ⟨⟨h.ordered.did.idle h', h.ordered.packs, h.ordered.loads, h.ordered.loadsLater, h.ordered.sources,
    h.ordered.removesLast, nofun, ?_⟩, ?_⟩
  · rw [hprogress, h.ordered.account]
  · rw [hprogress, h.progress]

/-- Only the progress moves. -/
theorem Reached.progressed {boundary' : ArchiveFinalizationFailure}
    (h : Reached plan output boundary staging publication loading removed s s₁) (hdisk : s₂.disk = s₁.disk)
    (hlog : s₂.log = s₁.log) (haccount : s₂.progress.account = s₁.progress.account)
    (hprogress : s₂.progress.progress = ⟨boundary', removed.length, mutationOf publication, claimOf publication⟩) :
    Reached plan output boundary' staging publication loading removed s s₂ := by
  obtain ⟨⟨hdid, hpacks, hloads, hlater, hsources, hlast, hchecks, hmutations⟩, -⟩ := h
  refine ⟨⟨⟨?_, ?_⟩, hpacks, hloads, hlater, hsources, hlast, hchecks, ?_⟩, hprogress⟩
  · rw [hlog, hdid.log]
  · rw [hdisk]
    exact hdid.tree
  · rw [haccount, hmutations]

/-- The boundary moves. -/
theorem Reached.setBoundary (h : Reached plan output boundary staging publication loading removed s s₁)
    (boundary' : ArchiveFinalizationFailure) :
    Reached plan output boundary' staging publication loading removed s
      { s₁ with progress := { s₁.progress with progress := { s₁.progress.progress with boundary := boundary' } } } :=
  h.progressed rfl rfl rfl (by simp [h.progress])

theorem spec_currentEstimate : Spec (currentEstimate seams plan output) s₁ (fun _ s' => Idle s₁ s')
    (fun _ s' => Idle s₁ s') fun _ => False := by
  have hreads : Reads s₁.disk (estimatePackedCapacity seams output plan.rules.dummyPlugin.length (pure ()) :
      Prog (Site V Finalization) _ Nat) fun _ => True := reads_estimatePackedCapacity (reads_pure trivial)
  exact Prog.spec_mapError.mpr ((hreads s₁ rfl).mono (fun _ _ h => h.1) (fun _ _ h => h) fun _ h => h)

/-- Sources that are rechecked and pinned are only read. -/
theorem spec_recheckCapacity : Spec (recheckCapacity seams plan output demand) s₁ (fun _ s' => Idle s₁ s')
    (fun _ s' => Idle s₁ s') fun _ => False := by
  refine spec_bind.mpr (spec_currentEstimate.mono (fun _ s₂ h₂ => ?_) (fun _ _ h => h) fun _ h => h)
  refine spec_bind.mpr ((along_nextCall s₂).mono (fun n s₃ h₃ => ?_) (fun _ _ h => h₂.trans h) fun _ h => h)
  have h := h₂.trans h₃.1
  cases seams.recheck n _ output.modRoot with
  | some shortage => exact h
  | none => exact h

theorem spec_pinPackedSources : Spec (pinPackedSources seams plan output) s₁
    (fun pins s' => Idle s₁ s' ∧ pins.map SourceFilePin.source =
      if plan.deleteSources then output.archive.files.map PackSource.path else [])
    (fun _ s' => Idle s₁ s') fun _ => False := by
  unfold pinPackedSources
  split_ifs
  · have hloop := Prog.Spec.foldEach (f := pinPackedSource (V := V) seams output.modRoot) (C := fun _ => False)
      (E := fun _ s' => Idle s₁ s')
      (I := fun before _ pins s' => Idle s₁ s' ∧ pins.1.map SourceFilePin.source = before.map PackSource.path)
      (fun before source after pins s₂ h => by
        refine spec_bind.mpr (Prog.spec_mapError.mpr
          ((SourceFilePin.along_withSharedDirectories source.path output.modRoot pins.2 s₂).mono ?_
            (fun _ _ h' => h.1.trans h') fun _ h => h))
        rintro ⟨pin, directories⟩ s₃ ⟨h₃, hpin, -⟩
        have hsource : pin.source = source.path := hpin
        exact ⟨h.1.trans h₃, by simp [h.2, hsource]⟩)
      [] output.archive.files (c := ([], [])) (s := s₁) ⟨.refl s₁, rfl⟩
    exact spec_bind.mpr (hloop.mono (fun _ _ h => h) (fun _ _ h => h) fun _ h => h)
  · exact ⟨.refl s₁, rfl⟩

omit [DecidableEq K] in
theorem spec_stageArchive : Spec (stageArchive seams) s₁ (fun receipt s' => Logged [.packed receipt] s₁ s')
    (fun _ s' => Logged [] s₁ s') fun _ => False := by
  refine spec_bind.mpr (Prog.spec_mapError.mpr (spec_stageForPublication.mono (fun receipt s₂ h₂ => ?_)
    (fun _ _ h => h) fun _ h => h))
  have hwrite : Spec (writeArchive seams.toSeams receipt) s₂ (fun _ s' => Logged [.packed receipt] s₂ s')
      (fun _ s' => Idle s₂ s') fun _ => False := by
    refine spec_bind.mpr ((along_call _ s₂).mono (fun data s₃ h₃ => ?_) (fun _ _ h => h) fun _ h => h)
    exact h₃.1.then ⟨rfl, rfl, rfl⟩
  exact spec_bind.mpr (Prog.spec_mapError.mpr (hwrite.mono (fun _ _ h₃ => h₂.1.trans h₃) (fun _ _ h₃ => h₂.1.idle h₃)
    fun _ h => h))

/-! ## Publication, loading and cleanup -/

/-- Where a failure is reported, the Archive is published and released, or it is not. -/
def Fits (publication : Publication) : ArchiveFinalizationFailure → Prop
  | .writeFailed => publication = none
  | .commitFailed => ¬ IsReleased publication
  | .pluginCreationFailed => IsReleased publication
  | .sourceCleanupFailed => IsReleased publication
  | _ => False

/-- How an attempt stopped. -/
structure Stopped (plan : FinalizationPlan) (output : FinalizationOutput) (e : Thrown AttemptStop)
    (boundary : ArchiveFinalizationFailure) (staging : List Event) (publication : Publication) (loading : List Event)
    (removed : List Path) (s s' : Site V Finalization) : Prop where
  reached : Reached plan output boundary staging publication loading removed s s'
  fits : Fits publication boundary
  short : ∀ shortage, e = .error (.short shortage) → publication = none

/-- The Archive's publication happened. -/
theorem Reached.published {boundary' : ArchiveFinalizationFailure} {receipt : Nat} {released : Bool} {q : Path}
    {data : Bytes} (h : Reached plan output boundary staging none [] [] s s₁)
    (hlog : s₂.log = s₁.log ++ [.published receipt output.archivePath released])
    (hcreate : s₁.disk.create output.archivePath (.leaf (.file data 1)) = some (q, s₂.disk))
    (haccount : s₂.progress.account = s₁.progress.account)
    (hprogress : s₂.progress.progress =
      ⟨boundary', 0, mutationOf (some (receipt, released)), claimOf (some (receipt, released))⟩) :
    Reached plan output boundary' staging (some (receipt, released)) [] [] s s₂ := by
  refine ⟨⟨?_, h.ordered.packs, nofun, fun h => absurd rfl h, by simp, fun h => absurd rfl h, nofun, ?_⟩, hprogress⟩
  · have hlater : Did (AttemptStep plan output) [.published receipt output.archivePath released] s₁ s₂ :=
      ⟨hlog, trace_singleton.mpr ⟨data, q, hcreate, .inl rfl⟩⟩
    simpa [archiveEvents] using h.ordered.did.trans hlater
  · rw [haccount, h.ordered.account]

/-- **The Archive is published and released, or the attempt stops.** -/
theorem spec_publishArchive {receipt : Nat} (h : Reached plan output boundary staging none [] [] s s₁) :
    Spec (publishArchive seams output receipt) s₁
      (fun _ s' => Reached plan output .commitFailed staging (some (receipt, true)) [] [] s s')
      (fun e s' => ∃ publication, Stopped plan output e .commitFailed staging publication [] [] s s') fun _ => False := by
  refine spec_bind.mpr (Prog.spec_modify.mpr ?_)
  have hset := h.setBoundary .commitFailed
  refine spec_bind.mpr ((spec_publishReceipt receipt output.archivePath).mono ?_ (fun _ _ h => h.elim) fun _ h => h)
  rintro result s₂ (⟨hstate, h₂⟩ | ⟨released, hstate, hlog, hprogress, -, q, hcreate⟩)
  · -- Refused: nothing is committed, and the attempt's claim stays.
    have hreached := hset.idle h₂
    refine spec_bind.mpr (Prog.spec_modify.mpr ?_)
    rw [if_pos (by rw [hstate]; decide)]
    refine spec_bind.mpr (Prog.spec_modify.mpr ⟨none, hreached.progressed rfl rfl rfl ?_, by simp [Fits, IsReleased], fun _ _ => rfl⟩)
    simp [hreached.progress, PublicationResult.mutation, PublicationResult.safeToContinue, hstate, mutationOf, claimOf]
  · have hprogress₂ : s₂.progress.progress = ⟨.commitFailed, 0, .none, true⟩ := by
      rw [hprogress, hset.progress]
      rfl
    have haccount : s₂.progress.account = s₁.progress.account := by rw [hprogress]
    refine spec_bind.mpr (Prog.spec_modify.mpr ?_)
    cases released with
    | true =>
      rw [if_neg (by simp [hstate])]
      refine hset.published hlog hcreate haccount ?_
      simp [hprogress₂, PublicationResult.mutation, hstate, mutationOf, claimOf]
    | false =>
      rw [if_pos (by simp [hstate])]
      refine spec_bind.mpr (Prog.spec_modify.mpr ⟨some (receipt, false), ?_, by simp [Fits, IsReleased], by simp⟩)
      refine hset.published hlog hcreate haccount ?_
      simp [hprogress₂, PublicationResult.mutation, PublicationResult.safeToContinue, hstate, mutationOf, claimOf]

/-- What was done for the Archive to load. -/
theorem Reached.loaded
    (h : Reached plan output boundary staging publication events [] s s₁) (hreleased : IsReleased publication)
    (h' : Loading plan output loading s₁ s₂) :
    Reached plan output boundary staging publication (events ++ loading) [] s s₂ := by
  refine ⟨⟨?_, h.ordered.packs, fun event hevent => ?_, fun _ => hreleased, by simp, fun h => absurd rfl h, nofun, ?_⟩, ?_⟩
  · simpa using h.ordered.did.trans h'.did
  · exact (List.mem_append.mp hevent).elim (h.ordered.loads event) (h'.loads event)
  · rw [h'.account, h.ordered.account, creations, creations, creations, List.filterMap_append, List.append_assoc]
  · rw [h'.progress, h.progress]

/-- **A plugin is ensured, and pinned where sources will be deleted, or the attempt stops.** -/
theorem spec_loadPublished (hreleased : IsReleased publication)
    (h : Reached plan output boundary staging publication [] [] s s₁) : Spec (loadPublished seams plan output) s₁
      (fun _ s' => ∃ loading, Reached plan output .pluginCreationFailed staging publication loading [] s s' ∧
        (plan.deleteSources = true → output.loadingPluginPaths ≠ [] →
          ∃ plugin ∈ output.loadingPluginPaths, Event.pluginPinned plugin ∈ loading))
      (fun e s' => ∃ loading, Stopped plan output e .pluginCreationFailed staging publication loading [] s s')
      fun _ => False := by
  refine spec_bind.mpr (Prog.spec_modify.mpr ?_)
  have hset := h.setBoundary .pluginCreationFailed
  split_ifs with hnames hdelete
  · exact ⟨[], hset, fun _ hne => absurd hnames hne⟩
  · -- The plugin is pinned until every source is gone.
    refine spec_bind.mpr (Prog.spec_mapError.mpr (spec_ensureOutputLoadingPlugin.mono ?_ ?_ fun _ h => h))
    · rintro plugin s₂ ⟨hplugin, loading, hloading⟩
      have hreached := hset.loaded hreleased hloading
      refine Prog.spec_mapError.mpr (spec_loadingPluginPin.mono ?_ ?_ fun _ h => h)
      · rintro _ s₃ ⟨h₃, hfile⟩
        have hpin : Loading plan output [.pluginPinned plugin] s₂ s₃ := by
          refine ⟨h₃.did fun event hevent => ?_, fun event hevent => ?_, by rw [h₃.progress], ?_⟩
          · rw [List.mem_singleton.mp hevent]
            exact ⟨rfl, hplugin, hfile⟩
          · rw [List.mem_singleton.mp hevent]
            exact hplugin
          · simp [h₃.progress, creations]
        exact ⟨_, hreached.loaded hreleased hpin, fun _ _ => ⟨plugin, hplugin, by simp⟩⟩
      · intro e s₃ h₃
        exact ⟨_, hreached.idle h₃, hreleased, by cases e <;> simp [Thrown.map]⟩
    · rintro e s₂ ⟨loading, hloading⟩
      exact ⟨_, hset.loaded hreleased hloading, hreleased, by cases e <;> simp [Thrown.map]⟩
  · refine spec_bind.mpr (Prog.spec_mapError.mpr (spec_ensureOutputLoadingPlugin.mono ?_ ?_ fun _ h => h))
    · rintro plugin s₂ ⟨-, loading, hloading⟩
      exact ⟨_, hset.loaded hreleased hloading, fun hd => absurd hd hdelete⟩
    · rintro e s₂ ⟨loading, hloading⟩
      exact ⟨_, hset.loaded hreleased hloading, hreleased, by cases e <;> simp [Thrown.map]⟩

/-- One more source is removed. -/
theorem Reached.remove {path : Path} (hdelete : plan.deleteSources = true) (hreleased : IsReleased publication)
    (hpinned : output.loadingPluginPaths ≠ [] →
      ∃ plugin ∈ output.loadingPluginPaths, Event.pluginPinned plugin ∈ loading)
    (hsource : removed ++ [path] <+: output.archive.files.map PackSource.path)
    (h : Reached plan output boundary staging publication loading removed s s₁)
    (hlog : s₂.log = s₁.log ++ [.removed path]) (hdisk : SourceFilePin.deleteFile path s₁.disk = .ok s₂.disk)
    (haccount : s₂.progress.account = s₁.progress.account)
    (hprogress : s₂.progress.progress =
      ⟨boundary, removed.length + 1, mutationOf publication, claimOf publication⟩) :
    Reached plan output boundary staging publication loading (removed ++ [path]) s s₂ := by
  refine ⟨⟨?_, h.ordered.packs, h.ordered.loads, h.ordered.loadsLater, hsource, fun _ => ⟨hdelete, hreleased, hpinned⟩,
    nofun, ?_⟩, ?_⟩
  · have hfile : ∃ file ∈ output.archive.files, file.path = path :=
      List.mem_map.mp (hsource.subset (List.mem_append_right _ List.mem_cons_self))
    have hlater : Did (AttemptStep plan output) [.removed path] s₁ s₂ :=
      ⟨hlog, trace_singleton.mpr ⟨hdisk, hdelete, hfile⟩⟩
    simpa using h.ordered.did.trans hlater
  · rw [haccount, h.ordered.account]
  · simpa using hprogress

/-- **The sources are removed one by one, in order**: where sources are kept, there is nothing to remove. -/
theorem spec_removePackedSources {pins : List SourceFilePin} (hreleased : IsReleased publication)
    (hpinned : plan.deleteSources = true → output.loadingPluginPaths ≠ [] →
      ∃ plugin ∈ output.loadingPluginPaths, Event.pluginPinned plugin ∈ loading)
    (hpins : pins.map SourceFilePin.source =
      if plan.deleteSources then output.archive.files.map PackSource.path else [])
    (h : Reached plan output boundary staging publication loading [] s s₁) :
    Spec (removePackedSources seams pins) s₁
      (fun _ s' => Reached plan output .sourceCleanupFailed staging publication loading
        (pins.map SourceFilePin.source) s s')
      (fun e s' => ∃ removed, Stopped plan output e .sourceCleanupFailed staging publication loading removed s s')
      fun _ => False := by
  refine spec_bind.mpr (Prog.spec_modify.mpr ?_)
  have hset := h.setBoundary .sourceCleanupFailed
  have hloop := Prog.Spec.forEach (f := removePackedSource (V := V) seams) (C := fun _ => False)
    (E := fun e s' => ∃ removed, Stopped plan output e .sourceCleanupFailed staging publication loading removed s s')
    (I := fun before after s' => before ++ after = pins ∧ Reached plan output .sourceCleanupFailed staging publication
      loading (before.map SourceFilePin.source) s s')
    (fun before pin after s₂ h₂ => by
      obtain ⟨hsplit, hreached⟩ := h₂
      refine spec_bind.mpr (Prog.spec_mapError.mpr (SourceFilePin.spec_removeIfUnchanged.mono ?_ ?_ fun _ h => h))
      · rintro _ s₄ ⟨s₃, h₃, hdisk, -, hprogress, hlog⟩
        refine Prog.spec_modify.mpr ⟨by rw [← hsplit]; simp, ?_⟩
        have hdelete : plan.deleteSources = true := by
          by_contra hkeep
          rw [if_neg hkeep, List.map_eq_nil_iff] at hpins
          rw [hpins] at hsplit
          simp at hsplit
        rw [if_pos hdelete] at hpins
        have hsource : before.map SourceFilePin.source ++ [pin.source] <+: output.archive.files.map PackSource.path := by
          rw [← hpins, ← hsplit]
          exact ⟨after.map SourceFilePin.source, by simp⟩
        have hreached₃ := hreached.idle h₃
        rw [List.map_append]
        refine hreached₃.remove hdelete hreleased (hpinned hdelete) hsource hlog hdisk ?_ ?_
        · show s₄.progress.account = _
          rw [hprogress]
        · simp [hprogress, hreached₃.progress]
      · intro e s₃ h₃
        exact ⟨_, hreached.idle h₃, hreleased, by cases e <;> simp [Thrown.map]⟩)
    [] pins (s := { s₁ with progress := { s₁.progress with
      progress := { s₁.progress.progress with boundary := .sourceCleanupFailed } } }) ⟨rfl, hset⟩
  exact hloop.mono (fun _ _ h => by simpa using h.2) (fun _ _ h => h) fun _ h => h

/-- The state an attempt starts in: its progress is new. -/
def started (s : Site V Finalization) : Site V Finalization :=
  { s with progress := { s.progress with progress := .start } }

/-- **An attempt is ordered, wherever it stops.** -/
theorem spec_tryAttempt : Spec (tryAttempt seams plan output demand) (started s)
    (fun _ s' => ∃ staging publication loading removed,
      Reached plan output .sourceCleanupFailed staging publication loading removed s s' ∧ IsReleased publication ∧
        (plan.deleteSources = true → removed = output.archive.files.map PackSource.path))
    (fun e s' => ∃ boundary staging publication loading removed,
      Stopped plan output e boundary staging publication loading removed s s') fun _ => False := by
  have hstart : Reached plan output .writeFailed [] none [] [] s (started s) :=
    ⟨⟨⟨(List.append_nil _).symm, rfl⟩, nofun, nofun, fun h => absurd rfl h, List.nil_prefix, fun h => absurd rfl h, nofun,
      (List.append_nil _).symm⟩, rfl⟩
  refine spec_bind.mpr (spec_recheckCapacity.mono (fun _ s₁ h₁ => ?_) (fun e s' h => ?_) fun _ h => h)
  · have hreached := hstart.idle h₁
    refine spec_bind.mpr (spec_pinPackedSources.mono ?_ ?_ fun _ h => h)
    · rintro pins s₂ ⟨h₂, hpins⟩
      have hreached := hreached.idle h₂
      refine spec_bind.mpr (spec_stageArchive.mono ?_ ?_ fun _ h => h)
      · intro receipt s₃ h₃
        have hreached := hreached.logged h₃ (by simp)
        refine spec_bind.mpr ((spec_publishArchive hreached).mono ?_ ?_ fun _ h => h)
        · intro _ s₄ hreached
          have hreleased : IsReleased (some (receipt, true)) := ⟨receipt, rfl⟩
          refine spec_bind.mpr ((spec_loadPublished hreleased hreached).mono ?_ ?_ fun _ h => h)
          · rintro _ s₅ ⟨loading, hreached, hpinned⟩
            refine (spec_removePackedSources hreleased hpinned hpins hreached).mono ?_ ?_ fun _ h => h
            · intro _ s₆ hreached
              refine ⟨_, _, _, _, hreached, hreleased, fun hdelete => ?_⟩
              rw [hpins, if_pos hdelete]
            · rintro e s₆ ⟨removed, h⟩
              exact ⟨_, _, _, _, _, h⟩
          · rintro e s₅ ⟨loading, h⟩
            exact ⟨_, _, _, _, _, h⟩
        · rintro e s₄ ⟨publication, h⟩
          exact ⟨_, _, _, _, _, h⟩
      · intro e s₃ h₃
        exact ⟨_, _, _, _, _, hreached.logged h₃ (by simp), rfl, fun _ _ => rfl⟩
    · intro e s₂ h₂
      exact ⟨_, _, _, _, _, hreached.idle h₂, rfl, fun _ _ => rfl⟩
  · exact ⟨_, _, _, _, _, hstart.idle h, rfl, fun _ _ => rfl⟩

/-! ## The check of a committed Archive -/

/-- Events of a check happened, and nothing else. -/
structure Checked (plan : FinalizationPlan) (output : FinalizationOutput) (events : List Event)
    (s s' : Site V Finalization) : Prop where
  did : Did (AttemptStep plan output) events s s'
  checks : ∀ event ∈ events, IsCheck event
  progress : s'.progress = s.progress

theorem checked_idle (h : Idle s s') : Checked plan output [] s s' := ⟨h.did, nofun, h.logged.progress⟩

theorem Checked.trans {events' : List Event} (h : Checked plan output events s s₁)
    (h' : Checked plan output events' s₁ s₂) : Checked plan output (events ++ events') s s₂ :=
  ⟨h.did.trans h'.did, fun event hevent => (List.mem_append.mp hevent).elim (h.checks event) (h'.checks event),
    h'.progress.trans h.progress⟩

theorem checked_logged (h : Logged events s s') (hstep : ∀ event ∈ events, AttemptStep plan output event s.disk s.disk)
    (hchecks : ∀ event ∈ events, IsCheck event) : Checked plan output events s s' :=
  ⟨h.did hstep, hchecks, h.progress⟩

variable (plan output) in
/-- A check of the Archive that says yes listed it and let go of it. -/
theorem spec_archiveReadsBack : Spec (archiveReadsBack seams output.archivePath) s₁
    (fun readable s' => ∃ events, Checked plan output events s₁ s' ∧
      if readable then events = [.listed output.archivePath, .unloaded] else events = [.unloaded])
    (fun _ s' => ∃ events, Checked plan output events s₁ s' ∧ events.length < 2) fun _ => False := by
  have hlisted : ∀ {s₂ : Site V Finalization}, Logged [.listed output.archivePath] s₁ s₂ →
      Checked plan output [.listed output.archivePath] s₁ s₂ := fun h =>
    checked_logged h (by simp [AttemptStep]) (by simp [IsCheck])
  have hunloaded : ∀ {s₂ s₃ : Site V Finalization}, Logged [.unloaded] s₂ s₃ →
      Checked plan output [.unloaded] s₂ s₃ := fun h => checked_logged h (by simp [AttemptStep]) (by simp [IsCheck])
  refine spec_bind.mpr (spec_result ((spec_listArchive _).mono (fun entries s₂ h₂ => ?_) ?_ fun _ h => h))
  · refine spec_bind.mpr (spec_releaseReader.mono (fun _ s₃ h₃ => ?_) (fun _ s₃ h₃ => ?_) fun _ h => h)
    · exact ⟨_, (hlisted h₂).trans (hunloaded h₃), rfl⟩
    · exact ⟨_, (hlisted h₂).trans (checked_idle h₃), by simp⟩
  · intro e s₂ h₂
    refine ⟨fun detail _ => ?_, fun message _ => ⟨[], checked_idle h₂, by simp⟩⟩
    refine spec_bind.mpr (spec_releaseReader.mono (fun _ s₃ h₃ => ?_) (fun _ s₃ h₃ => ?_) fun _ h => h)
    · exact ⟨_, (checked_idle h₂).trans (hunloaded h₃), rfl⟩
    · exact ⟨_, (checked_idle h₂).trans (checked_idle h₃), by simp⟩

variable (plan output) in
/-- A source that reads back whole is an ordinary file. -/
theorem spec_readablePackedSource {source : Path} : Spec (readablePackedSource seams source) s₁
    (fun readable s' => if readable then Checked plan output [.readWhole source] s₁ s' else Idle s₁ s')
    (fun _ s' => Idle s₁ s') fun _ => False := by
  refine spec_bind.mpr ((reads_result (reads_statEntry source) s₁ rfl).mono ?_ (fun _ _ h => h) fun _ h => h)
  rintro metadata s₂ ⟨h₂, hmetadata⟩
  split
  · next data links =>
    have hfound := (hmetadata _ rfl).symm
    rw [Option.map_eq_some_iff] at hfound
    obtain ⟨⟨q, node⟩, hfind, hnode⟩ := hfound
    have hnode : node = .leaf (.file data links) := hnode
    refine spec_bind.mpr ((reads_result (reads_call _) s₂ rfl).mono ?_ (fun _ _ h => h₂.trans h) fun _ h => h)
    rintro opened s₃ ⟨h₃, -⟩
    split
    · exact h₂.trans h₃
    · refine spec_bind.mpr ((reads_result (reads_inspectTree _) s₃ rfl).mono ?_ (fun _ _ h => (h₂.trans h₃).trans h)
        fun _ h => h)
      rintro read s₄ ⟨h₄, -⟩
      have h : Idle s₁ s₄ := (h₂.trans h₃).trans h₄
      split
      · exact h
      · split_ifs
        · refine spec_bind.mpr (Prog.spec_modify.mpr ?_)
          have hlogged : Logged [.readWhole source] s₁ { s₄ with log := s₄.log ++ [.readWhole source] } :=
            h.then ⟨rfl, rfl, rfl⟩
          refine checked_logged hlogged (fun event hevent => ?_) (by simp [IsCheck])
          rw [List.mem_singleton.mp hevent]
          exact ⟨rfl, q, data, links, by rw [hfind, hnode]⟩
        · exact h
  · exact h₂
  · exact h₂

variable (plan output) in
/-- The sources read whole are the first of them, and all of them where the answer is yes. -/
theorem spec_allReadable (sources : List PackSource) : Spec (allReadable seams sources) s₁
    (fun readable s' => ∃ read, Checked plan output (read.map fun source => .readWhole source.path) s₁ s' ∧
      read <+: sources ∧ (readable = true ↔ read = sources))
    (fun _ s' => ∃ read, Checked plan output (read.map fun source => .readWhole source.path) s₁ s' ∧
      read <+: sources ∧ read ≠ sources) fun _ => False := by
  induction sources generalizing s₁ with
  | nil => exact ⟨[], checked_idle (.refl s₁), List.prefix_rfl, by simp⟩
  | cons source sources ih =>
    refine spec_bind.mpr ((spec_readablePackedSource plan output).mono (fun readable s₂ h₂ => ?_) (fun e s₂ h₂ => ?_) fun _ h => h)
    · cases readable with
      | true =>
        refine ih.mono ?_ ?_ fun _ h => h
        · rintro readable s₃ ⟨read, h₃, hread, hall⟩
          refine ⟨source :: read, h₂.trans h₃, (List.prefix_cons_inj source).mpr hread, ?_⟩
          rw [hall, List.cons_inj_right]
        · rintro e s₃ ⟨read, h₃, hread, hne⟩
          refine ⟨source :: read, h₂.trans h₃, (List.prefix_cons_inj source).mpr hread, fun heq => hne ?_⟩
          exact (List.cons_inj_right source).mp heq
      | false => exact ⟨[], checked_idle h₂, List.nil_prefix, by simp⟩
    · exact ⟨[], checked_idle h₂, List.nil_prefix, by simp⟩

variable (plan) in
/-- **A check passes exactly where its log shows that it was made whole.** -/
theorem spec_verifyCommitted {progress : AttemptProgress} (hremoved : progress.removedSources = removed.length) :
    Spec (verifyCommitted seams output progress) s₁
      (fun verified s' => ∃ ending, Checked plan output ending s₁ s' ∧
        (verified = true ↔ progress.boundary ≠ .pluginCreationFailed ∧ Verified output removed ending))
      (fun _ s' => ∃ ending, Checked plan output ending s₁ s' ∧ ¬ Verified output removed ending) fun _ => False := by
  have hshort : ∀ ending : List Event, ending.length < 2 → ¬ Verified output removed ending := by
    intro ending hlength hverified
    rw [Verified] at hverified
    simp only [hverified, List.length_append, List.length_cons, List.length_nil] at hlength
    omega
  unfold verifyCommitted
  split_ifs with hboundary
  · exact ⟨[], checked_idle (.refl s₁), by simp [hboundary]⟩
  · refine spec_bind.mpr ((spec_archiveReadsBack plan output).mono ?_ ?_ fun _ h => h)
    · rintro readable s₂ ⟨events, h₂, hevents⟩
      cases readable with
      | false =>
        refine ⟨events, h₂, iff_of_false (by simp) fun h => hshort events ?_ h.2⟩
        rw [show events = [.unloaded] from hevents]
        decide
      | true =>
        have hevents : events = [.listed output.archivePath, .unloaded] := hevents
        subst hevents
        rw [hremoved]
        -- As many events as sources left are those of all of them.
        have hall : ∀ read, read <+: output.archive.files.drop removed.length →
            (Verified output removed ([.listed output.archivePath, .unloaded] ++
              read.map fun source => .readWhole source.path) ↔ read = output.archive.files.drop removed.length) := by
          intro read hread
          unfold Verified
          rw [List.append_cancel_left_eq]
          refine ⟨fun heq => hread.eq_of_length ?_, fun heq => by rw [heq]⟩
          simpa using congrArg List.length heq
        refine (spec_allReadable plan output _).mono ?_ ?_ fun _ h => h
        · rintro readable s₃ ⟨read, h₃, hread, hreadable⟩
          exact ⟨_, h₂.trans h₃, by rw [hreadable, hall read hread]; simp [hboundary]⟩
        · rintro e s₃ ⟨read, h₃, hread, hne⟩
          exact ⟨_, h₂.trans h₃, by rwa [hall read hread]⟩
    · rintro e s₂ ⟨events, h₂, hlength⟩
      exact ⟨events, h₂, hshort events hlength⟩

/-! ## The whole attempt -/

/-- The check joins the log. -/
theorem Reached.checked {ending : List Event}
    (h : Reached plan output boundary staging publication loading removed s s₁)
    (h' : Checked plan output ending s₁ s') : Ordered plan output staging publication loading removed ending s s' := by
  obtain ⟨⟨hdid, hpacks, hloads, hlater, hsources, hlast, -, haccount⟩, -⟩ := h
  refine ⟨by simpa using hdid.trans h'.did, hpacks, hloads, hlater, hsources, hlast, h'.checks, ?_⟩
  rw [h'.progress, haccount]

/-- Where nothing was published, the tree is as it was. -/
theorem Ordered.quiet {ending : List Event} (h : Ordered plan output staging none loading removed ending s s') :
    s'.disk = s.disk := by
  have hloading : loading = [] := by
    by_contra hne
    exact absurd (h.loadsLater hne) nofun
  have hremoved : removed = [] := by
    by_contra hne
    exact absurd (h.removesLast hne).2.1 nofun
  have htree := h.did.tree
  rw [hloading, hremoved] at htree
  refine htree.invariant (I := fun disk => disk = s.disk) (fun event hevent disk disk' hstep hdisk => ?_) rfl
  simp only [archiveEvents, List.append_nil, List.map_nil, List.mem_append] at hevent
  have hsame : disk' = disk := by
    rcases hevent with hevent | hevent
    · obtain ⟨receipt, rfl⟩ := h.packs event hevent
      exact hstep
    · have hcheck := h.checks event hevent
      cases event <;> simp only [IsCheck] at hcheck
      · exact hstep.1
      · exact hstep
      · exact hstep.1
  rw [hsame, hdisk]

theorem claimOf_eq_true : claimOf publication = true ↔ publication = none ∨ IsReleased publication := by
  rcases publication with _ | ⟨receipt, released⟩
  · simp [claimOf]
  · cases released <;> simp [claimOf, IsReleased]

theorem mutationOf_ne_partial : mutationOf publication ≠ .partialOrUnknown := by
  cases publication <;> simp [mutationOf]

/-- What a failure reports, given that its claim agrees with the log. -/
theorem Ordered.reports {ending : List Event} {safe : Bool} {failure : OperationFailure ArchiveFinalizationFailure}
    (hordered : Ordered plan output staging publication loading removed ending s s')
    (hsafe : safe = true ↔ (publication = none ∧ failure.category ≠ .unexpectedException) ∨
      (IsReleased publication ∧ failure.category = .sourceCleanupFailed ∧ Verified output removed ending)) :
    Reports plan output publication removed ending s s' (.failed failure (mutationOf publication) safe) where
  mutation := rfl
  quiet hnone := by
    subst hnone
    exact hordered.quiet
  success := nofun
  safe := by
    have hcategory : ∀ category, (AttemptOutcome.failed failure (mutationOf publication) safe).failureCategory =
        some category ↔ failure.category = category := fun category => by simp [AttemptOutcome.failureCategory]
    rw [Ne, hcategory, hcategory]
    simpa [AttemptOutcome.safeToContinue, AttemptOutcome.isSuccess, mutationOf_ne_partial] using hsafe

/-- **A failure reports what the log shows.** -/
theorem spec_stopFailed {detail : String} {e : Thrown AttemptStop}
    (h : Stopped plan output e boundary staging publication loading removed s s₁) :
    Spec (stopFailed seams output detail : Prog (Site V Finalization) ε _) s₁
      (fun outcome s' => ∃ ending, Ordered plan output staging publication loading removed ending s s' ∧
        Reports plan output publication removed ending s s' outcome) (fun _ _ => False) fun _ => False := by
  obtain ⟨hreached, hfits, -⟩ := h
  have hprogress := hreached.progress
  have hexpected : boundary ≠ .unexpectedException := by
    rintro rfl
    exact hfits
  have hdone : ∀ (safe : Bool) (s' : Site V Finalization) (ending : List Event), Checked plan output ending s₁ s' →
      (safe = true ↔ publication = none ∨
        (IsReleased publication ∧ boundary = .sourceCleanupFailed ∧ Verified output removed ending)) →
      ∃ ending, Ordered plan output staging publication loading removed ending s s' ∧
        Reports plan output publication removed ending s s'
          (.failed (.new boundary detail) (mutationOf publication) safe) := by
    intro safe s' ending h' hsafe
    have hordered := hreached.checked h'
    exact ⟨ending, hordered, hordered.reports (by simpa [OperationFailure.new, hexpected] using hsafe)⟩
  have hnever : IsReleased publication → publication ≠ none := by
    rintro ⟨receipt, rfl⟩
    exact nofun
  refine spec_bind.mpr (spec_getProgress.mpr ?_)
  rw [hprogress]
  dsimp only
  split_ifs with hclaim
  · -- Committed and released: the check decides, and never after a failure of the loading plugin.
    have hreleased : IsReleased publication := by
      rcases claimOf_eq_true.mp hclaim.2 with rfl | hreleased
      · exact absurd hclaim.1 nofun
      · exact hreleased
    have hboundary : boundary ≠ .pluginCreationFailed ↔ boundary = .sourceCleanupFailed := by
      obtain ⟨receipt, rfl⟩ := hreleased
      cases boundary <;> simp [Fits, IsReleased] at hfits ⊢
    refine spec_bind.mpr (Prog.spec_attempt.mpr ((spec_verifyCommitted plan rfl).mono ?_ ?_ fun _ h => h))
    · rintro verified s' ⟨ending, h', hverified⟩
      refine hdone verified s' ending h' ?_
      rw [hverified, hboundary]
      simp [hnever hreleased, hreleased]
    · rintro e s' ⟨ending, h', hverified⟩
      exact hdone false s' ending h' (by simp [hnever hreleased, hverified])
  · refine hdone _ s₁ [] (checked_idle (.refl s₁)) ?_
    rw [claimOf_eq_true]
    rcases publication with _ | ⟨receipt, released⟩
    · simp
    · cases released
      · simp [IsReleased]
      · exact absurd ⟨rfl, rfl⟩ hclaim

/-- **However an attempt ended, it reports what its log shows.** -/
theorem spec_attemptOutput : Spec (attemptOutput seams plan output demand : Prog (Site V Finalization) ε _) s
    (fun attempt s' => ∃ outcome staging publication loading removed ending,
      attempt = ⟨output.archivePath, output.modRoot, outcome⟩ ∧
        Ordered plan output staging publication loading removed ending s s' ∧
        Reports plan output publication removed ending s s' outcome)
    (fun _ _ => False) fun _ => False := by
  refine spec_bind.mpr (Prog.spec_modify.mpr (spec_bind.mpr (Prog.spec_attempt.mpr (spec_tryAttempt.mono ?_ ?_
    fun _ h => h))))
  · rintro _ s₁ ⟨staging, publication, loading, removed, hreached, hreleased, hall⟩
    obtain ⟨receipt, rfl⟩ := hreleased
    refine spec_bind.mpr (spec_bind.mpr (spec_getProgress.mpr ?_))
    rw [hreached.progress, if_pos (show mutationOf (some (receipt, true)) = .committed from rfl)]
    refine ⟨_, _, _, _, _, [], rfl, hreached.ordered, rfl, nofun, fun _ => ⟨⟨receipt, rfl⟩, hall⟩, iff_of_true rfl ?_⟩
    exact .inr ⟨⟨receipt, rfl⟩, .inl rfl⟩
  · rintro e s₁ ⟨boundary, staging, publication, loading, removed, hstopped⟩
    have hprogress := hstopped.reached.progress
    rcases e with (detail | shortage) | message
    · refine spec_bind.mpr ((spec_stopFailed hstopped).mono ?_ (fun _ _ h => h) fun _ h => h)
      rintro outcome s' ⟨ending, hordered, hreports⟩
      exact ⟨outcome, _, _, _, _, ending, rfl, hordered, hreports⟩
    · -- A shortage precedes every mutation.
      obtain rfl := hstopped.short shortage rfl
      refine spec_bind.mpr (spec_bind.mpr (spec_getProgress.mpr ?_))
      rw [hprogress]
      refine ⟨_, _, _, _, _, [], rfl, hstopped.reached.ordered, hstopped.reached.ordered.reports (iff_of_true rfl ?_)⟩
      exact .inl ⟨rfl, by simp [OperationFailure.fromCapacityShortage]⟩
    · refine spec_bind.mpr (spec_bind.mpr (spec_getProgress.mpr ?_))
      rw [hprogress]
      refine ⟨_, _, _, _, _, [], rfl, hstopped.reached.ordered, hstopped.reached.ordered.reports ?_⟩
      simp [OperationFailure.new]

/-- **An output attempt always ends, in order, and reports what its log shows.** -/
theorem attemptOutput_ordered (seams : FinalizationSeams) (plan : FinalizationPlan) (output : FinalizationOutput)
    (dummyDemand : Demand) (s : Site V Finalization) :
    ∃ outcome staging publication loading removed ending,
      (attemptOutput seams plan output dummyDemand s : Outcome ε _ × _).1 =
        .done ⟨output.archivePath, output.modRoot, outcome⟩ ∧
      Ordered plan output staging publication loading removed ending s
        (attemptOutput seams plan output dummyDemand s : Outcome ε _ × _).2 ∧
      Reports plan output publication removed ending s
        (attemptOutput seams plan output dummyDemand s : Outcome ε _ × _).2 outcome := by
  have hspec : Spec (attemptOutput seams plan output dummyDemand : Prog (Site V Finalization) ε _) s _ _ _ :=
    spec_attemptOutput
  unfold Spec at hspec
  split at hspec
  · next attempt s' hrun =>
    obtain ⟨outcome, staging, publication, loading, removed, ending, rfl, h⟩ := hspec
    refine ⟨outcome, staging, publication, loading, removed, ending, by rw [hrun], ?_⟩
    rw [hrun]
    exact h
  · exact hspec.elim
  · exact hspec.elim

end Cao.Finalize
