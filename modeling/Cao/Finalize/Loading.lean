import Cao.Finalize.Planned
import Cao.Run.Effects

/-!
# What loads an Archive

The plugin operations against the tree: the probes only read, and a dummy plugin is created whole, under a
recognized name that was free, or not at all.

* `reads_firstFreeName`, `reads_dummyDestination`: the probes, and the recognized name they settle on;
* `PluginCreated`, **`spec_publishDummyPlugin`**: the publication of a dummy plugin;
* `AttemptStep`: what each event of an output's attempt may do to the tree;
* `Loading`, **`spec_ensureOutputLoadingPlugin`**: what is done for a published Archive to load.
-/

namespace Cao.Finalize

open Pack
open Prog (Spec spec_bind)

variable {K : Type} [DecidableEq K] {V : Volume K} {P ε : Type} {disk : Disk V} {seams : FinalizationSeams}

/-! ## Probes -/

theorem reads_entryExists (path : Path) :
    Reads disk (entryExists seams path : Prog (Site V P) _ _) fun occupied => occupied = (disk.find path).isSome := by
  refine (reads_statEntry _).mapError.bind fun found hfound => reads_pure ?_
  rw [hfound, Option.isSome_map]

theorem reads_firstFreeName (names : List Path) :
    Reads disk (firstFreeName seams names : Prog (Site V P) _ _) fun free => ∀ name, free = some name → name ∈ names := by
  induction names with
  | nil => exact reads_pure nofun
  | cons name names ih =>
    refine (reads_entryExists name).bind fun occupied _ => ?_
    split_ifs
    · exact ih.mono fun free h other hother => List.mem_cons_of_mem _ (h other hother)
    · exact reads_pure (by rintro _ ⟨rfl⟩; exact List.mem_cons_self)

theorem reads_dummyDestination {strength : LoadingPluginStrength} {names : List Path} {plugin : Path}
    (hplugin : plugin ∈ names) :
    Reads disk (dummyDestination seams strength names plugin : Prog (Site V P) _ _) fun name => name ∈ names := by
  unfold dummyDestination
  split_ifs
  · refine (reads_entryExists plugin).bind fun occupied _ => ?_
    split_ifs
    · exact reads_pure hplugin
    · refine (reads_isLoadingPlugin plugin strength).bind fun durable _ => ?_
      split_ifs
      · exact reads_pure hplugin
      · refine (reads_firstFreeName names).bind fun free hfree => ?_
        cases free with
        | none => exact reads_failWith
        | some name => exact reads_pure (hfree name rfl)
  · exact reads_pure hplugin

theorem reads_occupiedPlugin (output : FinalizationOutput) (plugin : Path) (bytes : Bytes) :
    Reads disk (occupiedPlugin seams output plugin bytes : Prog (Site V P) _ _) fun name => name = plugin := by
  unfold occupiedPlugin
  split_ifs
  on_goal 1 => refine (reads_hasExactDummyBytes plugin bytes).bind fun exact _ => ?_
  on_goal 2 => refine (reads_pure trivial : Reads disk _ fun _ => True).bind fun exact _ => ?_
  -- whether the bytes were checked or not, the plugin must be a file
  all_goals
    dsimp only
    split_ifs
    · exact reads_failWith
    · refine (reads_result (reads_statTarget plugin)).bind fun metadata _ => ?_
      split
      · split_ifs
        · exact reads_pure rfl
        · exact reads_failWith
      · exact reads_failWith
      · exact reads_failWith

/-! ## The publication of a dummy plugin -/

variable {s s' s'' : Site V Finalization}

/-- A dummy plugin was created where nothing stood, and its creation joined the account. -/
structure PluginCreated (root destination : Path) (bytes : Bytes) (released : Bool) (s s' : Site V Finalization) :
    Prop where
  log : ∃ receipt, s'.log = s.log ++ [.published receipt destination released]
  tree : ∃ q, s.disk.create destination (.leaf (.file bytes 1)) = some (q, s'.disk)
  progress : s'.progress.progress = s.progress.progress
  mutations : s'.progress.account.mutations =
    s.progress.account.mutations ++ [⟨root, destination, .pluginCreation, .committed, 1, Nat.one_pos⟩]

omit [DecidableEq K] in
theorem spec_stageDummyBytes {receipt : Nat} {bytes : Bytes} :
    Spec (stageDummyBytes seams receipt bytes) s
      (fun _ s' => Logged [] s s' ∧ s'.staged = s.staged.set receipt bytes) (fun _ s' => Logged [] s s')
      fun _ => False := by
  refine Prog.spec_mapError.mpr (spec_bind.mpr ((along_call _ s).mono (fun _ s₁ h₁ => ?_) (fun _ _ h => h.logged)
    fun _ h => h))
  refine spec_bind.mpr ((along_call _ s₁).mono (fun _ s₂ h₂ => ?_) (fun _ _ h => (h₁.1.trans h).logged) fun _ h => h)
  have h : Idle s s₂ := h₁.1.trans h₂.1
  rw [Prog.spec_modify, h]
  exact ⟨⟨rfl, rfl, (List.append_nil _).symm⟩, rfl⟩

/-- **A dummy plugin is created whole, under a free name, or not at all.** -/
theorem spec_publishDummyPlugin {root destination : Path} {bytes : Bytes} :
    Spec (publishDummyPlugin seams root destination bytes) s
      (fun published s' => (published.completed = false ∧ Logged [] s s') ∨
        ∃ released, published.completed = released ∧ PluginCreated root destination bytes released s s')
      (fun _ s' => Logged [] s s') fun _ => False := by
  refine spec_bind.mpr (spec_stageForPublication.mono (fun receipt s₁ h₁ => ?_) (fun _ _ h => h) fun _ h => h)
  refine spec_bind.mpr (spec_stageDummyBytes.mono (fun _ s₂ h₂ => ?_) (fun _ _ h => h₁.1.trans h) fun _ h => h)
  have h : Logged [] s s₂ := h₁.1.trans h₂.1
  have hstaged : s₂.staged[receipt]?.getD [] = bytes := by
    rw [h₂.2, List.getElem?_set_self h₁.2, Option.getD_some]
  refine spec_bind.mpr ((spec_publishReceipt receipt destination).mono ?_ (fun _ _ h => h.elim) fun _ h => h)
  rintro result s₃ (⟨hstate, h₃⟩ | ⟨released, hstate, hlog, hprogress, -, hcreate⟩)
  · simp only [PublicationResult.mutation, hstate]
    exact .inl ⟨rfl, h.idle h₃⟩
  · have hcommitted : result.mutation = .committed := by
      cases released <;> simp [PublicationResult.mutation, hstate]
    rw [if_pos hcommitted]
    refine .inr ⟨released, ?_, ⟨receipt, ?_⟩, ?_, ?_, ?_⟩
    · cases released <;> simp [hstate]
    · show s₃.log = _
      rw [hlog, h.log, List.append_nil]
    · rw [h.disk, hstaged] at hcreate
      exact hcreate
    · show s₃.progress.progress = _
      rw [hprogress, h.progress]
    · show s₃.progress.account.mutations ++ _ = _
      rw [hprogress, h.progress]

/-! ## A published Archive loads -/

/-- What an event of an output's attempt does to the tree, or finds in it. -/
def AttemptStep (plan : FinalizationPlan) (output : FinalizationOutput) : Event → Disk V → Disk V → Prop
  | .packed _, disk, disk' => disk' = disk
  | .published _ destination _, disk, disk' => ∃ data q,
      disk.create destination (.leaf (.file data 1)) = some (q, disk') ∧
        (destination = output.archivePath ∨ destination ∈ output.loadingPluginPaths ∧ data = plan.rules.dummyPlugin)
  | .pluginPinned plugin, disk, disk' => disk' = disk ∧ plugin ∈ output.loadingPluginPaths ∧
      ∃ q data links, disk.find plugin = some (q, .leaf (.file data links)) ∧ data ≠ []
  | .removed path, disk, disk' => SourceFilePin.deleteFile path disk = .ok disk' ∧ plan.deleteSources = true ∧
      ∃ file ∈ output.archive.files, file.path = path
  | .listed archive, disk, disk' => disk' = disk ∧ archive = output.archivePath
  | .unloaded, disk, disk' => disk' = disk
  | .readWhole path, disk, disk' => disk' = disk ∧ ∃ q data links, disk.find path = some (q, .leaf (.file data links))
  | .extracted .., _, _ => False
  | .renamed .., _, _ => False
  | .repinned _, _, _ => False
  | .pruned _, _, _ => False

/-- An event of what is done for an Archive to load: a plugin created under one of these names, or pinned there. -/
def IsLoad (names : List Path) : Event → Prop
  | .published _ destination _ => destination ∈ names
  | .pluginPinned plugin => plugin ∈ names
  | _ => False

/-- The plugin creations that some events show. -/
def creations (root : Path) (events : List Event) : List ArchiveFinalizationMutation :=
  events.filterMap fun
    | .published _ destination _ => some ⟨root, destination, .pluginCreation, .committed, 1, Nat.one_pos⟩
    | _ => none

/-- Plugin events happened, and joined the account. -/
structure Loading (plan : FinalizationPlan) (output : FinalizationOutput) (events : List Event)
    (s s' : Site V Finalization) : Prop where
  did : Did (AttemptStep plan output) events s s'
  loads : ∀ event ∈ events, IsLoad output.loadingPluginPaths event
  progress : s'.progress.progress = s.progress.progress
  account : s'.progress.account.mutations = s.progress.account.mutations ++ creations output.modRoot events

variable {plan : FinalizationPlan} {output : FinalizationOutput} {events events' : List Event}

theorem loading_logged (h : Logged [] s s') : Loading plan output [] s s' :=
  ⟨h.did (by simp), by simp, by rw [h.progress], by simp [h.progress, creations]⟩

theorem Loading.trans (h : Loading plan output events s s') (h' : Loading plan output events' s' s'') :
    Loading plan output (events ++ events') s s'' := by
  refine ⟨h.did.trans h'.did, fun event hevent => ?_, h'.progress.trans h.progress, ?_⟩
  · exact (List.mem_append.mp hevent).elim (h.loads event) (h'.loads event)
  · rw [h'.account, h.account, creations, creations, creations, List.filterMap_append, List.append_assoc]

theorem PluginCreated.loading {destination : Path} {released : Bool} (hin : destination ∈ output.loadingPluginPaths)
    (h : PluginCreated output.modRoot destination plan.rules.dummyPlugin released s s') :
    ∃ events, Loading plan output events s s' := by
  obtain ⟨receipt, hlog⟩ := h.log
  obtain ⟨q, hcreate⟩ := h.tree
  refine ⟨[.published receipt destination released], ⟨hlog, trace_singleton.mpr ?_⟩, ?_, h.progress, h.mutations⟩
  · exact ⟨_, q, hcreate, .inr ⟨hin, rfl⟩⟩
  · intro event hevent
    rw [List.mem_singleton.mp hevent]
    exact hin

/-- **The plugin ensured is one that loads the Archive, and at most a dummy plugin was created for it.** -/
theorem spec_ensureOutputLoadingPlugin :
    Spec (ensureOutputLoadingPlugin seams plan output) s
      (fun plugin s' => plugin ∈ output.loadingPluginPaths ∧ ∃ events, Loading plan output events s s')
      (fun _ s' => ∃ events, Loading plan output events s s') fun _ => False := by
  have hidle : ∀ s', Idle s s' → ∃ events, Loading plan output events s s' := fun s' h => ⟨[], loading_logged h.logged⟩
  unfold ensureOutputLoadingPlugin
  dsimp only
  cases hlast : output.loadingPluginPaths.getLast? with
  | none => exact hidle s (.refl s)
  | some plugin =>
    have hplugin : plugin ∈ output.loadingPluginPaths := List.mem_of_getLast? hlast
    refine spec_bind.mpr ((reads_findLoadingPlugin _ _ _ s rfl).mono ?_ (fun _ s' h => hidle s' h) fun _ h => h)
    rintro elsewhere s₁ ⟨h₁, helsewhere⟩
    cases elsewhere with
    | some loaded => exact ⟨helsewhere loaded rfl, hidle s₁ h₁⟩
    | none =>
      refine spec_bind.mpr ((reads_dummyDestination hplugin s₁ rfl).mono ?_ (fun _ s' h => hidle s' (h₁.trans h))
        fun _ h => h)
      rintro destination s₂ ⟨h₂, hdestination⟩
      have htail : ∀ (occupied : Bool) (s₃ : Site V Finalization), Idle s s₃ →
          Spec (if occupied = true then occupiedPlugin seams output plugin plan.rules.dummyPlugin
            else do
              let published ← publishDummyPlugin seams output.modRoot destination plan.rules.dummyPlugin
              if published.completed then return destination else failWith published.detail) s₃
            (fun plugin s' => plugin ∈ output.loadingPluginPaths ∧ ∃ events, Loading plan output events s s')
            (fun _ s' => ∃ events, Loading plan output events s s') fun _ => False := by
        intro occupied s₃ h
        have hlater : ∀ s', (∃ events, Loading plan output events s₃ s') →
            ∃ events, Loading plan output events s s' := by
          rintro s' ⟨events, h'⟩
          exact ⟨[] ++ events, (loading_logged h.logged).trans h'⟩
        split_ifs
        · refine (reads_occupiedPlugin _ _ _ s₃ rfl).mono ?_ (fun _ s' h' => hidle s' (h.trans h')) fun _ h => h
          rintro _ s' ⟨h', rfl⟩
          exact ⟨hplugin, hidle s' (h.trans h')⟩
        · refine spec_bind.mpr (spec_publishDummyPlugin.mono ?_
            (fun _ s' h' => hlater s' ⟨[], loading_logged h'⟩) fun _ h => h)
          rintro published s' (⟨hcompleted, h'⟩ | ⟨released, hcompleted, h'⟩)
          · rw [hcompleted]
            exact hlater s' ⟨[], loading_logged h'⟩
          · rw [hcompleted]
            cases released with
            | true => exact ⟨hdestination, hlater s' (h'.loading hdestination)⟩
            | false => exact hlater s' (h'.loading hdestination)
      have h₁₂ : Idle s s₂ := h₁.trans h₂
      split_ifs
      · exact spec_bind.mpr ((reads_entryExists plugin s₂ rfl).mono (fun occupied s₃ h₃ => htail occupied s₃ (h₁₂.trans h₃.1))
          (fun _ s' h => hidle s' (h₁₂.trans h)) fun _ h => h)
      · exact htail false s₂ h₁₂

/-- **A plugin pinned is an ordinary file that is not empty.** -/
theorem spec_loadingPluginPin {s : Site V P} {plugin root : Path} :
    Spec (loadingPluginPin seams.toSeams plugin root) s
      (fun _ s' => Logged [.pluginPinned plugin] s s' ∧
        ∃ q data links, s.disk.find plugin = some (q, .leaf (.file data links)) ∧ data ≠ [])
      (fun _ s' => Idle s s') fun _ => False := by
  refine spec_bind.mpr ((along_pinDirectories _ _ _ s).mono (fun _ s₁ h₁ => ?_) (fun _ _ h => h) fun _ h => h)
  refine spec_bind.mpr ((along_openPin _ _ s₁).mono (fun _ s₂ h₂ => ?_) (fun _ _ h => h₁.1.trans h) fun _ h => h)
  have h : Idle s s₂ := h₁.1.trans h₂.1
  refine spec_bind.mpr ((reads_factsOf _ _ s₂ rfl).mono ?_ (fun _ _ h' => h.trans h') fun _ h => h)
  rintro facts s₃ ⟨h₃, hfacts⟩
  split_ifs with hfile
  · refine ⟨(h.trans h₃).then ⟨rfl, rfl, rfl⟩, ?_⟩
    rw [h.disk] at hfacts
    unfold entryAt at hfacts
    split at hfacts
    · next q node hfind =>
      cases hfacts
      rw [hfind]
      simp only [Bool.and_eq_true] at hfile
      obtain ⟨hordinary, hsize⟩ := hfile
      revert hordinary hsize
      rcases facts with ⟨_ | (⟨data, links⟩ | _ | _), stamp⟩ <;>
        simp [FileFacts.isOrdinaryFile, FileFacts.size]
    · cases hfacts
  · exact h.trans h₃

end Cao.Finalize
