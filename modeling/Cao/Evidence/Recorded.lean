import Cao.Evidence.Sealed

/-!
# Operations that nothing refuses

What an operation on the evidence does where its preconditions hold: it is accepted, changes the phases in one way and
the other facts in one way, whatever the sink does.

* `Storage.facts`: what is retained, but for the phases and the diagnostics;
* `Orderly`: the evidence is sound and publishable, which every operation keeps (**`orderly_run`**);
* `Exactly`, `Recorded`: what an accepted operation leaves;
* **`exactly_recordPhase`**, **`exactly_openAttemptPhase`**, **`exactly_recordAttemptProgress`** and the others: when each
  is accepted.
-/

namespace Cao.Evidence

open Finalize Pack
open Prog (Keeps Spec spec_bind)

variable {checks : OverflowChecks} {sink : Option RunObservationSink} {evidence evidence' : MutableRunEvidence}
variable {f g : Storage → Storage} {phases : List RunPhaseRecord}

/-- What is retained, but for the phases and the diagnostics. -/
def Storage.facts (storage : Storage) : Storage := { storage with phases := [], diagnostics := [] }

/-! ## Order -/

/-- The evidence is sound, and every publication that is due is retained. -/
structure Orderly (checks : OverflowChecks) (evidence : MutableRunEvidence) : Prop where
  sound : Sound checks evidence
  publishable : Publishable evidence

theorem orderly_new : Orderly checks .new := ⟨sound_new, publishable_new⟩

/-- **Every operation keeps the evidence orderly.** -/
theorem orderly_run (operation : Operation) (h : Orderly checks evidence) :
    Spec (operation.run checks sink) evidence (fun _ => Orderly checks) (fun _ => Orderly checks) fun _ => False := by
  have hsettles : Settles checks (operation.run checks sink) evidence := settles_run operation h.sound
  refine (hsettles.and (keeps_publishable operation evidence h.publishable)).mono ?_ ?_ fun _ h => h.1
  · exact fun _ _ hboth => ⟨hboth.1, hboth.2⟩
  · exact fun _ _ hboth => ⟨hboth.1.1, hboth.2⟩

/-- No record is of a phase after the current one. -/
theorem Sound.unopened {latest : RunPhaseRecord} {phase : RunPhase} (h : Sound checks evidence)
    (hlast : evidence.storage.phases.getLast? = some latest) (hlt : latest.phase < phase) :
    evidence.storage.phase phase = none := by
  refine List.find?_eq_none.mpr fun record hrecord heq => ?_
  rw [decide_eq_true_eq] at heq
  have hordered := h.ordered
  rw [← List.dropLast_append_getLast? latest hlast, List.map_append, List.pairwise_append] at hordered
  rw [← List.dropLast_append_getLast? latest hlast] at hrecord
  rcases List.mem_append.mp hrecord with hbefore | hrecord
  · have hbelow := hordered.2.2 _ (List.mem_map_of_mem hbefore) _ (List.mem_singleton_self _)
    exact absurd (heq ▸ hbelow) (not_lt.mpr hlt.le)
  · rw [List.mem_singleton.mp hrecord] at heq
    exact absurd heq hlt.ne

/-- Every phase is at or before the current one. -/
theorem Sound.le_current {latest record : RunPhaseRecord} (h : Sound checks evidence)
    (hlast : evidence.storage.phases.getLast? = some latest) (hrecord : record ∈ evidence.storage.phases) :
    record.phase ≤ latest.phase := by
  have hordered := h.ordered
  rw [← List.dropLast_append_getLast? latest hlast, List.map_append, List.pairwise_append] at hordered
  rw [← List.dropLast_append_getLast? latest hlast] at hrecord
  rcases List.mem_append.mp hrecord with hbefore | hrecord
  · exact (hordered.2.2 _ (List.mem_map_of_mem hbefore) _ (List.mem_singleton_self _)).le
  · rw [List.mem_singleton.mp hrecord]

/-! ## What an accepted operation leaves -/

/-- An operation is accepted: the phases become these, and the facts become what `f` makes of them. -/
abbrev Exactly (f : Storage → Storage) (phases : List RunPhaseRecord) (x : Recording Unit)
    (evidence : MutableRunEvidence) : Prop :=
  Spec x evidence (fun _ evidence' => evidence'.storage.facts = (f evidence.storage).facts ∧
    evidence'.storage.phases = phases) (fun _ _ => False) fun _ => False

/-- What an accepted operation leaves of orderly evidence. -/
structure Recorded (checks : OverflowChecks) (f : Storage → Storage) (phases : List RunPhaseRecord)
    (evidence evidence' : MutableRunEvidence) : Prop where
  orderly : Orderly checks evidence'
  facts : evidence'.storage.facts = (f evidence.storage).facts
  phases : evidence'.storage.phases = phases

/-- **An accepted operation leaves the evidence orderly.** -/
theorem recorded_run (operation : Operation) (h : Orderly checks evidence)
    (hexactly : Exactly f phases (operation.run checks sink) evidence) :
    Spec (operation.run checks sink) evidence (fun _ => Recorded checks f phases evidence) (fun _ _ => False)
      fun _ => False :=
  (hexactly.and (orderly_run operation h)).mono (fun _ _ hboth => ⟨hboth.2, hboth.1.1, hboth.1.2⟩)
    (fun _ _ hboth => hboth.1) fun _ hboth => hboth.1

theorem exactly_getStorage {x : Storage → Recording Unit} (h : Exactly f phases (x evidence.storage) evidence) :
    Exactly f phases (getStorage >>= x) evidence := h

theorem exactly_require {holds : Bool} {message : String} {x : Unit → Recording Unit} (hholds : holds = true)
    (h : Exactly f phases (x ()) evidence) : Exactly f phases (require holds message >>= x) evidence := by
  subst hholds
  exact h

theorem exactly_ofExcept {α : Type} {r : Except (Thrown String) α} {a : α} {x : α → Recording Unit} (hr : r = .ok a)
    (h : Exactly f phases (x a) evidence) : Exactly f phases (Prog.ofExcept r >>= x) evidence := by
  subst hr
  exact h

theorem exactly_retain (hphases : (f evidence.storage).phases = evidence.storage.phases) :
    Exactly f evidence.storage.phases (retain f) evidence := ⟨rfl, hphases⟩

/-- A fact is retained, and then an operation that changes nothing else. -/
theorem exactly_retain_bind {x : Unit → Recording Unit}
    (h : Exactly id phases (x ()) { evidence with storage := f evidence.storage }) :
    Exactly f phases (retain f >>= x) evidence := h

theorem exactly_reportSafely (phase : RunPhase) (panicked : Option String) :
    Exactly id evidence.storage.phases (reportSafely phase panicked) evidence := by
  cases panicked with
  | none => exact ⟨rfl, rfl⟩
  | some detail => exact ⟨rfl, rfl⟩

theorem exactly_publish (phase : RunPhase) (publication : Publication) :
    Exactly id evidence.storage.phases (publish sink phase publication) evidence := by
  cases sink with
  | none => exact ⟨rfl, rfl⟩
  | some sink =>
    have hreported := @exactly_reportSafely { evidence with offered := evidence.offered ++ [publication] } phase
    exact hreported _

/-- No publication takes a diagnostic away. -/
theorem length_publish (phase : RunPhase) (publication : Publication) :
    Spec (publish sink phase publication) evidence
      (fun _ evidence' => evidence.storage.diagnostics.length ≤ evidence'.storage.diagnostics.length)
      (fun _ _ => False) fun _ => False := by
  cases sink with
  | none => exact Nat.le_refl _
  | some sink =>
    show Spec (reportSafely phase (sink evidence.offered publication)) _ _ _ _
    cases sink evidence.offered publication with
    | none => exact Nat.le_refl _
    | some detail =>
      show evidence.storage.diagnostics.length ≤ (evidence.storage.diagnostics ++ [_]).length
      rw [List.length_append]
      exact Nat.le_add_right _ _

/-- **Every publication that is due is published**, and nothing panics. -/
theorem exactly_publishDiagnostics (h : Publishable evidence) :
    Exactly id evidence.storage.phases (publishDiagnostics sink) evidence := by
  refine spec_bind.mpr (Prog.spec_get.mpr ?_)
  have hloop := Prog.Spec.forEach (f := publishDiagnostic sink) (E := fun _ _ => False) (C := fun _ => False)
    (I := fun _ due evidence' => (evidence'.storage.facts = evidence.storage.facts ∧
      evidence'.storage.phases = evidence.storage.phases) ∧
      ∀ index ∈ due, index < evidence'.storage.diagnostics.length) ?_ []
      (evidence.diagnosticPublications.drop evidence.publishedDiagnostics) (s := evidence)
      ⟨⟨rfl, rfl⟩, fun index hindex => h index (List.mem_of_mem_drop hindex)⟩
  · exact hloop.mono (fun _ _ h => h.1) (fun _ _ h => h) fun _ h => h
  · rintro _ index due evidence' ⟨hsame, hdue⟩
    refine spec_bind.mpr (spec_bind.mpr (spec_getStorage.mpr ?_))
    have hlt : index < evidence'.storage.diagnostics.length := hdue index List.mem_cons_self
    rw [List.getElem?_eq_getElem hlt]
    refine ((exactly_publish _ _).and (length_publish _ _)).mono (fun _ evidence'' hpublished => ⟨⟨?_, ?_⟩, ?_⟩)
      (fun _ _ h => h.1) fun _ h => h.1
    · exact hpublished.1.1.trans hsame.1
    · exact hpublished.1.2.trans hsame.2
    · exact fun other hother => lt_of_lt_of_le (hdue other (List.mem_cons_of_mem _ hother)) hpublished.2

theorem exactly_retainDiagnostic (diagnostic : RunDiagnostic) :
    Exactly id evidence.storage.phases (retainDiagnostic diagnostic) evidence := ⟨rfl, rfl⟩

theorem exactly_recordDiagnostic (diagnostic : RunDiagnostic) (h : Publishable evidence) :
    Exactly id evidence.storage.phases (recordDiagnostic sink diagnostic) evidence := by
  have hretained : Publishable (retainDiagnostic diagnostic evidence).2 := keeps_retainDiagnostic diagnostic evidence h
  exact spec_bind.mpr (exactly_publishDiagnostics hretained)

theorem exactly_recordFailure (failure : RunFailure) :
    Exactly (fun storage => { storage with failures := storage.failures ++ [failure] }) evidence.storage.phases
      (recordFailure sink failure) evidence := exactly_retain_bind (exactly_publish _ _)

/-! ## Transitions -/

/-- A transition that its checks accept. -/
theorem exactly_acceptPhase {record : RunPhaseRecord} (hvalid : validateProgress checks record = .ok ())
    (htraverse : traverse checks evidence.storage.phases record = .ok phases) :
    Exactly id phases (acceptPhase checks sink record) evidence := by
  refine exactly_ofExcept hvalid (exactly_getStorage (exactly_ofExcept htraverse ?_))
  exact @exactly_publish _ { evidence with storage := { evidence.storage with phases } } _ _

/-- A record comes first, of a phase a traversal may begin at, or after records of earlier phases. -/
def Enters (phases : List RunPhaseRecord) (phase : RunPhase) : Prop :=
  phases = [] ∧ (phase = .preparing ∨ phase = .safetyCleanup) ∨
    ∃ latest, phases.getLast? = some latest ∧ latest.phase < phase

theorem traverse_of_enters {record : RunPhaseRecord} (h : Enters phases record.phase)
    (hzero : beginsAtZero checks record = .ok ()) : traverse checks phases record = .ok (phases ++ [record]) := by
  rcases h with ⟨rfl, hfirst⟩ | ⟨latest, hlast, hlt⟩
  · unfold traverse
    rw [List.getLast?_nil]
    dsimp only
    rw [if_neg (by rintro ⟨hpreparing, hcleanup⟩; exact hfirst.elim hpreparing hcleanup), hzero]
    rfl
  · exact traverse_enters hlast hlt hzero

/-- **A phase with no progress is recorded.** -/
theorem exactly_recordPhase {record : RunPhaseRecord} (henters : Enters evidence.storage.phases record.phase)
    (hprogress : record.progress = none) (hexecuted : record.status ≠ .executed ∨ record.phase ∉ attemptBearingPhases)
    (hplanned : record.status ≠ .planned ∨ record.phase ∈ plannablePhases) :
    Exactly id (evidence.storage.phases ++ [record]) (recordPhase checks sink record) evidence := by
  refine exactly_require (decide_eq_true hexecuted) (exactly_require (decide_eq_true hplanned) ?_)
  refine exactly_acceptPhase ?_ (traverse_of_enters henters ?_)
  · rw [validateProgress, hprogress]
  · rw [beginsAtZero, hprogress]

/-- **A phase that bears attempts is opened** after an earlier one. -/
theorem exactly_openAttemptPhase {record latest : RunPhaseRecord} (h : Sound checks evidence)
    (hlast : evidence.storage.phases.getLast? = some latest) (hlt : latest.phase < record.phase)
    (hvalid : validateProgress checks record = .ok ()) (hzero : beginsAtZero checks record = .ok ()) :
    Exactly id (evidence.storage.phases ++ [record]) (openAttemptPhase checks sink record) evidence := by
  refine exactly_getStorage (exactly_require ?_ (exactly_acceptPhase hvalid (traverse_enters hlast hlt hzero)))
  rw [h.unopened hlast hlt]
  rfl

/-- **Archive Finalization is planned** once it is open. -/
theorem exactly_planArchiveFinalization {before : List RunPhaseRecord} (total : UInt64)
    (hphases : evidence.storage.phases = before ++ [.executed .archiveFinalization none])
    (hunfinished : evidence.storage.archiveFinalizationCompleted = false) :
    Exactly (fun storage => { storage with archiveFinalization := some .default })
      (before ++ [.executed .archiveFinalization (some (zero total))])
      (planArchiveFinalization checks sink total) evidence := by
  refine exactly_getStorage (exactly_require ?_ (exactly_retain_bind (exactly_acceptPhase (validateProgress_zero _ _) ?_)))
  · simp [hunfinished, hphases, Storage.isCurrently, RunPhaseRecord.phase, RunPhaseRecord.status, RunPhaseRecord.progress]
  · show traverse checks evidence.storage.phases _ = _
    rw [hphases]
    refine traverse_replaces rfl ?_
    have hvalid := @validateProgress_zero checks .archiveFinalization total
    unfold zero at hvalid
    unfold validateReplacement
    rw [if_neg (by simp [RunPhaseRecord.status, RunPhaseRecord.skipReason]), hvalid]
    exact beginsAtZero_zero checks _ _

/-- Archive Finalization is finished while it is open. -/
theorem exactly_finishArchiveFinalization {before : List RunPhaseRecord} {progress : Option RunProgress}
    (account : ArchiveFinalizationAccount)
    (hphases : evidence.storage.phases = before ++ [.executed .archiveFinalization progress])
    (hunfinished : evidence.storage.archiveFinalizationCompleted = false) :
    Exactly (fun storage =>
      { storage with
        archiveFinalization := some (.fromParts
          ((storage.archiveFinalization.map ArchiveFinalizationResult.attempts).getD []) account)
        cancellationObserved := storage.cancellationObserved || account.cancelled
        archiveFinalizationCompleted := true }) evidence.storage.phases (finishArchiveFinalization account) evidence := by
  refine exactly_getStorage (exactly_require ?_ (exactly_retain rfl))
  simp [hunfinished, hphases, Storage.isCurrently, RunPhaseRecord.phase, RunPhaseRecord.status]

/-- Progress has room for so many more attempts. -/
def RunProgress.Room (progress : RunProgress) (left : Nat) : Prop :=
  progress.succeeded.toNat + progress.failed.toNat + left ≤ progress.total.toNat

/-- Progress that begins at zero has room for its total. -/
theorem room_zero {n : Nat} (h : n < u64Size) : (zero (.ofNatLT n h)).Room n := by
  show 0 + 0 + n ≤ n
  omega

/-- **An attempt is recorded** in its open phase, while the total has room for it. -/
theorem exactly_recordAttemptProgress {attempt : PhaseAttempt} {before : List RunPhaseRecord} {progress : RunProgress}
    {left : Nat} (hphases : evidence.storage.phases = before ++ [.executed attempt.phase (some progress)])
    (hroom : progress.Room (left + 1)) :
    ∃ after : RunProgress, after.Room left ∧
      Exactly (fun storage => attempt.retain storage) (before ++ [.executed attempt.phase (some after)])
        (recordAttemptProgress checks sink attempt) evidence := by
  have hcurrent : currentProgress evidence.storage attempt = .ok progress := by
    simp [currentProgress, hphases, RunPhaseRecord.phase, RunPhaseRecord.status, RunPhaseRecord.progress]
  unfold RunProgress.Room at hroom
  have hless : progress.succeeded.toNat + progress.failed.toNat < progress.total.toNat := by omega
  have hbounded : progress.Bounded checks := RunProgress.bounded_iff.mpr hless.le
  obtain ⟨completed, hcompleted, hexact, -⟩ := hbounded
  have hlt : completed < progress.total := UInt64.lt_iff_toNat_lt.mpr (hexact ▸ hless)
  obtain ⟨after, hafter⟩ := advances_of_lt hcurrent (RunProgress.bounded_iff.mpr hless.le) hcompleted hlt
  obtain ⟨after', hafter', htotal, -⟩ := @RunProgress.advanced_ok checks _ attempt.succeeded hless
  obtain rfl : after = after' := Except.ok.inj (hafter.advanced.symm.trans hafter')
  refine ⟨after, ?_, ?_⟩
  · have hsucceeded := hafter.succeeded
    have hfailed := hafter.failed
    unfold RunProgress.Room
    rw [hsucceeded, hfailed, htotal]
    cases attempt.succeeded <;> simp <;> omega
  · refine exactly_getStorage (exactly_ofExcept hcurrent (exactly_ofExcept hcompleted ?_))
    refine exactly_require (decide_eq_true hlt) (exactly_retain_bind (exactly_ofExcept hafter.advanced ?_))
    have htraversed := hafter.traversed
    rw [hphases, List.dropLast_concat] at htraversed
    refine exactly_acceptPhase hafter.valid ?_
    show traverse checks (attempt.retain evidence.storage).phases _ = _
    rw [attempt.retain_phases, hphases]
    exact htraversed

/-- **The Routing Ledger opens Processing Assets** after a complete, successful discovery. -/
theorem exactly_openProcessingAssets {ledger : RoutingLedger} {latest : RunPhaseRecord} (h : Sound checks evidence)
    (hlast : evidence.storage.phases.getLast? = some latest) (hlatest : latest.phase = .buildingEffectiveAssetTree)
    (hcomplete : evidence.storage.archiveDiscoveryComplete = true) (hunfailed : evidence.storage.failures = [])
    (hunrouted : evidence.storage.routingLedger = none) :
    Exactly (fun storage => { storage with routingLedger := some ledger })
      (evidence.storage.phases ++ [.executed .processingAssets
        (some (zero (.ofNatLT ledger.routedAssets.length ledger.fits)))]) (openProcessingAssets checks sink ledger)
      evidence := by
  have hcurrent : evidence.storage.currentPhase = some .buildingEffectiveAssetTree := by
    rw [Storage.currentPhase, hlast, Option.map_some, hlatest]
  refine exactly_getStorage (exactly_require ?_ (exactly_require ?_ (exactly_retain_bind ?_)))
  · simp [hcurrent, hcomplete, hunfailed]
  · simp [hunrouted]
  · have hrouted : Sound checks
        { evidence with storage := { evidence.storage with routingLedger := some ledger } } := h.congr rfl
    refine exactly_openAttemptPhase hrouted hlast ?_ (validateProgress_zero _ _) (beginsAtZero_zero checks _ _)
    rw [hlatest]
    exact (by decide : RunPhase.buildingEffectiveAssetTree < .processingAssets)

end Cao.Evidence
