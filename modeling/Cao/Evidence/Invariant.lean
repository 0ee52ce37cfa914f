import Cao.Evidence.Store
import Cao.Lib.Trace

/-!
# Phases and progress of the evidence

Over every run of operations on the evidence, accepted or not: the phases traversed, their progress and the attempts
retained.

* `Accounted`: the phases strictly increase, progress stays in its total and counts the retained attempts;
* `Follows`, `Continues`: what a record may become, and what the evidence may;
* `Untouched`: neither phases nor attempts change;
* `spec_acceptPhase`: what a phase transition does;
* **`evidence_accounts`**: every run keeps its accounts, where no operation's progress overflows.
-/

namespace Cao.Evidence

open Prog (Along Keeps Spec spec_bind along_pure along_fail)

variable {checks : OverflowChecks} {sink : Option RunObservationSink}

/-! ## Accounts -/

/-- Whether each retained attempt of a phase succeeded. -/
def Storage.outcomes (storage : Storage) : RunPhase → List Bool
  | .extractingArchives => storage.archiveExtractionAttempts.map fun attempt => attempt.outcome.isSuccess
  | .processingAssets => storage.assetAttempts.map fun attempt => attempt.result.outcome.isSuccess
  | .archiveFinalization =>
    ((storage.archiveFinalization.map ArchiveFinalizationResult.attempts).getD []).map fun attempt =>
      attempt.outcome.isSuccess
  | _ => []

/-- Progress completed the attempts that succeeded and those that failed, at most its total. -/
def RunProgress.Bounded (checks : OverflowChecks) (progress : RunProgress) : Prop :=
  ∃ completed, progress.completed checks = .ok completed ∧
    completed.toNat = progress.succeeded.toNat + progress.failed.toNat ∧ completed ≤ progress.total

/-- Progress counts the attempts of its phase; where there is none, there are no attempts. -/
def Counts (outcomes : List Bool) : Option RunProgress → Prop
  | none => outcomes = []
  | some progress => outcomes.length = progress.succeeded.toNat + progress.failed.toNat ∧
      outcomes.count true = progress.succeeded.toNat ∧ outcomes.count false = progress.failed.toNat

/-- The accounts of some phases are right. -/
structure AccountedFor (checks : OverflowChecks) (among : RunPhase → Prop) (storage : Storage) : Prop where
  ordered : (storage.phases.map RunPhaseRecord.phase).Pairwise (· < ·)
  bounded : ∀ record ∈ storage.phases, ∀ progress, record.progress = some progress → progress.Bounded checks
  idle : ∀ record ∈ storage.phases, record.status ≠ .executed → record.progress = none
  counted : ∀ record ∈ storage.phases, among record.phase → record.phase ∈ attemptBearingPhases →
    Counts (storage.outcomes record.phase) record.progress
  untraversed : ∀ phase, among phase → (∀ record ∈ storage.phases, record.phase ≠ phase) → storage.outcomes phase = []

/-- **Phases strictly increase, progress stays in its total and counts the retained attempts.** -/
abbrev Accounted (checks : OverflowChecks) (storage : Storage) : Prop := AccountedFor checks (fun _ => True) storage

/-- What a record may become: its status and skip reason stay, and its progress, once there, keeps its total and only
grows. -/
structure Follows (record record' : RunPhaseRecord) : Prop where
  phase : record'.phase = record.phase
  status : record'.status = record.status
  skipReason : record'.skipReason = record.skipReason
  progress : ∀ before, record.progress = some before → ∃ after, record'.progress = some after ∧
    after.total = before.total ∧ before.succeeded ≤ after.succeeded ∧ before.failed ≤ after.failed

/-- Every record stays, or what it may become does. -/
def Continues (storage storage' : Storage) : Prop :=
  ∀ record ∈ storage.phases, ∃ record' ∈ storage'.phases, Follows record record'

theorem Follows.refl (record : RunPhaseRecord) : Follows record record :=
  ⟨rfl, rfl, rfl, fun before h => ⟨before, h, rfl, UInt64.le_refl _, UInt64.le_refl _⟩⟩

theorem Follows.trans {a b c : RunPhaseRecord} (h : Follows a b) (h' : Follows b c) : Follows a c := by
  refine ⟨h'.phase.trans h.phase, h'.status.trans h.status, h'.skipReason.trans h.skipReason, fun before hbefore => ?_⟩
  obtain ⟨mid, hmid, htotal, hsucceeded, hfailed⟩ := h.progress before hbefore
  obtain ⟨after, hafter, htotal', hsucceeded', hfailed'⟩ := h'.progress mid hmid
  exact ⟨after, hafter, htotal'.trans htotal, UInt64.le_trans hsucceeded hsucceeded',
    UInt64.le_trans hfailed hfailed'⟩

theorem Continues.of_phases {storage storage' : Storage} (h : storage'.phases = storage.phases) :
    Continues storage storage' := fun record hrecord => ⟨record, h ▸ hrecord, .refl record⟩

/-- The evidence continues. -/
def Continuing (evidence evidence' : MutableRunEvidence) : Prop := Continues evidence.storage evidence'.storage

instance : IsPreorder MutableRunEvidence Continuing where
  refl evidence := .of_phases rfl
  trans _ _ _ h h' := fun record hrecord => by
    obtain ⟨mid, hmid, hfollows⟩ := h record hrecord
    obtain ⟨record', hrecord', hfollows'⟩ := h' mid hmid
    exact ⟨record', hrecord', hfollows.trans hfollows'⟩

/-- Neither the phases nor the attempts change. -/
structure Untouched (evidence evidence' : MutableRunEvidence) : Prop where
  phases : evidence'.storage.phases = evidence.storage.phases
  outcomes : evidence'.storage.outcomes = evidence.storage.outcomes

instance : IsPreorder MutableRunEvidence Untouched where
  refl _ := ⟨rfl, rfl⟩
  trans _ _ _ h h' := ⟨h'.phases.trans h.phases, h'.outcomes.trans h.outcomes⟩

theorem Untouched.continuing {evidence evidence' : MutableRunEvidence} (h : Untouched evidence evidence') :
    Continuing evidence evidence' := .of_phases h.phases

theorem AccountedFor.congr {among : RunPhase → Prop} {storage storage' : Storage}
    (h : AccountedFor checks among storage) (hphases : storage'.phases = storage.phases)
    (houtcomes : storage'.outcomes = storage.outcomes) : AccountedFor checks among storage' where
  ordered := hphases ▸ h.ordered
  bounded := hphases ▸ h.bounded
  idle := hphases ▸ h.idle
  counted := hphases ▸ houtcomes ▸ h.counted
  untraversed := hphases ▸ houtcomes ▸ h.untraversed

/-! ## Operations that leave the accounts alone -/

section Untouched

variable {rel : MutableRunEvidence → MutableRunEvidence → Prop} [IsPreorder MutableRunEvidence rel]

theorem along_getStorage : Along rel getStorage fun _ => True := fun evidence => ⟨refl evidence, trivial⟩

theorem along_get : Along rel (Prog.get : Recording MutableRunEvidence) fun _ => True :=
  fun evidence => ⟨refl evidence, trivial⟩

theorem along_require {holds : Bool} {message : String} : Along rel (require holds message) fun _ => holds = true := by
  unfold require
  split_ifs with h
  · exact along_pure h
  · exact along_fail

end Untouched

/-- What a fact's retention leaves alone. -/
theorem along_retain {f : Storage → Storage} (hphases : ∀ storage, (f storage).phases = storage.phases)
    (houtcomes : ∀ storage, (f storage).outcomes = storage.outcomes) : Along Untouched (retain f) fun _ => True :=
  fun evidence => ⟨⟨hphases evidence.storage, houtcomes evidence.storage⟩, trivial⟩

theorem along_retainObserverFailure (phase : RunPhase) (detail : String) :
    Along Untouched (retainObserverFailure phase detail) fun _ => True := by
  unfold retainObserverFailure
  exact along_retain (fun _ => rfl) fun _ => rfl

theorem along_reportSafely (phase : RunPhase) (panicked : Option String) :
    Along Untouched (reportSafely phase panicked) fun _ => True := by
  cases panicked with
  | none => exact along_pure trivial
  | some detail => exact along_retainObserverFailure phase detail

/-- Publishing a fact succeeds, whatever the sink does. -/
theorem spec_publish (phase : RunPhase) (publication : Publication) (evidence : MutableRunEvidence) :
    Spec (publish sink phase publication) evidence (fun _ evidence' => Untouched evidence evidence')
      (fun _ _ => False) fun _ => False := by
  cases sink with
  | none => exact ⟨rfl, rfl⟩
  | some sink =>
    show Spec (reportSafely phase (sink evidence.offered publication)) _ _ _ _
    cases sink evidence.offered publication with
    | none => exact ⟨rfl, rfl⟩
    | some detail => exact ⟨rfl, rfl⟩

theorem along_publish (phase : RunPhase) (publication : Publication) :
    Along Untouched (publish sink phase publication) fun _ => True := fun evidence =>
  (spec_publish phase publication evidence).mono (fun _ _ h => ⟨h, trivial⟩) (fun _ _ h => h.elim) fun _ h => h

theorem along_retainDiagnostic (diagnostic : RunDiagnostic) :
    Along Untouched (retainDiagnostic diagnostic) fun _ => True := fun _ => ⟨⟨rfl, rfl⟩, trivial⟩

theorem along_publishDiagnostic (index : Nat) : Along Untouched (publishDiagnostic sink index) fun _ => True := by
  unfold publishDiagnostic
  refine Along.bind (R := fun _ => True) (fun _ => ⟨⟨rfl, rfl⟩, trivial⟩) fun _ _ => ?_
  refine along_getStorage.bind fun storage _ => ?_
  cases storage.diagnostics[index]? with
  | none => exact along_fail
  | some diagnostic => exact along_publish _ _

theorem along_publishDiagnostics : Along Untouched (publishDiagnostics sink) fun _ => True := by
  unfold publishDiagnostics
  exact along_get.bind fun evidence _ => (Along.forEach along_publishDiagnostic _).mono fun _ _ => trivial

theorem along_retainFailure (failure : RunFailure) : Along Untouched (retainFailure failure) fun _ => True := by
  unfold retainFailure
  exact along_retain (fun _ => rfl) fun _ => rfl

/-- Whether an operation enters or advances a phase. -/
def Operation.traverses : Operation → Bool
  | recordPhase _ | openArchiveExtraction _ | openArchiveFinalization | openProcessingAssets _ => true
  | planArchiveFinalization _ | recordAttempt _ => true
  | _ => false

/-- **An operation that neither enters nor advances a phase leaves the accounts alone.** -/
theorem along_untouched (operation : Operation) (h : operation.traverses = false) :
    Along Untouched (operation.run checks sink) fun _ => True := by
  cases operation with
  | recordPhase | openArchiveExtraction | openArchiveFinalization | openProcessingAssets => simp [Operation.traverses] at h
  | planArchiveFinalization | recordAttempt => simp [Operation.traverses] at h
  | recordDiagnostic diagnostic => exact (along_retainDiagnostic diagnostic).bind fun _ _ => along_publishDiagnostics
  | retainDiagnostic diagnostic => exact along_retainDiagnostic diagnostic
  | publishDiagnostics => exact along_publishDiagnostics
  | recordFailure failure => exact (along_retainFailure failure).bind fun _ _ => along_publish _ _
  | retainFailure failure => exact along_retainFailure failure
  | recordPreparation | recordArchiveCollisions | recordSkippedArchiveCounts | recordNestedArchiveCount =>
    refine along_getStorage.bind fun storage _ => along_require.bind fun _ _ => along_require.bind fun _ _ => ?_
    exact along_retain (fun _ => rfl) fun _ => rfl
  | recordPlannedExtraction =>
    refine along_getStorage.bind fun storage _ => along_require.bind fun _ _ => ?_
    exact along_retain (fun _ => rfl) fun _ => rfl
  | recordOutputPlanBasis | recordPlannedOutput =>
    refine along_getStorage.bind fun storage _ => along_require.bind fun _ _ => along_require.bind fun _ _ => ?_
    exact along_retain (fun _ => rfl) fun _ => rfl
  | recordSafetyCleanupFailure | finishArchiveFinalization =>
    -- finishing writes its account beside the attempts already streamed
    refine along_getStorage.bind fun storage _ => along_require.bind fun _ _ => ?_
    exact along_retain (fun _ => rfl) fun _ => rfl
  | recordCancellationObservation =>
    show Along Untouched recordCancellationObservation _
    unfold recordCancellationObservation
    exact along_retain (fun _ => rfl) fun _ => rfl
  | reportSafely phase panicked => exact along_reportSafely phase panicked

/-! ## Progress -/

variable (checks) in
theorem addUsize_of_lt {a b : UInt64} (h : a.toNat + b.toNat < u64Size) :
    addUsize checks a b = .ok (a + b) ∧ (a + b).toNat = a.toNat + b.toNat := by
  refine ⟨if_neg fun hover => ?_, ?_⟩
  · exact absurd hover.2 (Nat.not_le.mpr h)
  · rw [UInt64.toNat_add]
    exact Nat.mod_eq_of_lt h

/-- A sum that a build with checks accepts, or that is in range, is exact. -/
theorem addUsize_exact {a b c : UInt64} (hfits : checks = .on ∨ a.toNat + b.toNat < u64Size)
    (h : addUsize checks a b = .ok c) : c.toNat = a.toNat + b.toNat := by
  have hlt : a.toNat + b.toNat < u64Size := by
    rcases hfits with rfl | hlt
    · by_contra hover
      rw [addUsize, if_pos ⟨rfl, Nat.not_lt.mp hover⟩] at h
      cases h
    · exact hlt
  obtain ⟨hsum, hexact⟩ := addUsize_of_lt checks hlt
  rw [hsum] at h
  cases h
  exact hexact

theorem RunProgress.bounded_iff {progress : RunProgress} :
    progress.Bounded checks ↔ progress.succeeded.toNat + progress.failed.toNat ≤ progress.total.toNat := by
  constructor
  · rintro ⟨completed, _, hexact, hle⟩
    rw [← hexact]
    exact UInt64.le_iff_toNat_le.mp hle
  · intro h
    have hlt : progress.succeeded.toNat + progress.failed.toNat < u64Size := by
      have := progress.total.toNat_lt
      exact lt_of_le_of_lt h this
    obtain ⟨hsum, hexact⟩ := addUsize_of_lt checks hlt
    exact ⟨_, hsum, hexact, UInt64.le_iff_toNat_le.mpr (hexact ▸ h)⟩

/-- A record's progress does not overflow what it completed. -/
def RunPhaseRecord.Fits (record : RunPhaseRecord) : Prop :=
  ∀ progress, record.progress = some progress → progress.succeeded.toNat + progress.failed.toNat < u64Size

/-- Accepted progress is bounded. -/
theorem bounded_of_validateProgress {record : RunPhaseRecord} (hfits : checks = .on ∨ record.Fits)
    (h : validateProgress checks record = .ok ()) {progress : RunProgress} (hprogress : record.progress = some progress) :
    progress.Bounded checks := by
  unfold validateProgress at h
  rw [hprogress] at h
  cases hcompleted : progress.completed checks with
  | error e => simp [hcompleted] at h
  | ok completed =>
    simp only [hcompleted] at h
    split_ifs at h with hlt
    exact ⟨completed, hcompleted, addUsize_exact (hfits.imp_right fun hfits => hfits progress hprogress) hcompleted,
      UInt64.not_lt.mp hlt⟩

/-! ## Transitions -/

/-- A record takes the place of one of the same phase. -/
structure Replaces (checks : OverflowChecks) (record latest : RunPhaseRecord) : Prop where
  follows : Follows latest record
  begins : latest.progress = none → beginsAtZero checks record = .ok ()

theorem replaces_of_validateReplacement {record latest : RunPhaseRecord} (hphase : latest.phase = record.phase)
    (h : validateReplacement checks latest record = .ok ()) : Replaces checks record latest := by
  unfold validateReplacement at h
  split_ifs at h with hchanged
  rw [not_or, not_not, not_not] at hchanged
  cases hvalid : validateProgress checks record with
  | error e => simp [hvalid] at h
  | ok =>
    simp only [hvalid] at h
    refine ⟨⟨hphase.symm, hchanged.1.symm, hchanged.2.symm, fun before hbefore => ?_⟩, fun hnone => ?_⟩
    · simp only [hbefore] at h
      unfold validateSuccessor at h
      cases hafter : record.progress with
      | none => simp [hafter] at h
      | some after =>
        simp only [hafter] at h
        split_ifs at h with htotal hregress
        rw [not_or] at hregress
        exact ⟨after, rfl, (not_not.mp htotal).symm, UInt64.not_lt.mp hregress.1, UInt64.not_lt.mp hregress.2⟩
    · simpa only [hnone] using h

/-- **What a transition does to the phases**: its record comes after all others, or takes the place of the current
one. -/
theorem traverse_ok {phases phases' : List RunPhaseRecord} {record : RunPhaseRecord}
    (h : traverse checks phases record = .ok phases') :
    (phases' = phases ++ [record] ∧ (∀ latest ∈ phases.getLast?, latest.phase < record.phase) ∧
      beginsAtZero checks record = .ok ()) ∨
    ∃ before latest, phases = before ++ [latest] ∧ phases' = before ++ [record] ∧ latest.phase = record.phase ∧
      Replaces checks record latest := by
  unfold traverse at h
  cases hlast : phases.getLast? with
  | none =>
    left
    obtain rfl := List.getLast?_eq_none_iff.mp hlast
    simp only [List.getLast?_nil] at h
    split_ifs at h
    cases hzero : beginsAtZero checks record with
    | error e => simp [hzero] at h
    | ok =>
      simp only [hzero, Except.ok.injEq] at h
      exact ⟨h.symm, by simp, rfl⟩
  | some latest =>
    simp only [hlast] at h
    split_ifs at h with hsame hle
    · right
      cases hvalid : validateReplacement checks latest record with
      | error e => simp [hvalid] at h
      | ok =>
        simp only [hvalid, Except.ok.injEq] at h
        refine ⟨phases.dropLast, latest, ?_, h.symm, hsame, replaces_of_validateReplacement hsame hvalid⟩
        exact (List.dropLast_append_getLast? latest hlast).symm
    · left
      cases hzero : beginsAtZero checks record with
      | error e => simp [hzero] at h
      | ok =>
        simp only [hzero, Except.ok.injEq] at h
        refine ⟨h.symm, ?_, rfl⟩
        rintro _ ⟨⟩
        exact lt_of_not_ge hle

/-- What a transition does to the evidence. -/
structure Accepted (checks : OverflowChecks) (record : RunPhaseRecord) (evidence evidence' : MutableRunEvidence) :
    Prop where
  valid : validateProgress checks record = .ok ()
  traversed : traverse checks evidence.storage.phases record = .ok evidence'.storage.phases
  outcomes : evidence'.storage.outcomes = evidence.storage.outcomes

/-- A refusal by the checks of a transition. -/
def Refused (checks : OverflowChecks) (record : RunPhaseRecord) (phases : List RunPhaseRecord) (e : Thrown String) :
    Prop := validateProgress checks record = .error e ∨ traverse checks phases record = .error e

/-- **A transition is accepted, or refused with nothing changed.** -/
theorem spec_acceptPhase (record : RunPhaseRecord) (evidence : MutableRunEvidence) :
    Spec (acceptPhase checks sink record) evidence (fun _ evidence' => Accepted checks record evidence evidence')
      (fun e evidence' => evidence' = evidence ∧ Refused checks record evidence.storage.phases e) fun _ => False := by
  unfold acceptPhase
  refine spec_bind.mpr (Prog.spec_ofExcept.mpr ⟨fun _ hvalid => ?_, fun e he => ⟨rfl, .inl he⟩⟩)
  refine spec_bind.mpr ?_
  show Spec _ evidence _ _ _
  refine spec_bind.mpr (Prog.spec_ofExcept.mpr ⟨fun phases hphases => ?_, fun e he => ⟨rfl, .inr he⟩⟩)
  refine spec_bind.mpr ?_
  -- the sink's panic adds a diagnostic, and nothing else
  refine (spec_publish record.phase (.phase record) _).mono (fun _ evidence' h => ?_) (fun _ _ h => h.elim) fun _ h => h
  exact ⟨hvalid, h.phases ▸ hphases, h.outcomes⟩

/-! ## The accounts of a transition -/

variable {among : RunPhase → Prop} {storage storage' : Storage} {record : RunPhaseRecord}

/-- Two records of one phase are one. -/
theorem AccountedFor.unique (h : AccountedFor checks among storage) {record' : RunPhaseRecord}
    (hrecord : record ∈ storage.phases) (hrecord' : record' ∈ storage.phases) (hphase : record.phase = record'.phase) :
    record = record' :=
  List.inj_on_of_nodup_map (h.ordered.imp ne_of_lt) hrecord hrecord' hphase

/-- A phase whose records have no progress has no attempts. -/
theorem AccountedFor.outcomes_nil (h : AccountedFor checks among storage) {phase : RunPhase} (hamong : among phase)
    (hbearing : phase ∈ attemptBearingPhases)
    (hnone : ∀ record ∈ storage.phases, record.phase = phase → record.progress = none) : storage.outcomes phase = [] := by
  by_cases htraversed : ∃ record ∈ storage.phases, record.phase = phase
  · obtain ⟨record, hrecord, rfl⟩ := htraversed
    have := h.counted record hrecord hamong hbearing
    rwa [hnone record hrecord rfl] at this
  · push Not at htraversed
    exact h.untraversed phase hamong htraversed

/-- Where a record ends up: last, after records of earlier phases, all others being of its own phase. -/
theorem traversed {phases phases' : List RunPhaseRecord} (hordered : (phases.map RunPhaseRecord.phase).Pairwise (· < ·))
    (h : traverse checks phases record = .ok phases') :
    ∃ before, phases' = before ++ [record] ∧ before.Sublist phases ∧ (∀ other ∈ before, other.phase < record.phase) ∧
      ∀ other ∈ phases, other ∈ before ∨ other.phase = record.phase := by
  rcases traverse_ok h with ⟨rfl, hlast, -⟩ | ⟨before, latest, rfl, rfl, hphase, -⟩
  · refine ⟨phases, rfl, .refl _, fun other hother => ?_, fun other hother => .inl hother⟩
    rcases phases.eq_nil_or_concat' with rfl | ⟨before, latest, rfl⟩
    · cases hother
    · have hlatest : latest.phase < record.phase := hlast latest (by simp)
      rw [List.map_append, List.pairwise_append] at hordered
      rcases List.mem_append.mp hother with hbefore | hother
      · exact (hordered.2.2 _ (List.mem_map_of_mem hbefore) _ (by simp)).trans hlatest
      · rwa [List.mem_singleton.mp hother]
  · rw [List.map_append, List.pairwise_append] at hordered
    refine ⟨before, rfl, List.sublist_append_left _ _, fun other hother => ?_, fun other hother => ?_⟩
    · exact hphase ▸ hordered.2.2 _ (List.mem_map_of_mem hother) _ (by simp)
    · rcases List.mem_append.mp hother with hbefore | hother
      · exact .inl hbefore
      · exact .inr (List.mem_singleton.mp hother ▸ hphase)

/-- **A transition keeps the accounts**, when its record counts the attempts of its phase. -/
theorem AccountedFor.accept {phase : RunPhase} (h : AccountedFor checks (· ≠ phase) storage)
    (hphase : phase = record.phase) (hfits : checks = .on ∨ record.Fits) (hvalid : validateProgress checks record = .ok ())
    (hcounts : record.phase ∈ attemptBearingPhases → Counts (storage.outcomes record.phase) record.progress)
    (htraverse : traverse checks storage.phases record = .ok storage'.phases)
    (houtcomes : storage'.outcomes = storage.outcomes) : Accounted checks storage' := by
  subst hphase
  obtain ⟨before, hphases, hsub, hlt, hother⟩ := traversed h.ordered htraverse
  have hmem : ∀ other ∈ storage'.phases, (other ∈ storage.phases ∧ other.phase ≠ record.phase) ∨ other = record := by
    intro other hmem
    rw [hphases] at hmem
    rcases List.mem_append.mp hmem with hbefore | hlast
    · exact .inl ⟨hsub.subset hbefore, (hlt other hbefore).ne⟩
    · exact .inr (List.mem_singleton.mp hlast)
  constructor
  · rw [hphases, List.map_append, List.pairwise_append]
    refine ⟨h.ordered.sublist (hsub.map _), by simp, fun phase hphase phase' hphase' => ?_⟩
    obtain ⟨other, hbefore, rfl⟩ := List.mem_map.mp hphase
    rw [List.map_singleton, List.mem_singleton] at hphase'
    exact hphase' ▸ hlt other hbefore
  · intro other hmem' progress hprogress
    rcases hmem other hmem' with ⟨hmem, -⟩ | rfl
    · exact h.bounded other hmem progress hprogress
    · exact bounded_of_validateProgress hfits hvalid hprogress
  · intro other hmem' hstatus
    cases other with
    | executed => exact absurd rfl hstatus
    | skipped => rfl
    | planned => rfl
  · intro other hmem' _ hbearing
    rw [houtcomes]
    rcases hmem other hmem' with ⟨hmem, hne⟩ | rfl
    · exact h.counted other hmem hne hbearing
    · exact hcounts hbearing
  · intro phase _ huntraversed
    rw [houtcomes]
    have hne : phase ≠ record.phase := fun heq => huntraversed record (by simp [hphases]) heq.symm
    refine h.untraversed phase hne fun other hmem heq => ?_
    rcases hother other hmem with hbefore | hsame
    · exact huntraversed other (by simp [hphases, hbefore]) heq
    · exact hne (heq ▸ hsame)

/-- The accounts of all phases but one. -/
theorem AccountedFor.weaken (h : Accounted checks storage) : AccountedFor checks among storage where
  ordered := h.ordered
  bounded := h.bounded
  idle := h.idle
  counted other hother _ := h.counted other hother trivial
  untraversed phase _ := h.untraversed phase trivial

/-- A transition that counts no attempts. -/
theorem AccountedFor.enter (h : Accounted checks storage) (hfits : checks = .on ∨ record.Fits)
    (hvalid : validateProgress checks record = .ok ())
    (hcounts : record.phase ∈ attemptBearingPhases → storage.outcomes record.phase = [] ∧
      ∀ progress, record.progress = some progress → progress.succeeded = 0 ∧ progress.failed = 0)
    (htraverse : traverse checks storage.phases record = .ok storage'.phases)
    (houtcomes : storage'.outcomes = storage.outcomes) : Accounted checks storage' := by
  refine AccountedFor.accept (.weaken h) rfl hfits hvalid (fun hbearing => ?_) htraverse houtcomes
  obtain ⟨hnil, hzero⟩ := hcounts hbearing
  rw [hnil]
  cases hprogress : record.progress with
  | none => rfl
  | some progress =>
    obtain ⟨hsucceeded, hfailed⟩ := hzero progress hprogress
    simp [Counts, hsucceeded, hfailed]

/-! ## What every operation keeps -/

/-- A transition continues the evidence. -/
theorem along_acceptPhase (record : RunPhaseRecord) : Along Continuing (acceptPhase checks sink record) fun _ => True := by
  refine fun evidence => (spec_acceptPhase record evidence).mono (fun _ evidence' h => ⟨?_, trivial⟩)
    (fun _ evidence' h => by rw [h.1]; exact refl evidence) fun _ h => h
  intro other hother
  rcases traverse_ok h.traversed with ⟨hphases, -, -⟩ | ⟨before, latest, hbefore, hphases, -, hreplaces⟩
  · exact ⟨other, by simp [hphases, hother], .refl other⟩
  · rw [hbefore] at hother
    rcases List.mem_append.mp hother with hmem | hlast
    · exact ⟨other, by simp [hphases, hmem], .refl other⟩
    · obtain rfl := List.mem_singleton.mp hlast
      exact ⟨record, by simp [hphases], hreplaces.follows⟩

theorem along_openAttemptPhase (record : RunPhaseRecord) :
    Along Continuing (openAttemptPhase checks sink record) fun _ => True :=
  along_getStorage.bind fun _ _ => along_require.bind fun _ _ => along_acceptPhase record

/-- What leaves the phases alone continues the evidence. -/
theorem continuing_retain {f : Storage → Storage} (h : ∀ storage, (f storage).phases = storage.phases) :
    Along Continuing (retain f) fun _ => True := fun evidence => ⟨.of_phases (h evidence.storage), trivial⟩

theorem along_ofExcept {α : Type} (r : Except (Thrown String) α) :
    Along Continuing (Prog.ofExcept r : Recording α) fun _ => True := fun evidence =>
  Prog.spec_ofExcept.mpr ⟨fun _ _ => ⟨refl evidence, trivial⟩, fun _ _ => refl evidence⟩

/-- **Every operation continues the evidence**, whatever its arguments. -/
theorem along_continuing (operation : Operation) : Along Continuing (operation.run checks sink) fun _ => True := by
  cases h : operation.traverses with
  | false => exact (along_untouched operation h).imp fun _ _ => Untouched.continuing
  | true =>
    cases operation with
    | recordPhase record =>
      exact along_require.bind fun _ _ => along_require.bind fun _ _ => along_acceptPhase record
    | openArchiveExtraction | openArchiveFinalization => exact along_openAttemptPhase _
    | openProcessingAssets ledger =>
      refine along_getStorage.bind fun _ _ => along_require.bind fun _ _ => along_require.bind fun _ _ => ?_
      refine (continuing_retain fun _ => ?_).bind fun _ _ => along_openAttemptPhase _
      rfl
    | planArchiveFinalization total =>
      refine along_getStorage.bind fun _ _ => along_require.bind fun _ _ => ?_
      refine (continuing_retain fun _ => ?_).bind fun _ _ => along_acceptPhase _
      rfl
    | recordAttempt attempt =>
      refine along_getStorage.bind fun _ _ => (along_ofExcept _).bind fun _ _ => (along_ofExcept _).bind fun _ _ => ?_
      refine along_require.bind fun _ _ => (continuing_retain fun storage => ?_).bind fun _ _ => ?_
      · cases attempt <;> rfl
      · exact (along_ofExcept _).bind fun _ _ => along_acceptPhase _
    | _ => simp [Operation.traverses] at h

/-! ## What every operation accounts for -/

section Spec

variable {evidence : MutableRunEvidence} {E : Thrown String → MutableRunEvidence → Prop}
  {C : MutableRunEvidence → Prop}

theorem spec_getStorage {Q : Storage → MutableRunEvidence → Prop} :
    Spec getStorage evidence Q E C ↔ Q evidence.storage evidence := Iff.rfl

theorem spec_require {holds : Bool} {message : String} {Q : Unit → MutableRunEvidence → Prop} :
    Spec (require holds message) evidence Q E C ↔
      (holds = true → Q () evidence) ∧ (holds = false → E (.error message) evidence) := by
  unfold require violation
  cases holds <;> simp

theorem spec_retain {f : Storage → Storage} {Q : Unit → MutableRunEvidence → Prop} :
    Spec (retain f) evidence Q E C ↔ Q () { evidence with storage := f evidence.storage } := Iff.rfl

end Spec

/-- The evidence's accounts are right. -/
def Right (checks : OverflowChecks) (evidence : MutableRunEvidence) : Prop := Accounted checks evidence.storage

/-- A program that leaves the accounts right. -/
abbrev Accounts (checks : OverflowChecks) (x : Recording Unit) (evidence : MutableRunEvidence) : Prop :=
  Spec x evidence (fun _ => Right checks) (fun _ => Right checks) fun _ => False

variable {evidence : MutableRunEvidence}

/-- A transition that counts no attempts leaves the accounts right. -/
theorem accounts_acceptPhase (h : Right checks evidence) (hfits : checks = .on ∨ record.Fits)
    (hcounts : ∀ phases, traverse checks evidence.storage.phases record = .ok phases →
      record.phase ∈ attemptBearingPhases → evidence.storage.outcomes record.phase = [] ∧
        ∀ progress, record.progress = some progress → progress.succeeded = 0 ∧ progress.failed = 0) :
    Accounts checks (acceptPhase checks sink record) evidence := by
  refine (spec_acceptPhase record evidence).mono (fun _ evidence' haccepted => ?_)
    (fun _ evidence' hrefused => hrefused.1 ▸ h) fun _ h => h
  exact h.enter hfits haccepted.valid (hcounts _ haccepted.traversed) haccepted.traversed haccepted.outcomes

/-- Entering an attempt-bearing phase with nothing attempted. -/
theorem accounts_openAttemptPhase {phase : RunPhase} {progress : Option RunProgress} (h : Right checks evidence)
    (hzero : ∀ p, progress = some p → p.succeeded = 0 ∧ p.failed = 0) :
    Accounts checks (openAttemptPhase checks sink (.executed phase progress)) evidence := by
  refine spec_bind.mpr (spec_getStorage.mpr (spec_bind.mpr (spec_require.mpr ⟨fun hnone => ?_, fun _ => h⟩)))
  refine accounts_acceptPhase h (.inr fun p hp => ?_) fun _ _ hbearing => ⟨?_, hzero⟩
  · obtain ⟨hsucceeded, hfailed⟩ := hzero p hp
    simp [hsucceeded, hfailed, u64Size]
  · refine h.untraversed phase trivial fun other hother heq => ?_
    have hfind := List.find?_eq_none.mp (Option.isNone_iff_eq_none.mp hnone) other hother
    exact hfind (decide_eq_true heq)

/-- A recorded phase counts no attempts: an attempt-bearing one is skipped or planned. -/
theorem accounts_recordPhase (h : Right checks evidence) (hfits : checks = .on ∨ record.Fits) :
    Accounts checks (recordPhase checks sink record) evidence := by
  refine spec_bind.mpr (spec_require.mpr ⟨fun hbears => ?_, fun _ => h⟩)
  refine spec_bind.mpr (spec_require.mpr ⟨fun _ => ?_, fun _ => h⟩)
  refine accounts_acceptPhase h hfits fun phases htraverse hbearing => ?_
  have hstatus : record.status ≠ .executed := (of_decide_eq_true hbears).resolve_right fun hnot => hnot hbearing
  have hnone : record.progress = none := by
    cases record with
    | executed => exact absurd rfl hstatus
    | skipped => rfl
    | planned => rfl
  refine ⟨h.outcomes_nil trivial hbearing fun other hother heq => ?_, fun progress hsome => by simp [hnone] at hsome⟩
  rcases traverse_ok htraverse with ⟨hphases, -, -⟩ | ⟨before, latest, hbefore, -, hphase, hreplaces⟩
  · obtain ⟨before, hphases', -, hlt, -⟩ := traversed h.ordered htraverse
    obtain rfl : before = evidence.storage.phases := by simpa using hphases'.symm.trans hphases
    exact absurd heq (hlt other hother).ne
  · have hlatest : latest ∈ evidence.storage.phases := by simp [hbefore]
    obtain rfl := h.unique hother hlatest (heq.trans hphase.symm)
    exact h.idle other hother (hreplaces.follows.status ▸ hstatus)

/-- The current record, when it has the phase and the status. -/
theorem of_isCurrently {phase : RunPhase} {status : RunPhaseStatus} (h : storage.isCurrently phase status = true) :
    ∃ before current, storage.phases = before ++ [current] ∧ current.phase = phase ∧ current.status = status := by
  unfold Storage.isCurrently at h
  obtain ⟨current, hlast, hcurrent⟩ := (Option.any_eq_true _ _).mp h
  exact ⟨storage.phases.dropLast, current, (List.dropLast_append_getLast? current hlast).symm,
    of_decide_eq_true hcurrent⟩

/-- A plan counts no attempts: the phase had none. -/
theorem accounts_planArchiveFinalization (total : UInt64) (h : Right checks evidence) :
    Accounts checks (planArchiveFinalization checks sink total) evidence := by
  refine spec_bind.mpr (spec_getStorage.mpr (spec_bind.mpr (spec_require.mpr ⟨fun hplan => ?_, fun _ => h⟩)))
  simp only [Bool.and_eq_true] at hplan
  obtain ⟨before, current, hphases, hphase, -⟩ := of_isCurrently hplan.1.2
  have hnone : current.progress = none := by simpa [hphases] using hplan.2
  have hnil : evidence.storage.outcomes .archiveFinalization = [] := by
    refine h.outcomes_nil trivial (by decide) fun other hother heq => ?_
    rwa [h.unique hother (by simp [hphases]) (heq.trans hphase.symm)]
  refine spec_bind.mpr (spec_retain.mpr ?_)
  have hsame : ({ evidence.storage with archiveFinalization := some .default } : Storage).outcomes =
      evidence.storage.outcomes := by
    funext phase
    cases phase with
    | archiveFinalization => exact hnil.symm
    | _ => rfl
  refine accounts_acceptPhase (h.congr rfl hsame) (.inr ?_) fun _ _ _ => ⟨rfl, ?_⟩ <;>
    · rintro progress ⟨rfl⟩
      simp [u64Size]

/-- Progress that is not complete advances by one attempt. -/
theorem RunProgress.advanced_ok {progress : RunProgress} (succeeded : Bool)
    (h : progress.succeeded.toNat + progress.failed.toNat < progress.total.toNat) :
    ∃ after, progress.advanced checks succeeded = .ok after ∧ after.total = progress.total ∧
      after.succeeded.toNat = progress.succeeded.toNat + (if succeeded then 1 else 0) ∧
      after.failed.toNat = progress.failed.toNat + (if succeeded then 0 else 1) := by
  have htotal := progress.total.toNat_lt
  have hsize : u64Size = 2 ^ 64 := rfl
  obtain ⟨hsucceeded, hsucceeded'⟩ := addUsize_of_lt checks (a := progress.succeeded)
    (b := if succeeded then 1 else 0) (by cases succeeded <;> simp <;> omega)
  obtain ⟨hfailed, hfailed'⟩ := addUsize_of_lt checks (a := progress.failed)
    (b := if succeeded then 0 else 1) (by cases succeeded <;> simp <;> omega)
  refine ⟨⟨progress.total, progress.succeeded + if succeeded then 1 else 0,
    progress.failed + if succeeded then 0 else 1⟩, ?_, rfl, ?_, ?_⟩
  · rw [RunProgress.advanced, hsucceeded, hfailed]
    rfl
  · rw [hsucceeded']
    cases succeeded <;> rfl
  · rw [hfailed']
    cases succeeded <;> rfl

/-- What an attempt adds to the outcomes of its phase, and to no other. -/
theorem outcomes_retain (attempt : PhaseAttempt) (phase : RunPhase) : (attempt.retain storage).outcomes phase =
    storage.outcomes phase ++ if phase = attempt.phase then [attempt.succeeded] else [] := by
  cases attempt with
  | extraction attempt => cases phase <;> simp [PhaseAttempt.retain, Storage.outcomes, PhaseAttempt.phase,
      PhaseAttempt.succeeded]
  | asset attempt => cases phase <;> simp [PhaseAttempt.retain, Storage.outcomes, PhaseAttempt.phase,
      PhaseAttempt.succeeded]
  | finalization attempt =>
    cases phase <;> simp [PhaseAttempt.retain, Storage.outcomes, PhaseAttempt.phase, PhaseAttempt.succeeded]
    cases storage.archiveFinalization <;> rfl

theorem PhaseAttempt.retain_phases (attempt : PhaseAttempt) : (attempt.retain storage).phases = storage.phases := by
  cases attempt <;> rfl

/-- A retained attempt leaves the accounts of the other phases right. -/
theorem AccountedFor.retain (h : Accounted checks storage) (attempt : PhaseAttempt) :
    AccountedFor checks (· ≠ attempt.phase) (attempt.retain storage) := by
  have hphases : (attempt.retain storage).phases = storage.phases := attempt.retain_phases
  refine ⟨hphases ▸ h.ordered, hphases ▸ h.bounded, hphases ▸ h.idle, fun other hother hne hbearing => ?_,
    fun phase hne huntraversed => ?_⟩
  · rw [outcomes_retain, if_neg hne, List.append_nil]
    exact h.counted other (hphases ▸ hother) trivial hbearing
  · rw [outcomes_retain, if_neg hne, List.append_nil]
    exact h.untraversed phase trivial (hphases ▸ huntraversed)

/-- Advanced progress counts one more attempt. -/
theorem counts_append {outcomes : List Bool} {progress after : RunProgress} {succeeded : Bool}
    (h : Counts outcomes (some progress))
    (hsucceeded : after.succeeded.toNat = progress.succeeded.toNat + if succeeded then 1 else 0)
    (hfailed : after.failed.toNat = progress.failed.toNat + if succeeded then 0 else 1) :
    Counts (outcomes ++ [succeeded]) (some after) := by
  obtain ⟨hlength, htrue, hfalse⟩ := h
  refine ⟨?_, ?_, ?_⟩
  · rw [List.length_append, hlength, hsucceeded, hfailed]
    cases succeeded <;> simp <;> omega
  · rw [List.count_append, htrue, hsucceeded]
    cases succeeded <;> rfl
  · rw [List.count_append, hfalse, hfailed]
    cases succeeded <;> rfl

/-- The progress an attempt counts in is that of the current record. -/
theorem currentProgress_ok {attempt : PhaseAttempt} {progress : RunProgress}
    (h : currentProgress storage attempt = .ok progress) :
    storage.phases.getLast? = some (.executed attempt.phase (some progress)) := by
  unfold currentProgress at h
  cases hlast : storage.phases.getLast? with
  | none => simp [hlast] at h
  | some current =>
    simp only [hlast] at h
    split_ifs at h with hother
    rw [not_or, not_not, not_not] at hother
    cases current with
    | executed phase current =>
      cases current with
      | none => simp [RunPhaseRecord.progress] at h
      | some current =>
        obtain ⟨rfl, -⟩ := hother
        simp only [RunPhaseRecord.progress, Except.ok.injEq] at h
        simp [h]
    | skipped => exact absurd hother.2 (by simp [RunPhaseRecord.status])
    | planned => exact absurd hother.2 (by simp [RunPhaseRecord.status])

/-- An advanced account replaces the current one. -/
theorem traverse_advanced {phases : List RunPhaseRecord} {phase : RunPhase} {progress after : RunProgress}
    (hlast : phases.getLast? = some (.executed phase (some progress))) (htotal : after.total = progress.total)
    (hsucceeded : progress.succeeded ≤ after.succeeded) (hfailed : progress.failed ≤ after.failed)
    (hvalid : validateProgress checks (.executed phase (some after)) = .ok ()) :
    traverse checks phases (.executed phase (some after)) =
      .ok (phases.dropLast ++ [.executed phase (some after)]) := by
  have hregress : ¬(after.succeeded < progress.succeeded ∨ after.failed < progress.failed) := by
    rintro (hlt | hlt)
    · exact UInt64.not_lt.mpr hsucceeded hlt
    · exact UInt64.not_lt.mpr hfailed hlt
  simp [traverse, hlast, validateReplacement, hvalid, validateSuccessor, RunPhaseRecord.phase, RunPhaseRecord.status,
    RunPhaseRecord.skipReason, RunPhaseRecord.progress, htotal, hregress]

/-- What the progress an attempt is counted in advances to. -/
structure Advances (checks : OverflowChecks) (phases : List RunPhaseRecord) (attempt : PhaseAttempt)
    (progress after : RunProgress) : Prop where
  advanced : progress.advanced checks attempt.succeeded = .ok after
  succeeded : after.succeeded.toNat = progress.succeeded.toNat + if attempt.succeeded then 1 else 0
  failed : after.failed.toNat = progress.failed.toNat + if attempt.succeeded then 0 else 1
  bounded : after.Bounded checks
  valid : validateProgress checks (.executed attempt.phase (some after)) = .ok ()
  traversed : traverse checks phases (.executed attempt.phase (some after)) =
    .ok (phases.dropLast ++ [.executed attempt.phase (some after)])

/-- **The transition of an attempt that is counted cannot be refused**: bounded progress that is not complete advances,
and what it advances to takes its place. -/
theorem advances_of_lt {attempt : PhaseAttempt} {progress : RunProgress} {completed : UInt64}
    (hprogress : currentProgress storage attempt = .ok progress) (hbounded : progress.Bounded checks)
    (hcompleted : progress.completed checks = .ok completed) (hlt : completed < progress.total) :
    ∃ after, Advances checks storage.phases attempt progress after := by
  -- what is completed is exact, and less than the total
  obtain ⟨completed', hcompleted', hexact, -⟩ := hbounded
  obtain rfl : completed = completed' := Except.ok.inj (hcompleted.symm.trans hcompleted')
  have hless : progress.succeeded.toNat + progress.failed.toNat < progress.total.toNat :=
    hexact ▸ UInt64.lt_iff_toNat_lt.mp hlt
  obtain ⟨after, hafter, htotal, hsucceeded, hfailed⟩ := RunProgress.advanced_ok attempt.succeeded hless
  have hafter' : after.Bounded checks := by
    rw [RunProgress.bounded_iff, hsucceeded, hfailed, htotal]
    cases attempt.succeeded <;> simp <;> omega
  have hvalid : validateProgress checks (.executed attempt.phase (some after)) = .ok () := by
    obtain ⟨_, hsum, -, hle⟩ := hafter'
    simp [validateProgress, RunPhaseRecord.progress, hsum, UInt64.not_lt.mpr hle]
  refine ⟨after, hafter, hsucceeded, hfailed, hafter', hvalid, ?_⟩
  refine traverse_advanced (currentProgress_ok hprogress) htotal ?_ ?_ hvalid
  · exact UInt64.le_iff_toNat_le.mpr (hsucceeded ▸ Nat.le_add_right _ _)
  · exact UInt64.le_iff_toNat_le.mpr (hfailed ▸ Nat.le_add_right _ _)

/-- **An attempt is counted once, in its own phase**, or refused. -/
theorem accounts_recordAttemptProgress (attempt : PhaseAttempt) (h : Right checks evidence) :
    Accounts checks (recordAttemptProgress checks sink attempt) evidence := by
  refine spec_bind.mpr (spec_getStorage.mpr (spec_bind.mpr (Prog.spec_ofExcept.mpr ⟨fun progress hprogress => ?_,
    fun _ _ => h⟩)))
  refine spec_bind.mpr (Prog.spec_ofExcept.mpr ⟨fun completed hcompleted => ?_, fun _ _ => h⟩)
  refine spec_bind.mpr (spec_require.mpr ⟨fun hlt => ?_, fun _ => h⟩)
  refine spec_bind.mpr (spec_retain.mpr ?_)
  have hcurrent : .executed attempt.phase (some progress) ∈ evidence.storage.phases :=
    List.mem_of_getLast? (currentProgress_ok hprogress)
  obtain ⟨after, hafter⟩ :=
    advances_of_lt hprogress (h.bounded _ hcurrent progress rfl) hcompleted (of_decide_eq_true hlt)
  refine spec_bind.mpr (Prog.spec_ofExcept.mpr ⟨fun after' hafter' => ?_, fun e he => ?_⟩)
  swap
  · exact absurd (hafter.advanced.symm.trans he) (by simp)
  obtain rfl : after = after' := Except.ok.inj (hafter.advanced.symm.trans hafter')
  have htraverse := hafter.traversed
  rw [← attempt.retain_phases] at htraverse
  refine (spec_acceptPhase _ _).mono (fun _ evidence' haccepted => ?_) (fun e _ hrefused => ?_) fun _ h => h
  swap
  · rcases hrefused.2 with hrefused | hrefused
    · exact absurd (hafter.valid.symm.trans hrefused) (by simp)
    · exact absurd (htraverse.symm.trans hrefused) (by simp)
  have hfits : RunPhaseRecord.Fits (.executed attempt.phase (some after)) := by
    rintro _ ⟨rfl⟩
    exact lt_of_le_of_lt (RunProgress.bounded_iff.mp hafter.bounded) after.total.toNat_lt
  refine AccountedFor.accept (h.retain attempt) rfl (.inr hfits) hafter.valid (fun hbearing => ?_) haccepted.traversed
    haccepted.outcomes
  show Counts ((attempt.retain evidence.storage).outcomes attempt.phase) (some after)
  rw [outcomes_retain, if_pos rfl]
  exact counts_append (h.counted _ hcurrent trivial hbearing) hafter.succeeded hafter.failed

/-- An operation's progress does not overflow what it completed. -/
def Operation.Fits : Operation → Prop
  | recordPhase record => record.Fits
  | _ => True

/-- **Every operation leaves the accounts right.** -/
theorem accounts_run (operation : Operation) (hfits : checks = .on ∨ operation.Fits) (h : Right checks evidence) :
    Accounts checks (operation.run checks sink) evidence := by
  cases hsilent : operation.traverses with
  | false =>
    exact (along_untouched operation hsilent evidence).mono (fun _ _ hsame => h.congr hsame.1.phases hsame.1.outcomes)
      (fun _ _ hsame => h.congr hsame.phases hsame.outcomes) fun _ h => h
  | true =>
    cases operation with
    | recordPhase record => exact accounts_recordPhase h hfits
    | openArchiveExtraction total => exact accounts_openAttemptPhase h (by rintro _ ⟨rfl⟩; exact ⟨rfl, rfl⟩)
    | openArchiveFinalization => exact accounts_openAttemptPhase h nofun
    | openProcessingAssets ledger =>
      refine spec_bind.mpr (spec_getStorage.mpr (spec_bind.mpr (spec_require.mpr ⟨fun _ => ?_, fun _ => h⟩)))
      refine spec_bind.mpr (spec_require.mpr ⟨fun _ => spec_bind.mpr (spec_retain.mpr ?_), fun _ => h⟩)
      exact accounts_openAttemptPhase (h.congr rfl rfl) (by rintro _ ⟨rfl⟩; exact ⟨rfl, rfl⟩)
    | planArchiveFinalization total => exact accounts_planArchiveFinalization total h
    | recordAttempt attempt => exact accounts_recordAttemptProgress attempt h
    | _ => simp [Operation.traverses] at hsilent

/-! ## Runs -/

/-- Every record stays, with what it may become, and no phase has completed less. -/
def Progresses (checks : OverflowChecks) (storage storage' : Storage) : Prop :=
  ∀ record ∈ storage.phases, ∃ record' ∈ storage'.phases, Follows record record' ∧
    ∀ before after completed completed', record.progress = some before → record'.progress = some after →
      before.completed checks = .ok completed → after.completed checks = .ok completed' → completed ≤ completed'

theorem Continues.progresses (h : Continues storage storage') (hbefore : Accounted checks storage)
    (hafter : Accounted checks storage') : Progresses checks storage storage' := by
  intro record hrecord
  obtain ⟨record', hrecord', hfollows⟩ := h record hrecord
  refine ⟨record', hrecord', hfollows, fun before after completed completed' hprogress hprogress' hok hok' => ?_⟩
  obtain ⟨after', hsome, -, hsucceeded, hfailed⟩ := hfollows.progress before hprogress
  obtain rfl : after' = after := Option.some.inj (hsome.symm.trans hprogress')
  obtain ⟨sum, hsum, hexact, -⟩ := hbefore.bounded record hrecord before hprogress
  obtain ⟨sum', hsum', hexact', -⟩ := hafter.bounded record' hrecord' after' hprogress'
  obtain rfl : sum = completed := Except.ok.inj (hsum.symm.trans hok)
  obtain rfl : sum' = completed' := Except.ok.inj (hsum'.symm.trans hok')
  rw [UInt64.le_iff_toNat_le, hexact, hexact']
  exact Nat.add_le_add (UInt64.le_iff_toNat_le.mp hsucceeded) (UInt64.le_iff_toNat_le.mp hfailed)

theorem right_new : Right checks .new where
  ordered := .nil
  bounded := nofun
  idle := nofun
  counted := nofun
  untraversed phase _ _ := by cases phase <;> rfl

/-- **A run keeps the accounts right.** -/
theorem run_right {operations : List Operation} {evidence' : MutableRunEvidence}
    (hfits : ∀ operation ∈ operations, checks = .on ∨ operation.Fits)
    (hrun : Trace (perform checks sink) operations evidence evidence') (h : Right checks evidence) :
    Right checks evidence' := by
  refine hrun.invariant (fun operation hmem evidence evidence' hstep h => ?_) h
  have hstep' : Accounts checks (operation.run checks sink) evidence := accounts_run operation (hfits operation hmem) h
  unfold Accounts Spec at hstep'
  rw [hstep]
  generalize operation.run checks sink evidence = ended at hstep' ⊢
  obtain ⟨_ | _ | _, evidence'⟩ := ended
  · exact hstep'
  · exact hstep'
  · exact hstep'.elim

/-- **A run continues the evidence.** -/
theorem run_continues {operations : List Operation} {evidence' : MutableRunEvidence}
    (hrun : Trace (perform checks sink) operations evidence evidence') : Continuing evidence evidence' := by
  refine hrun.invariant (I := Continuing evidence) (fun operation _ mid evidence' hstep h => ?_) (refl evidence)
  have hnext : Along Continuing (operation.run checks sink) fun _ => True := along_continuing operation
  have hmid := hnext mid
  unfold Spec at hmid
  rw [hstep]
  generalize operation.run checks sink mid = ended at hmid ⊢
  obtain ⟨_ | _ | _, evidence'⟩ := ended
  · exact IsTrans.trans _ _ _ h hmid.1
  · exact IsTrans.trans _ _ _ h hmid
  · exact hmid.elim

/-- What holds of a run of operations and of its continuation: the accounts of both evidences are right, and the second
evidence progresses from the first. -/
def EvidenceAccounts (checks : OverflowChecks) (sink : Option RunObservationSink) (before after : List Operation) :
    Prop :=
  ∀ evidence evidence', Trace (perform checks sink) before .new evidence →
    Trace (perform checks sink) after evidence evidence' →
    Accounted checks evidence.storage ∧ Accounted checks evidence'.storage ∧
      Progresses checks evidence.storage evidence'.storage

/-- **Every run of operations, accepted or refused, keeps its accounts**, where the build checks overflow or no recorded
progress overflows. -/
theorem evidence_accounts (checks : OverflowChecks) (sink : Option RunObservationSink) (before after : List Operation)
    (hfits : ∀ operation ∈ before ++ after, checks = .on ∨ operation.Fits) :
    EvidenceAccounts checks sink before after := by
  intro evidence evidence' hbefore hafter
  have h := run_right (fun operation hmem => hfits operation (List.mem_append_left _ hmem)) hbefore right_new
  have h' := run_right (fun operation hmem => hfits operation (List.mem_append_right _ hmem)) hafter h
  exact ⟨h, h', (run_continues hafter).progresses h h'⟩

/-- A run that extracts one Archive of two. -/
theorem evidence_accounts_sample : EvidenceAccounts .off none
    [.recordPhase (.executed .preparing none), .recordPhase (.executed .discoveringArchives (some ⟨3, 0, 0⟩)),
      .openArchiveExtraction 2]
    [.recordAttempt (.extraction ⟨[], [], .succeeded .committed⟩)] := by
  refine evidence_accounts _ _ _ _ fun operation hmem => .inr ?_
  simp only [List.cons_append, List.nil_append, List.mem_cons, List.not_mem_nil, or_false] at hmem
  rcases hmem with rfl | rfl | rfl | rfl
  · exact nofun
  · rintro _ ⟨rfl⟩
    decide
  · trivial
  · trivial

/-- Progress of a phase: of ten, so many succeeded and so many failed. -/
def ofTen (succeeded failed : UInt64) : Operation :=
  .recordPhase (.executed .preparing (some ⟨10, succeeded, failed⟩))

/-- What is left when five of ten succeeded and five failed, and then nearly 2^64 succeed. -/
def decreased : MutableRunEvidence :=
  [ofTen 0 0, ofTen 5 5, ofTen 0xffffffffffffffff 5].foldl (fun evidence operation => (operation.run .off none evidence).2)
    .new

/-- Without overflow checks, progress that completed all of ten may be replaced by one that completed four. -/
theorem completed_decreases : ¬EvidenceAccounts .off none [ofTen 0 0, ofTen 5 5] [ofTen 0xffffffffffffffff 5] := by
  intro h
  obtain ⟨-, -, hprogresses⟩ := h _ _ ⟨_, rfl, _, rfl, rfl⟩ ⟨_, rfl, rfl⟩
  obtain ⟨record', hrecord', -, hcompleted⟩ := hprogresses (.executed .preparing (some ⟨10, 5, 5⟩)) (by decide +kernel)
  have hlast : ∀ record ∈ decreased.storage.phases,
      record = .executed .preparing (some ⟨10, 0xffffffffffffffff, 5⟩) := by decide +kernel
  obtain rfl := hlast record' hrecord'
  have := hcompleted _ _ 10 4 rfl rfl (by decide +kernel) (by decide +kernel)
  exact absurd this (by decide)

end Cao.Evidence
