import Cao.Evidence.Sealed
import Mathlib.Data.List.Perm.Basic

/-!
# Diagnostics and their publication

What a sink is offered of the diagnostics that a run retains (`run/evidence.rs`). A sink that fails is retained as a
diagnostic of its own, which no publication is due for.

* `Retention`, `Ledger`: the retained diagnostics, those of failed observers apart, and what was offered of them;
* `publishDue`, `publishDue_eq`: the loop of `publish_diagnostics`, pass by pass;
* `kept_operation`, `kept_run`: what operations do to the ledger;
* `observer_fails_twice`: a sink that fails twice is retained twice;
* **`diagnostics_published`**: over every run of operations, the sink is offered the retained diagnostics in order.
-/

namespace Cao.Evidence

open Prog (Keeps Spec spec_bind)

/-! ## The loop -/

/-- The loop of `publish_diagnostics`: each pass reads the cursor and the publications anew. -/
def publishDue (sink : Option RunObservationSink) : (passes : Nat) → Recording Unit
  | 0 => return ()
  | passes + 1 => do
    let evidence ← Prog.get
    match evidence.diagnosticPublications[evidence.publishedDiagnostics]? with
    | none => return ()
    | some index =>
      publishDiagnostic sink index
      publishDue sink passes

section Loop

variable {sink : Option RunObservationSink} {evidence : MutableRunEvidence}

/-- A publication changes neither the cursor nor what is due. -/
theorem cursor_publish (phase : RunPhase) (publication : Publication) (evidence : MutableRunEvidence) :
    (publish sink phase publication evidence).2.publishedDiagnostics = evidence.publishedDiagnostics ∧
      (publish sink phase publication evidence).2.diagnosticPublications = evidence.diagnosticPublications := by
  cases sink with
  | none => exact ⟨rfl, rfl⟩
  | some sink =>
    show (reportSafely phase (sink evidence.offered publication) _).2.publishedDiagnostics = _ ∧
      (reportSafely phase (sink evidence.offered publication) _).2.diagnosticPublications = _
    cases sink evidence.offered publication <;> exact ⟨rfl, rfl⟩

/-- A diagnostic's publication moves the cursor by one. -/
theorem cursor_publishDiagnostic (index : Nat) (evidence : MutableRunEvidence) :
    (publishDiagnostic sink index evidence).2.publishedDiagnostics = evidence.publishedDiagnostics + 1 ∧
      (publishDiagnostic sink index evidence).2.diagnosticPublications = evidence.diagnosticPublications := by
  let claimed : MutableRunEvidence := { evidence with publishedDiagnostics := evidence.publishedDiagnostics + 1 }
  cases hat : evidence.storage.diagnostics[index]? with
  | none =>
    have hrun : publishDiagnostic sink index evidence = (.fail (.panic "index out of bounds"), claimed) := by
      unfold publishDiagnostic
      rw [Prog.bind_of_done (show Prog.modify _ evidence = (.done (), claimed) from rfl),
        Prog.bind_of_done (show getStorage claimed = (.done claimed.storage, claimed) from rfl)]
      simp only [claimed, hat]
      rfl
    rw [hrun]
    exact ⟨rfl, rfl⟩
  | some diagnostic =>
    have hrun : publishDiagnostic sink index evidence = publish sink diagnostic.phase (.diagnostic diagnostic) claimed := by
      unfold publishDiagnostic
      rw [Prog.bind_of_done (show Prog.modify _ evidence = (.done (), claimed) from rfl),
        Prog.bind_of_done (show getStorage claimed = (.done claimed.storage, claimed) from rfl)]
      simp only [claimed, hat]
    rw [hrun]
    exact cursor_publish _ _ claimed

/-- **The loop of `publish_diagnostics` ends**: with as many passes as there are publications due, it is over. -/
theorem publishDue_eq {passes : Nat} (h : evidence.diagnosticPublications.length ≤ evidence.publishedDiagnostics + passes) :
    publishDue sink passes evidence = publishDiagnostics sink evidence := by
  have hread : ∀ evidence : MutableRunEvidence, publishDiagnostics sink evidence =
      Prog.forEach (evidence.diagnosticPublications.drop evidence.publishedDiagnostics) (publishDiagnostic sink) evidence :=
    fun _ => rfl
  induction passes generalizing evidence with
  | zero =>
    have hnone : evidence.diagnosticPublications.drop evidence.publishedDiagnostics = [] := List.drop_eq_nil_of_le h
    rw [hread, hnone]
    rfl
  | succ passes ih =>
    cases hat : evidence.diagnosticPublications[evidence.publishedDiagnostics]? with
    | none =>
      have hnone : evidence.diagnosticPublications.drop evidence.publishedDiagnostics = [] :=
        List.drop_eq_nil_of_le (List.getElem?_eq_none_iff.mp hat)
      have hpass : publishDue sink (passes + 1) evidence = (.done (), evidence) := by
        show (match evidence.diagnosticPublications[evidence.publishedDiagnostics]? with
          | none => _ | some index => _ : Recording Unit) evidence = _
        rw [hat]
        rfl
      rw [hread, hnone, hpass]
      rfl
    | some index =>
      obtain ⟨hlt, hindex⟩ := List.getElem?_eq_some_iff.mp hat
      have hdue : evidence.diagnosticPublications.drop evidence.publishedDiagnostics =
          index :: evidence.diagnosticPublications.drop (evidence.publishedDiagnostics + 1) := by
        rw [List.drop_eq_getElem_cons hlt, hindex]
      have hpass : publishDue sink (passes + 1) evidence =
          (publishDiagnostic sink index >>= fun _ => publishDue sink passes) evidence := by
        show (match evidence.diagnosticPublications[evidence.publishedDiagnostics]? with
          | none => _ | some index => _ : Recording Unit) evidence = _
        rw [hat]
      obtain ⟨hcursor, hpublications⟩ := @cursor_publishDiagnostic sink index evidence
      rw [hread, hdue, hpass]
      show Prog.andThen _ _ evidence = Prog.andThen _ _ evidence
      unfold Prog.andThen
      cases hrun : publishDiagnostic sink index evidence with
      | mk outcome evidence' =>
        rw [hrun] at hcursor hpublications
        dsimp only at hcursor hpublications
        cases outcome with
        | done =>
          have hlater := @ih evidence' (by rw [hcursor, hpublications]; omega)
          rw [hread, hcursor, hpublications] at hlater
          exact hlater
        | fail => rfl
        | crash => rfl

end Loop

/-! ## The ledger -/

/-- A retained diagnostic: of an operation, or of an observer that failed. -/
structure Retention where
  diagnostic : RunDiagnostic
  observer : Bool

/-- The diagnostics that an operation retains. -/
def Operation.retained : Operation → List RunDiagnostic
  | recordDiagnostic diagnostic => [diagnostic]
  | retainDiagnostic diagnostic => [diagnostic]
  | _ => []

/-- The diagnostic of a callback outside the sink that failed. -/
def Operation.reported : Operation → List RunDiagnostic
  | reportSafely phase (some detail) => [.new .observerFailed phase detail]
  | _ => []

/-- A diagnostic among what is offered. -/
def Publication.asDiagnostic : Publication → Option RunDiagnostic
  | .diagnostic retained => some retained
  | _ => none

/-- The phase of a publication. -/
def Publication.runPhase : Publication → RunPhase
  | .phase record => record.phase
  | .failure error => error.phase
  | .diagnostic retained => retained.phase

/-- The diagnostics of a sink that failed: one for each publication that it panicked at. -/
def observerFailures (sink : RunObservationSink) (before : List Publication) : List Publication → List RunDiagnostic
  | [] => []
  | publication :: after =>
    ((sink before publication).map (RunDiagnostic.new .observerFailed publication.runPhase)).toList ++
      observerFailures sink (before ++ [publication]) after

theorem observerFailures_concat (sink : RunObservationSink) (before after : List Publication) (publication : Publication) :
    observerFailures sink before (after ++ [publication]) = observerFailures sink before after ++
      ((sink (before ++ after) publication).map (RunDiagnostic.new .observerFailed publication.runPhase)).toList := by
  induction after generalizing before with
  | nil => simp [observerFailures]
  | cons first after ih =>
    rw [List.cons_append, observerFailures, observerFailures, ih, List.append_assoc, List.append_assoc]
    rfl

/-- The diagnostics that were offered, in order. -/
def MutableRunEvidence.offeredDiagnostics (evidence : MutableRunEvidence) : List RunDiagnostic :=
  evidence.offered.filterMap Publication.asDiagnostic

/-- **The ledger**: `retained` is what operations retained, `reported` what other callbacks left. -/
structure Ledger (sink : RunObservationSink) (retained reported : List RunDiagnostic) (retentions : List Retention)
    (evidence : MutableRunEvidence) : Prop where
  held : evidence.storage.diagnostics = retentions.map Retention.diagnostic
  own : (retentions.filter (!·.observer)).map Retention.diagnostic = retained
  failed : ((retentions.filter Retention.observer).map Retention.diagnostic).Perm
    (observerFailures sink [] evidence.offered ++ reported)
  due : evidence.diagnosticPublications.map (retentions[·]?) = retained.map fun diagnostic => some ⟨diagnostic, false⟩
  cursor : evidence.publishedDiagnostics ≤ evidence.diagnosticPublications.length
  offered : evidence.offeredDiagnostics = retained.take evidence.publishedDiagnostics

section Ledger

variable {checks : OverflowChecks} {sink : RunObservationSink} {retained reported : List RunDiagnostic}
  {retentions : List Retention} {evidence : MutableRunEvidence}

/-- What an offer leaves: a diagnostic of the sink, if it panicked. -/
def failureAt (sink : RunObservationSink) (offered : List Publication) (publication : Publication) : List RunDiagnostic :=
  ((sink offered publication).map (RunDiagnostic.new .observerFailed publication.runPhase)).toList

theorem publish_some (publication : Publication) (evidence : MutableRunEvidence) :
    publish (some sink) publication.runPhase publication evidence = (.done (), { evidence with
      storage := { evidence.storage with
        diagnostics := evidence.storage.diagnostics ++ failureAt sink evidence.offered publication }
      offered := evidence.offered ++ [publication] }) := by
  show reportSafely publication.runPhase (sink evidence.offered publication) _ = _
  unfold failureAt
  cases sink evidence.offered publication with
  | none =>
    rw [Option.map_none, Option.toList_none, List.append_nil]
    rfl
  | some detail => rfl

theorem Ledger.lt_of_due (h : Ledger sink retained reported retentions evidence) {index : Nat}
    (hindex : index ∈ evidence.diagnosticPublications) : index < retentions.length := by
  have hmem : retentions[index]? ∈ retained.map fun diagnostic => some (⟨diagnostic, false⟩ : Retention) := by
    rw [← h.due]
    exact List.mem_map_of_mem hindex
  obtain ⟨diagnostic, -, hsome⟩ := List.mem_map.mp hmem
  exact (List.getElem?_eq_some_iff.mp hsome.symm).1

theorem Ledger.length_due (h : Ledger sink retained reported retentions evidence) :
    evidence.diagnosticPublications.length = retained.length := by
  simpa using congrArg List.length h.due

/-- More retentions change nothing of those that publications are due for. -/
theorem Ledger.due_append (h : Ledger sink retained reported retentions evidence) (more : List Retention) :
    evidence.diagnosticPublications.map ((retentions ++ more)[·]?) = retained.map fun diagnostic => some ⟨diagnostic, false⟩ := by
  rw [← h.due]
  exact List.map_congr_left fun index hindex => List.getElem?_append_left (h.lt_of_due hindex)

/-- **An offer**: the cursor is past what is offered, and a sink that panics is retained. -/
theorem Ledger.offer (h : Ledger sink retained reported retentions evidence) (publication : Publication) (cursor : Nat)
    (hcursor : cursor ≤ evidence.diagnosticPublications.length)
    (hoffered : retained.take cursor = retained.take evidence.publishedDiagnostics ++ publication.asDiagnostic.toList) :
    Ledger sink retained reported
      (retentions ++ (failureAt sink evidence.offered publication).map fun diagnostic => ⟨diagnostic, true⟩)
      { evidence with
        storage := { evidence.storage with
          diagnostics := evidence.storage.diagnostics ++ failureAt sink evidence.offered publication }
        publishedDiagnostics := cursor
        offered := evidence.offered ++ [publication] } where
  held := by
    show evidence.storage.diagnostics ++ _ = _
    rw [h.held, List.map_append, List.map_map]
    congr 1
    exact (List.map_id _).symm
  own := by
    have hnone : ((failureAt sink evidence.offered publication).map fun diagnostic =>
        (⟨diagnostic, true⟩ : Retention)).filter (!·.observer) = [] := by simp
    rw [List.filter_append, hnone, List.append_nil]
    exact h.own
  failed := by
    have hall : ((failureAt sink evidence.offered publication).map fun diagnostic =>
        (⟨diagnostic, true⟩ : Retention)).filter Retention.observer =
          (failureAt sink evidence.offered publication).map fun diagnostic => ⟨diagnostic, true⟩ := by simp
    have hback : ((failureAt sink evidence.offered publication).map fun diagnostic =>
        (⟨diagnostic, true⟩ : Retention)).map Retention.diagnostic = failureAt sink evidence.offered publication := by
      rw [List.map_map]
      exact List.map_id _
    show List.Perm _ (observerFailures sink [] (evidence.offered ++ [publication]) ++ reported)
    rw [List.filter_append, hall, List.map_append, hback, observerFailures_concat, List.nil_append]
    refine (h.failed.append_right _).trans ?_
    rw [List.append_assoc, List.append_assoc]
    exact List.Perm.append_left _ List.perm_append_comm
  due := h.due_append _
  cursor := hcursor
  offered := by
    show (evidence.offered ++ [publication]).filterMap Publication.asDiagnostic = _
    have hlast : [publication].filterMap Publication.asDiagnostic = publication.asDiagnostic.toList := by
      cases publication <;> rfl
    rw [List.filterMap_append, hoffered, hlast]
    exact congrArg (· ++ publication.asDiagnostic.toList) h.offered

/-- The ledger, whatever is retained. -/
def Kept (sink : RunObservationSink) (retained reported : List RunDiagnostic) (evidence : MutableRunEvidence) : Prop :=
  ∃ retentions, Ledger sink retained reported retentions evidence

theorem kept_new : Kept sink [] [] .new := ⟨[], ⟨rfl, rfl, .refl _, rfl, Nat.le_refl _, rfl⟩⟩

theorem keptRetaining_kept : KeptRetaining (Kept sink retained reported) := by
  rintro f hf evidence ⟨retentions, h⟩
  exact ⟨retentions, (hf evidence.storage).trans h.held, h.own, h.failed, h.due, h.cursor, h.offered⟩

theorem keeps_publish_fact {publication : Publication} (hfact : publication.asDiagnostic = none) :
    Keeps (Kept sink retained reported) (publish (some sink) publication.runPhase publication) := by
  rintro evidence ⟨retentions, h⟩
  unfold Spec
  rw [publish_some]
  refine ⟨_, h.offer publication evidence.publishedDiagnostics h.cursor ?_⟩
  rw [hfact, Option.toList_none, List.append_nil]

theorem keptPublishing_kept : KeptPublishing (some sink) (Kept sink retained reported) :=
  ⟨fun record => @keeps_publish_fact _ _ _ (.phase record) rfl,
    fun failure => @keeps_publish_fact _ _ _ (.failure failure) rfl⟩

/-- A diagnostic is retained, and its publication is due. -/
theorem Ledger.retains (h : Ledger sink retained reported retentions evidence) (diagnostic : RunDiagnostic) :
    Ledger sink (retained ++ [diagnostic]) reported (retentions ++ [⟨diagnostic, false⟩])
      (retainDiagnostic diagnostic evidence).2 where
  held := by
    show evidence.storage.diagnostics ++ [diagnostic] = _
    rw [h.held, List.map_append]
    rfl
  own := by
    rw [List.filter_append, List.map_append, h.own]
    rfl
  failed := by
    rw [List.filter_append, List.map_append]
    exact (List.append_nil _).symm ▸ h.failed
  due := by
    have hlast : evidence.storage.diagnostics.length = retentions.length := by rw [h.held, List.length_map]
    show (evidence.diagnosticPublications ++ [evidence.storage.diagnostics.length]).map _ = _
    rw [List.map_append, List.map_append, h.due_append, hlast, List.map_singleton, List.map_singleton,
      List.getElem?_concat_length]
  cursor := by
    show evidence.publishedDiagnostics ≤ (evidence.diagnosticPublications ++ [_]).length
    rw [List.length_append]
    exact Nat.le_trans h.cursor (Nat.le_add_right _ _)
  offered := by
    have hle : evidence.publishedDiagnostics ≤ retained.length := h.length_due ▸ h.cursor
    show evidence.offeredDiagnostics = (retained ++ [diagnostic]).take evidence.publishedDiagnostics
    rw [h.offered, List.take_append_of_le_length hle]

/-- A callback outside the sink panics. -/
theorem Ledger.reports (h : Ledger sink retained reported retentions evidence) (phase : RunPhase) (detail : String) :
    Ledger sink retained (reported ++ [.new .observerFailed phase detail])
      (retentions ++ [⟨.new .observerFailed phase detail, true⟩]) (retainObserverFailure phase detail evidence).2 where
  held := by
    show evidence.storage.diagnostics ++ [_] = _
    rw [h.held, List.map_append]
    rfl
  own := by
    rw [List.filter_append, List.map_append, h.own]
    exact List.append_nil _
  failed := by
    rw [List.filter_append, List.map_append, ← List.append_assoc]
    exact h.failed.append_right _
  due := h.due_append _
  cursor := h.cursor
  offered := h.offered

/-- The next diagnostic that is due. -/
theorem Ledger.next (h : Ledger sink retained reported retentions evidence) {index : Nat}
    (hindex : evidence.diagnosticPublications[evidence.publishedDiagnostics]? = some index) :
    ∃ diagnostic, retained[evidence.publishedDiagnostics]? = some diagnostic ∧
      evidence.storage.diagnostics[index]? = some diagnostic := by
  have hat := congrArg (·[evidence.publishedDiagnostics]?) h.due
  rw [List.getElem?_map, List.getElem?_map, hindex, Option.map_some] at hat
  cases hretained : retained[evidence.publishedDiagnostics]? with
  | none =>
    rw [hretained] at hat
    cases hat
  | some diagnostic =>
    rw [hretained] at hat
    have hentry : retentions[index]? = some ⟨diagnostic, false⟩ := Option.some.inj hat
    refine ⟨diagnostic, rfl, ?_⟩
    rw [h.held, List.getElem?_map, hentry]
    rfl

/-- **Every publication that is due is made**, and what is retained is offered in order. -/
theorem offers_publishDiagnostics (h : Kept sink retained reported evidence) :
    Spec (publishDiagnostics (some sink)) evidence
      (fun _ evidence' => Kept sink retained reported evidence' ∧ evidence'.offeredDiagnostics = retained)
      (fun _ _ => False) fun _ => False := by
  obtain ⟨retentions, h⟩ := h
  refine spec_bind.mpr (Prog.spec_get.mpr ?_)
  have hloop := Prog.Spec.forEach (f := publishDiagnostic (some sink)) (E := fun _ _ => False) (C := fun _ => False)
    (I := fun _ due evidence' => (∃ retentions, Ledger sink retained reported retentions evidence') ∧
      due = evidence'.diagnosticPublications.drop evidence'.publishedDiagnostics) ?_ []
    (evidence.diagnosticPublications.drop evidence.publishedDiagnostics) (s := evidence) ⟨⟨retentions, h⟩, rfl⟩
  · refine hloop.mono (fun _ evidence' hend => ?_) (fun _ _ h => h) fun _ h => h
    obtain ⟨⟨retentions', h'⟩, hdue⟩ := hend
    refine ⟨⟨retentions', h'⟩, ?_⟩
    have hle : retained.length ≤ evidence'.publishedDiagnostics := by
      rw [← h'.length_due]
      exact List.drop_eq_nil_iff.mp hdue.symm
    rw [h'.offered, List.take_of_length_le hle]
  · rintro _ index due evidence' ⟨⟨retentions', h'⟩, hdue⟩
    have hlt : evidence'.publishedDiagnostics < evidence'.diagnosticPublications.length := by
      by_contra hge
      rw [List.drop_eq_nil_of_le (Nat.le_of_not_lt hge)] at hdue
      cases hdue
    rw [List.drop_eq_getElem_cons hlt] at hdue
    obtain ⟨hhead, htail⟩ := List.cons.inj hdue
    have hindex : evidence'.diagnosticPublications[evidence'.publishedDiagnostics]? = some index := by
      rw [List.getElem?_eq_getElem hlt, hhead]
    obtain ⟨diagnostic, hretained, hheld⟩ := h'.next hindex
    refine spec_bind.mpr (spec_bind.mpr (spec_getStorage.mpr ?_))
    rw [hheld]
    show Spec (publish (some sink) (Publication.diagnostic diagnostic).runPhase (.diagnostic diagnostic)) _ _ _ _
    unfold Spec
    rw [publish_some]
    refine ⟨⟨_, h'.offer (.diagnostic diagnostic) (evidence'.publishedDiagnostics + 1) hlt ?_⟩, htail⟩
    rw [List.take_add_one, hretained]
    rfl

/-- **What an operation does to the ledger.** -/
theorem kept_operation (operation : Operation) (h : Kept sink retained reported evidence) :
    Kept sink (retained ++ operation.retained) (reported ++ operation.reported)
      (operation.run checks (some sink) evidence).2 := by
  have hpublishes : ∀ {retained : List RunDiagnostic} {evidence : MutableRunEvidence}, Kept sink retained reported evidence →
      Kept sink retained reported (publishDiagnostics (some sink) evidence).2 := by
    intro retained evidence h
    obtain ⟨_, evidence', hrun, hkept, -⟩ := (offers_publishDiagnostics h).returns
    rw [hrun]
    exact hkept
  by_cases hspeaks : operation.speaks
  · obtain ⟨retentions, hledger⟩ := h
    cases operation with
    | recordDiagnostic diagnostic =>
      rw [show (Operation.recordDiagnostic diagnostic).reported = [] from rfl, List.append_nil]
      exact hpublishes ⟨_, hledger.retains diagnostic⟩
    | retainDiagnostic diagnostic =>
      rw [show (Operation.retainDiagnostic diagnostic).reported = [] from rfl, List.append_nil]
      exact ⟨_, hledger.retains diagnostic⟩
    | publishDiagnostics =>
      rw [show Operation.publishDiagnostics.reported = [] from rfl, show Operation.publishDiagnostics.retained = [] from rfl,
        List.append_nil, List.append_nil]
      exact hpublishes ⟨_, hledger⟩
    | reportSafely phase panicked =>
      rw [show (Operation.reportSafely phase panicked).retained = [] from rfl, List.append_nil]
      cases panicked with
      | none =>
        rw [show (Operation.reportSafely phase none).reported = [] from rfl, List.append_nil]
        exact ⟨_, hledger⟩
      | some detail => exact ⟨_, hledger.reports phase detail⟩
    | _ => cases hspeaks
  · have hsilent : operation.retained = [] ∧ operation.reported = [] := by
      cases operation <;> first | exact ⟨rfl, rfl⟩ | exact absurd rfl hspeaks
    rw [hsilent.1, hsilent.2, List.append_nil, List.append_nil]
    exact (keeps_operation keptRetaining_kept keptPublishing_kept operation (by simpa using hspeaks)).ends h

/-- **What a run of operations does to the ledger.** -/
theorem kept_run {operations : List Operation} {evidence' : MutableRunEvidence}
    (hrun : Trace (perform checks (some sink)) operations evidence evidence') (h : Kept sink retained reported evidence) :
    Kept sink (retained ++ operations.flatMap Operation.retained) (reported ++ operations.flatMap Operation.reported)
      evidence' := by
  induction operations generalizing evidence retained reported with
  | nil =>
    rw [List.flatMap_nil, List.flatMap_nil, List.append_nil, List.append_nil]
    exact trace_nil.mp hrun ▸ h
  | cons operation operations ih =>
    obtain ⟨mid, hstep, hrest⟩ := trace_cons.mp hrun
    have hnext := @kept_operation checks _ _ _ _ operation h
    rw [← hstep] at hnext
    rw [List.flatMap_cons, List.flatMap_cons, ← List.append_assoc, ← List.append_assoc]
    exact ih hrest hnext

end Ledger

/-! ## Runs -/

/-- A diagnostic of a run. -/
def sampleDiagnostic : RunDiagnostic := .new .pluginUnreadable .preparing "a"

/-- A sink that panics at every fact. -/
def panicking : RunObservationSink := fun _ _ => some "sink"

/-- The retained diagnostics of observers that failed are as many as the failures: here two. -/
theorem observer_fails_twice :
    ¬ ∀ (checks : OverflowChecks) (sink : RunObservationSink) (operations : List Operation) (evidence : MutableRunEvidence),
      Trace (perform checks (some sink)) operations .new evidence →
        (evidence.storage.diagnostics.filter fun diagnostic => diagnostic.code = .observerFailed).length ≤ 1 := by
  intro h
  have htwice := h .on panicking [.recordDiagnostic sampleDiagnostic, .recordDiagnostic sampleDiagnostic] _
    ⟨_, rfl, _, rfl, rfl⟩
  exact absurd htwice (by decide)

/-- **Diagnostics are published once, and in order**, over every run of operations and whatever the sink does: what it is
offered is what operations retained, from the first on. Each failure of an observer is retained once, apart from these,
and the next publication offers whatever is left. -/
theorem diagnostics_published (checks : OverflowChecks) (sink : RunObservationSink) (operations : List Operation)
    (evidence : MutableRunEvidence) (hrun : Trace (perform checks (some sink)) operations .new evidence) :
    evidence.offeredDiagnostics <+: operations.flatMap Operation.retained ∧
      (∃ retentions : List Retention, evidence.storage.diagnostics = retentions.map Retention.diagnostic ∧
        (retentions.filter (!·.observer)).map Retention.diagnostic = operations.flatMap Operation.retained ∧
        ((retentions.filter Retention.observer).map Retention.diagnostic).Perm
          (observerFailures sink [] evidence.offered ++ operations.flatMap Operation.reported)) ∧
      (publishDue (some sink) evidence.diagnosticPublications.length evidence).2.offeredDiagnostics =
        operations.flatMap Operation.retained := by
  have hkept := kept_run hrun kept_new
  rw [List.nil_append, List.nil_append] at hkept
  obtain ⟨_, evidence', hpublished, -, hoffered⟩ := (offers_publishDiagnostics hkept).returns
  obtain ⟨retentions, h⟩ := hkept
  refine ⟨?_, ⟨retentions, h.held, h.own, h.failed⟩, ?_⟩
  · rw [h.offered]
    exact List.take_prefix _ _
  · rw [publishDue_eq (Nat.le_add_left _ _), hpublished]
    exact hoffered

theorem diagnostics_published_sample :
    ((Operation.retainDiagnostic sampleDiagnostic).run .on (some panicking) .new).2.offeredDiagnostics <+: [sampleDiagnostic] :=
  (diagnostics_published .on panicking [.retainDiagnostic sampleDiagnostic] _ ⟨_, rfl, rfl⟩).1

end Cao.Evidence
