import Cao.Archive.Destination
import Cao.Run.Effects
import Cao.Staging.RoundTrip
import Mathlib.Data.List.Perm.Subperm

/-!
# Extraction is ordered and truthful

What an extraction attempt reports, against what its log shows, for any behaviour of the operations it
is made of.

* `MergesInOrder`, `Staging`: the log of staging and merging; **`spec_tryExtract`**, **`spec_extractStaged`**;
* **`extractArchive_truthful`**: staging precedes publication, winners are published in order, the
  source is cleaned up last, and the outcome reported is the one the log shows.
-/

namespace Cao

open Prog (Along Spec spec_bind)

variable {table : UpcaseTable} {K : Type} [DecidableEq K] {V : Volume K}

/-! ## The log of an attempt -/

/-- Events before the first publication. -/
def Event.IsStaging : Event → Prop
  | .listed _ => True
  | .extracted .. => True
  | _ => False

/-- Events after the last publication. -/
def Event.IsEnding : Event → Prop
  | .unloaded => True
  | .removed _ => True
  | .renamed .. => True
  | .repinned _ => True
  | .listed _ => True
  | _ => False

/-- The source is deleted or renamed. -/
def Event.Cleans (source : Path) (event : Event) : Prop :=
  event = .removed source ∨ ∃ backup, event = .renamed source backup

/-- A canonical entry was extracted to a receipt. -/
def Stages (staging : List Event) (entry : Text) (receipt : Nat) : Prop :=
  ∃ name data, Event.extracted receipt name data ∈ staging ∧ canonicalArchiveEntryPath name = .ok entry

/-- What was extracted of an entry was published at its destination. -/
def Publishes (table : UpcaseTable) (directory : Path) (staging : List Event) (event : Event) (entry : Text) :
    Prop :=
  ∃ receipt target released, event = .published receipt target released ∧ Stages staging entry receipt ∧
    target.map (ordinalKey table) = (joinGamePath directory entry).map (ordinalKey table)

/-- A publication that released its temporary name. -/
def Event.Released (event : Event) : Prop := ∃ receipt target, event = .published receipt target true

/-- Every entry is staged before the first publication; the winners are published in order, each once. -/
structure MergesInOrder (table : UpcaseTable) (plan : ArchiveExtractionPlan) (staging merging : List Event) :
    Prop where
  staged : merging ≠ [] → ∀ entry ∈ plan.entries, ∃ receipt, Stages staging entry receipt
  winners : ∃ winners, winners <+: plan.mergeEntries ∧ winners.Nodup ∧
    List.Forall₂ (Publishes table plan.archivePath.dropLast staging) merging winners

/-- Every winner is published and released. -/
def Complete (plan : ArchiveExtractionPlan) (merging : List Event) : Prop :=
  merging.length = plan.mergeEntries.length ∧ ∀ event ∈ merging, event.Released

/-- A directory above the destination of a winner. -/
def AboveWinner (table : UpcaseTable) (plan : ArchiveExtractionPlan) (p : Path) : Prop :=
  ∃ entry ∈ plan.mergeEntries, Above table (joinGamePath plan.archivePath.dropLast entry) p

/-- How far staging and merging got. -/
structure Progressed (table : UpcaseTable) (plan : ArchiveExtractionPlan)
    (s s' : Site V ExtractionProgress) (staging merging : List Event) : Prop where
  log : s'.log = s.log ++ staging ++ merging
  early : ∀ event ∈ staging, event.IsStaging
  merges : MergesInOrder table plan staging merging
  committed : s'.progress.committed = true ↔ merging ≠ []
  quiet : merging = [] → Grown (AboveWinner table plan) s.disk s'.disk

omit [DecidableEq K] in
theorem spec_extractEntry {P : Type} {seams : Seams} {s : Site V P} (archive : Path) (name : Text)
    (receipt : Nat) :
    Spec (extractEntry seams archive name receipt) s
      (fun _ s' => ∃ data, Logged [.extracted receipt name data] s s') (fun _ s' => Idle s s')
      fun _ => False := by
  refine spec_bind.mpr ((along_call _ s).mono (fun data s₁ h => ?_) (fun _ _ h => h) fun _ h => h)
  exact ⟨data, h.1.then ⟨rfl, rfl, rfl⟩⟩

/-! ## The planned entries -/

theorem strKey_injective : Function.Injective strKey := fun _ _ h =>
  utf8_injective (List.map_injective_iff.mpr (fun _ _ => UInt8.toNat_inj.mp) h)

theorem contains_foldl_insert {c : Text} (entries : List Text) (expected : OrdSet strKey) :
    (entries.foldl OrdMap.insert expected).contains c = true ↔ expected.contains c = true ∨ c ∈ entries := by
  induction entries generalizing expected with
  | nil => simp
  | cons a entries ih =>
    rw [List.foldl_cons, ih, OrdMap.contains_insert, List.mem_cons, strKey_injective.eq_iff]
    tauto

/-- The keys of a set of exact strings are its members. -/
theorem mem_expectedKeys {expected : OrdSet strKey} {c : Text} :
    c ∈ expected.entries.map Prod.fst ↔ expected.contains c = true := by
  rw [OrdMap.contains_iff, List.mem_map]
  exact exists_congr fun e => and_congr_right fun _ => strKey_injective.eq_iff.symm

/-- What a sound plan's expected entries are. -/
theorem expectedEntries_ok {plan : ArchiveExtractionPlan} {expected : OrdSet strKey}
    (h : expectedEntries table plan = .ok expected) :
    (∀ c, expected.contains c = true ↔ c ∈ plan.entries) ∧ ∀ c ∈ plan.mergeEntries, c ∈ plan.entries := by
  unfold expectedEntries at h
  simp only at h
  split_ifs at h with hl hm
  · split at h <;> cases h
  split at h
  · cases h
  · cases h
    have hc : ∀ c, (plan.entries.foldl OrdMap.insert (OrdMap.empty : OrdSet strKey)).contains c = true ↔
        c ∈ plan.entries := fun c => by simp [contains_foldl_insert]
    refine ⟨hc, fun c hcm => (hc c).mp ?_⟩
    simpa using (List.any_eq_false.mp (Bool.eq_false_iff.mpr hm)) c hcm

/-! ## Staging -/

variable {seams : Seams} {plan : ArchiveExtractionPlan}

/-- What is staged came from the log, each entry once and each of them expected. -/
structure StagedFrom (expected : OrdSet strKey) (staging : List Event) (staged : StagedReceipts) : Prop where
  receipts : ∀ c receipt, (c, receipt) ∈ staged → Stages staging c receipt
  nodup : (staged.map Prod.fst).Nodup
  expected : ∀ c ∈ staged.map Prod.fst, expected.contains c = true

theorem Stages.mono {staging staging' : List Event} {entry : Text} {receipt : Nat}
    (h : Stages staging entry receipt) (hs : staging ⊆ staging') : Stages staging' entry receipt := by
  obtain ⟨name, data, hm, hc⟩ := h
  exact ⟨name, data, hs hm, hc⟩

omit [DecidableEq K] in
theorem spec_stageEntry {expected : OrdSet strKey} {staging : List Event} {staged : StagedReceipts}
    (source : Path) (entry : ArchiveEntry) {s : Site V ExtractionProgress}
    (h : StagedFrom expected staging staged) :
    Spec (stageEntry seams source expected staged entry) s
      (fun staged' s' => ∃ event, event.IsStaging ∧ Logged [event] s s' ∧
        StagedFrom expected (staging ++ [event]) staged')
      (fun _ s' => Logged [] s s') fun _ => False := by
  unfold stageEntry
  cases hc : canonicalArchiveEntryPath entry.name with
  | error e => exact (Idle.refl s).logged
  | ok c =>
    dsimp only
    split_ifs with hcond
    · exact (Idle.refl s).logged
    · simp only [Bool.or_eq_true, Bool.not_eq_true', not_or, Bool.not_eq_false, Bool.not_eq_true,
        Option.isSome_eq_false_iff, Option.isNone_iff_eq_none, List.lookup_eq_none_iff] at hcond
      obtain ⟨hexp, hnew⟩ := hcond
      refine spec_bind.mpr (spec_stageForPublication.mono (fun receipt s₁ h₁ => ?_) (fun _ _ h => h)
        fun _ h => h)
      obtain ⟨h₁, -⟩ := h₁
      refine spec_bind.mpr ((spec_extractEntry _ _ _).mono (fun _ s₂ h₂ => ?_)
        (fun _ _ h => h₁.idle h) fun _ h => h)
      obtain ⟨data, h₂⟩ := h₂
      refine ⟨.extracted receipt entry.name data, trivial, by simpa using h₁.trans h₂, ?_, ?_, ?_⟩
      · intro c' receipt' hm
        rcases List.mem_cons.mp hm with he | hm
        · obtain ⟨rfl, rfl⟩ := Prod.mk.inj he
          exact ⟨entry.name, data, by simp, hc⟩
        · exact (h.receipts c' receipt' hm).mono (List.subset_append_left _ _)
      · rw [List.map_cons, List.nodup_cons]
        refine ⟨fun hm => ?_, h.nodup⟩
        obtain ⟨e, he, hec⟩ := List.mem_map.mp hm
        have := hnew e he
        simp [hec] at this
      · intro c' hm
        rcases List.mem_cons.mp hm with rfl | hm
        · exact hexp
        · exact h.expected c' hm

omit [DecidableEq K] in
theorem spec_stageEntries {expected : OrdSet strKey} (source : Path) (entries : List ArchiveEntry)
    {s : Site V ExtractionProgress} :
    Spec (Prog.foldEach (stageEntry seams source expected) [] entries) s
      (fun staged s' => ∃ staging, (∀ event ∈ staging, event.IsStaging) ∧ Logged staging s s' ∧
        StagedFrom expected staging staged)
      (fun _ s' => ∃ staging, (∀ event ∈ staging, event.IsStaging) ∧ Logged staging s s') fun _ => False := by
  have hloop := Prog.Spec.foldEach (f := stageEntry (V := V) seams source expected) (C := fun _ => False)
    (E := fun _ s' => ∃ staging, (∀ event ∈ staging, event.IsStaging) ∧ Logged staging s s')
    (I := fun _ _ staged s' => ∃ staging, (∀ event ∈ staging, event.IsStaging) ∧ Logged staging s s' ∧
      StagedFrom expected staging staged)
    (fun before entry after staged s₁ h => by
      obtain ⟨staging, hs, hlog, hfrom⟩ := h
      refine (spec_stageEntry source entry hfrom).mono ?_ ?_ fun _ h => h
      · rintro staged' s₂ ⟨event, he, hlog', hfrom'⟩
        refine ⟨staging ++ [event], ?_, hlog.trans hlog', hfrom'⟩
        intro e hm
        rcases List.mem_append.mp hm with hm | hm
        · exact hs e hm
        · rwa [List.mem_singleton.mp hm]
      · intro _ s₂ h₂
        exact ⟨staging, hs, by simpa using hlog.trans h₂⟩)
    [] entries (c := []) (s := s) ⟨[], by simp, (Idle.refl s).logged, by simp, by simp, by simp⟩
  exact hloop

/-- As many entries staged as are expected are all of them. -/
theorem StagedFrom.all {expected : OrdSet strKey} {staging : List Event} {staged : StagedReceipts}
    (h : StagedFrom expected staging staged) (hl : staged.length = expected.entries.length) {c : Text}
    (hc : expected.contains c = true) : ∃ receipt, Stages staging c receipt := by
  have hsub : staged.map Prod.fst ⊆ expected.entries.map Prod.fst := fun c hm => mem_expectedKeys.mpr (h.expected c hm)
  have hperm : (staged.map Prod.fst).Perm (expected.entries.map Prod.fst) :=
    (h.nodup.subperm hsub).perm_of_length_le (by simp [hl])
  obtain ⟨e, he, rfl⟩ := List.mem_map.mp (hperm.mem_iff.mpr (mem_expectedKeys.mpr hc))
  exact ⟨e.2, h.receipts e.1 e.2 he⟩

/-! ## Merging -/

/-- How far the merging got, and which winners it published. -/
structure MergedTo (table : UpcaseTable) (plan : ArchiveExtractionPlan) (staging : List Event)
    (s s' : Site V ExtractionProgress) (merging : List Event) (winners : List Text) : Prop where
  log : s'.log = s.log ++ merging
  published : List.Forall₂ (Publishes table plan.archivePath.dropLast staging) merging winners
  nodup : winners.Nodup
  committed : s'.progress.committed = true ↔ merging ≠ []
  kept : ∀ p n, s.disk.Has p n → s'.disk.Has p n
  quiet : merging = [] → Grown (AboveWinner table plan) s.disk s'.disk

variable {staging merging : List Event} {winners : List Text} {root : Path}

omit [DecidableEq K] in
theorem MergedTo.prepared {s s₁ s₂ : Site V ExtractionProgress} {entry : Text}
    (h : MergedTo table plan staging s s₁ merging winners) (he : entry ∈ plan.mergeEntries)
    (h' : Prepared (Above table (joinGamePath plan.archivePath.dropLast entry)) s₁ s₂) :
    MergedTo table plan staging s s₂ merging winners where
  log := h'.log.trans h.log
  published := h.published
  nodup := h.nodup
  committed := by rw [h'.progress]; exact h.committed
  kept p n hp := h'.disk.kept p n (h.kept p n hp)
  quiet h0 := (h.quiet h0).trans (h'.disk.mono fun _ ha => ⟨entry, he, ha⟩)

omit [DecidableEq K] in
/-- A winner more is published. -/
theorem MergedTo.publish {s s₁ s₂ s₃ : Site V ExtractionProgress} {entry : Text} {receipt : Nat}
    {target : Path} {released : Bool} (h : MergedTo table plan staging s s₁ merging winners)
    (hentry : Publishes table plan.archivePath.dropLast staging (.published receipt target released) entry)
    (hnew : entry ∉ winners) (hlog : s₂.log = s₁.log ++ [.published receipt target released])
    (hkept : ∀ p n, s₁.disk.Has p n → s₂.disk.Has p n)
    (hs : s₃ = { s₂ with progress := { s₂.progress with committed := true } }) :
    MergedTo table plan staging s s₃ (merging ++ [.published receipt target released]) (winners ++ [entry]) := by
  subst hs
  refine ⟨?_, ?_, ?_, by simp, fun p n hp => hkept p n (h.kept p n hp), by simp⟩
  · simp only [hlog, h.log, List.append_assoc]
  · exact List.rel_append h.published (.cons hentry .nil)
  · rw [List.nodup_append]
    exact ⟨h.nodup, by simp, by rintro a ha b hb rfl; exact hnew (List.mem_singleton.mp hb ▸ ha)⟩

theorem spec_mergeEntry {staged : StagedReceipts} {s s₁ : Site V ExtractionProgress} {entry : Text}
    {n : Node Leaf} (hr : s.disk.find root = some (root, n))
    (h : MergedTo table plan staging s s₁ merging winners) (hentry : entry ∈ plan.mergeEntries)
    (hstaged : ∀ c receipt, (c, receipt) ∈ staged → Stages staging c receipt ∧ c ∉ winners) :
    Spec (mergeEntry seams table root plan.archivePath.dropLast staged entry) s₁
      (fun staged' s₂ => staged' = staged.filter (fun e => e.1 ≠ entry) ∧ ∃ event, event.Released ∧
        MergedTo table plan staging s s₂ (merging ++ [event]) (winners ++ [entry]))
      (fun _ s₂ => MergedTo table plan staging s s₂ merging winners ∨ ∃ event,
        MergedTo table plan staging s s₂ (merging ++ [event]) (winners ++ [entry])) fun _ => False := by
  unfold mergeEntry
  cases hl : staged.lookup entry with
  | none => exact .inl h
  | some receipt =>
    obtain ⟨hstages, hnew⟩ := hstaged entry receipt (by
      obtain ⟨l₁, l₂, rfl, -⟩ := List.lookup_eq_some_iff.mp hl
      simp)
    have hm := PathTree.find_mono h.kept hr
    refine spec_bind.mpr ((spec_prepareMergeTarget hm).mono (fun target s₂ h₂ => ?_)
      (fun _ s₂ h₂ => .inl (h.prepared hentry h₂)) fun _ h => h)
    obtain ⟨hp₂, hkey⟩ := h₂
    have hmerged := h.prepared hentry hp₂
    refine spec_bind.mpr ((spec_publishReceipt _ _).mono (fun publication s₃ h₃ => ?_)
      (fun _ _ h => h.elim) fun _ h => h)
    rcases h₃ with ⟨hstate, hidle⟩ | ⟨released, hstate, hlog, hprogress, -, q, hcreate⟩
    · -- Nothing was published.
      have hmut : publication.mutation ≠ .committed := by simp [PublicationResult.mutation, hstate]
      simp only [if_neg hmut, hstate]
      exact .inl (hmerged.prepared hentry hidle.prepared)
    · -- The destination is committed, released or not.
      have hmut : publication.mutation = .committed := by
        cases released <;> simp [PublicationResult.mutation, hstate]
      have hkept : ∀ p n, s₂.disk.Has p n → s₃.disk.Has p n := fun p n hp =>
        (PathTree.has_create hcreate).mpr (.inl hp)
      have hpub : Publishes table plan.archivePath.dropLast staging (.published receipt target released) entry :=
        ⟨receipt, target, released, rfl, hstages, hkey⟩
      have hfinal := hmerged.publish hpub hnew hlog hkept rfl
      simp only [if_pos hmut]
      refine spec_bind.mpr (Prog.spec_modify.mpr ?_)
      cases released with
      | true =>
        simp only [hstate]
        exact ⟨rfl, _, ⟨receipt, target, rfl⟩, hfinal⟩
      | false =>
        simp only [hstate]
        exact .inr ⟨_, hfinal⟩

/-- **The winners are merged in order.** -/
theorem spec_mergeEntries {staged : StagedReceipts} {s : Site V ExtractionProgress} {n : Node Leaf}
    (hr : s.disk.find root = some (root, n)) (hc : s.progress.committed = false)
    (hstaged : ∀ c receipt, (c, receipt) ∈ staged → Stages staging c receipt) :
    Spec (Prog.foldEach (mergeEntry seams table root plan.archivePath.dropLast) staged plan.mergeEntries) s
      (fun _ s' => ∃ merging, (∀ event ∈ merging, event.Released) ∧
        MergedTo table plan staging s s' merging plan.mergeEntries)
      (fun _ s' => ∃ merging winners, winners <+: plan.mergeEntries ∧
        MergedTo table plan staging s s' merging winners) fun _ => False := by
  have hloop := Prog.Spec.foldEach (C := fun _ => False)
    (f := mergeEntry (V := V) seams table root plan.archivePath.dropLast)
    (E := fun (_ : Thrown String) s' => ∃ merging winners, winners <+: plan.mergeEntries ∧
      MergedTo table plan staging s s' merging winners)
    (I := fun before after staged s' => before ++ after = plan.mergeEntries ∧
      (∀ c receipt, (c, receipt) ∈ staged → Stages staging c receipt ∧ c ∉ before) ∧
      ∃ merging, (∀ event ∈ merging, event.Released) ∧ MergedTo table plan staging s s' merging before)
    (fun before entry after staged s₁ h => by
      obtain ⟨hall, hst, merging, hrel, hm⟩ := h
      have hentry : entry ∈ plan.mergeEntries := hall ▸ by simp
      refine (spec_mergeEntry hr hm hentry hst).mono ?_ ?_ fun _ h => h
      · rintro staged' s₂ ⟨rfl, event, hev, hm'⟩
        refine ⟨by simpa using hall, fun c receipt hc => ?_, merging ++ [event], ?_, hm'⟩
        · rw [List.mem_filter] at hc
          obtain ⟨h1, h2⟩ := hst c receipt hc.1
          refine ⟨h1, fun hb => ?_⟩
          rcases List.mem_append.mp hb with hb | hb
          · exact h2 hb
          · exact (of_decide_eq_true hc.2) (List.mem_singleton.mp hb)
        · intro e he
          rcases List.mem_append.mp he with he | he
          · exact hrel e he
          · rwa [List.mem_singleton.mp he]
      · rintro _ s₂ (hm' | ⟨event, hm'⟩)
        · exact ⟨merging, before, ⟨entry :: after, hall⟩, hm'⟩
        · exact ⟨_, before ++ [entry], ⟨after, by simpa using hall⟩, hm'⟩)
    [] plan.mergeEntries (c := staged) (s := s)
    ⟨rfl, fun c receipt h => ⟨hstaged c receipt h, by simp⟩, [], by simp,
      ⟨by simp, .nil, .nil, by simp [hc], fun _ _ h => h, fun _ => .refl _⟩⟩
  refine hloop.mono ?_ (fun _ _ h => h) fun _ h => h
  rintro _ s' ⟨-, -, merging, hrel, hm⟩
  exact ⟨merging, hrel, by simpa using hm⟩

/-! ## Staging and merging together -/

omit [DecidableEq K] in
/-- As long as nothing is published, only staging is logged. -/
theorem Logged.progressed {s s' : Site V ExtractionProgress} (h : Logged staging s s')
    (hs : ∀ event ∈ staging, event.IsStaging) (hc : s.progress.committed = false) :
    Progressed table plan s s' staging [] where
  log := by simpa using h.log
  early := hs
  merges := ⟨fun h => absurd rfl h, [], List.nil_prefix, .nil, .nil⟩
  committed := by simp [h.progress, hc]
  quiet _ := by rw [h.disk]; exact .refl _

omit [DecidableEq K] in
/-- After staging, merging goes on from there. -/
theorem MergedTo.progressed {s s₁ s₂ : Site V ExtractionProgress}
    (h : MergedTo table plan staging s₁ s₂ merging winners) (hlog : Logged staging s s₁)
    (hs : ∀ event ∈ staging, event.IsStaging) (hw : winners <+: plan.mergeEntries)
    (hall : ∀ entry ∈ plan.entries, ∃ receipt, Stages staging entry receipt) :
    Progressed table plan s s₂ staging merging where
  log := by rw [h.log, hlog.log]
  early := hs
  merges := ⟨fun _ => hall, winners, hw, h.nodup, h.published⟩
  committed := h.committed
  quiet h0 := hlog.disk ▸ h.quiet h0

/-- The canonical root stands exactly where its name says. -/
theorem find_of_canonical {disk : Disk V} {path root : Path}
    (h : (treeView disk).canonical path = .ok root) : ∃ n, disk.find root = some (root, n) := by
  simp only [treeView] at h
  split at h
  · next q n hq =>
    cases h
    exact ⟨n, (PathTree.find_congr (PathTree.fold_of_find hq)).trans hq⟩
  · cases h

theorem spec_stageAndMerge {expected : OrdSet strKey} {entries : List ArchiveEntry} {n : Node Leaf}
    {s s₁ : Site V ExtractionProgress} {earlier : List Event} (hlog : Logged earlier s s₁)
    (hearly : ∀ event ∈ earlier, event.IsStaging) (hr : s.disk.find root = some (root, n))
    (hc : s.progress.committed = false) (he : expectedEntries table plan = .ok expected) :
    Spec (stageAndMerge seams table plan root entries expected) s₁
      (fun _ s' => ∃ staging merging, Progressed table plan s s' staging merging ∧ Complete plan merging)
      (fun _ s' => ∃ staging merging, Progressed table plan s s' staging merging) fun _ => False := by
  refine spec_bind.mpr ((spec_stageEntries _ _).mono ?_ ?_ fun _ h => h)
  · rintro staged s₂ ⟨staging, hs, hlog₂, hfrom⟩
    have hlog' := hlog.trans hlog₂
    have hs' : ∀ event ∈ earlier ++ staging, event.IsStaging := fun event hm =>
      (List.mem_append.mp hm).elim (hearly event) (hs event)
    split_ifs with hl
    · exact ⟨_, [], hlog'.progressed hs' hc⟩
    have hl : staged.length = expected.entries.length := not_not.mp hl
    refine spec_bind.mpr (Prog.spec_modify.mpr (spec_bind.mpr ?_))
    have hall : ∀ entry ∈ plan.entries, ∃ receipt, Stages (earlier ++ staging) entry receipt := by
      intro entry hm
      obtain ⟨receipt, hrec⟩ := hfrom.all hl (((expectedEntries_ok he).1 entry).mpr hm)
      exact ⟨receipt, hrec.mono (List.subset_append_right _ _)⟩
    have hreceipts : ∀ c receipt, (c, receipt) ∈ staged → Stages (earlier ++ staging) c receipt :=
      fun c receipt h => (hfrom.receipts c receipt h).mono (List.subset_append_right _ _)
    refine (spec_mergeEntries (n := n) ?_ ?_ hreceipts).mono ?_ ?_ fun _ h => h
    · rw [← hr, hlog'.disk]
    · rw [← hc, hlog'.progress]
    · rintro _ s₃ ⟨merging, hrel, hm⟩
      have hm' : MergedTo table plan (earlier ++ staging) s₂ s₃ merging plan.mergeEntries :=
        ⟨hm.log, hm.published, hm.nodup, hm.committed, hm.kept, hm.quiet⟩
      exact ⟨_, merging, hm'.progressed hlog' hs' (List.prefix_refl _) hall, hm.published.length_eq, hrel⟩
    · rintro _ s₃ ⟨merging, winners, hw, hm⟩
      have hm' : MergedTo table plan (earlier ++ staging) s₂ s₃ merging winners :=
        ⟨hm.log, hm.published, hm.nodup, hm.committed, hm.kept, hm.quiet⟩
      exact ⟨_, merging, hm'.progressed hlog' hs' hw hall⟩
  · rintro _ s₂ ⟨staging, hs, hlog₂⟩
    exact ⟨_, [], (hlog.trans hlog₂).progressed
      (fun event hm => (List.mem_append.mp hm).elim (hearly event) (hs event)) hc⟩

/-- **Staging and merging, whatever they come to.** -/
theorem spec_tryExtract {s : Site V ExtractionProgress} (hc : s.progress.committed = false) :
    Spec (tryExtract seams table plan) s
      (fun o s' => ∃ staging merging, Progressed table plan s s' staging merging ∧
        (o = none → Complete plan merging) ∧
        ∀ f, o = some f → merging = [] ∧ f.category ≠ .sourceCleanupFailed)
      (fun _ s' => ∃ staging merging, Progressed table plan s s' staging merging) fun _ => False := by
  have hidle : ∀ {s' : Site V ExtractionProgress}, Idle s s' →
      ∃ staging merging, Progressed table plan s s' staging merging := fun h =>
    ⟨[], [], h.logged.progressed (by simp) hc⟩
  refine spec_bind.mpr (spec_inspectTree.mono (fun root s₁ h₁ => ?_) (fun _ _ h => hidle h) fun _ h => h)
  obtain ⟨h₁, hroot⟩ := h₁
  obtain ⟨n, hn⟩ := find_of_canonical hroot
  split_ifs
  · exact hidle h₁
  refine spec_bind.mpr ((spec_listArchive _).mono (fun entries s₂ h₂ => ?_)
    (fun _ _ h => hidle (h₁.trans h)) fun _ h => h)
  refine spec_bind.mpr (spec_nextCall.mpr ?_)
  have hlog : Logged [.listed plan.archivePath] s { s₂ with calls := s₂.calls + 1 } :=
    (h₁.then h₂).idle rfl
  have hearly : ∀ event ∈ [Event.listed plan.archivePath], event.IsStaging := by simp [Event.IsStaging]
  have hprog : Progressed table plan s { s₂ with calls := s₂.calls + 1 } [.listed plan.archivePath] [] :=
    hlog.progressed hearly hc
  cases seams.recheck s₂.calls
      [(root, max plan.estimatedCapacityBytes (estimatedCapacityBytes entries))] root with
  | some shortage =>
    refine ⟨_, _, hprog, by simp, ?_⟩
    rintro f ⟨rfl⟩
    exact ⟨rfl, by simp [OperationFailure.fromCapacityShortage]⟩
  | none =>
    cases he : expectedEntries table plan with
    | error detail => exact ⟨_, _, hprog⟩
    | ok expected =>
      refine spec_bind.mpr ((spec_stageAndMerge hlog hearly hn hc he).mono ?_ (fun _ _ h => h) fun _ h => h)
      rintro _ s' ⟨staging, merging, hp, hcomplete⟩
      exact ⟨staging, merging, hp, fun _ => hcomplete, nofun⟩

/-! ## The attempt -/

/-- What an attempt reports before its source is cleaned up, against what it published. -/
structure StagedTruth (plan : ArchiveExtractionPlan) (merging : List Event)
    (outcome : AttemptOutcome ArchiveExtractionFailure) : Prop where
  success : outcome.isSuccess = true → Complete plan merging ∧
    (outcome.mutation = .committed ↔ merging ≠ [])
  category : outcome.failureCategory ≠ some .sourceCleanupFailed
  early : outcome.isSuccess = false → merging = [] → outcome.mutation = .none ∧ outcome.safeToContinue = true
  late : outcome.isSuccess = false → merging ≠ [] →
    outcome.mutation = .partialOrUnknown ∧ outcome.safeToContinue = false

omit [DecidableEq K] in
theorem classify_truth {s s' : Site V ExtractionProgress}
    {o : Except (Thrown String) (Option (OperationFailure ArchiveExtractionFailure))}
    (h : Progressed table plan s s' staging merging) (hnone : o = .ok none → Complete plan merging)
    (hsome : ∀ f, o = .ok (some f) → merging = [] ∧ f.category ≠ .sourceCleanupFailed) :
    StagedTruth plan merging (classify s'.progress o) := by
  have hcommitted := h.committed
  rcases o with thrown | _ | f
  · -- An error or a panic: what was committed decides.
    by_cases h0 : merging = []
    · have hf : s'.progress.committed = false := by
        simpa [h0] using hcommitted
      refine ⟨by simp [classify, AttemptOutcome.isSuccess], ?_, fun _ _ => ?_, fun _ h => absurd h0 h⟩
      · simp only [classify, AttemptOutcome.failureCategory, OperationFailure.new]
        split_ifs <;> simp
      · simp [classify, hf, AttemptOutcome.mutation, AttemptOutcome.safeToContinue]
    · have hf : s'.progress.committed = true := hcommitted.mpr h0
      refine ⟨by simp [classify, AttemptOutcome.isSuccess], ?_, fun _ h => absurd h h0, fun _ _ => ?_⟩
      · simp only [classify, AttemptOutcome.failureCategory, OperationFailure.new]
        split_ifs <;> simp
      · simp [classify, hf, AttemptOutcome.mutation, AttemptOutcome.safeToContinue]
  · refine ⟨fun _ => ⟨hnone rfl, ?_⟩, by simp [classify, AttemptOutcome.failureCategory], nofun, nofun⟩
    rw [← hcommitted]
    cases hc : s'.progress.committed <;> simp [classify, hc, AttemptOutcome.mutation, CompletedMutation.state]
  · obtain ⟨h0, hf⟩ := hsome f rfl
    refine ⟨nofun, ?_, fun _ _ => ?_, fun _ h => absurd h0 h⟩
    · simpa [classify, AttemptOutcome.failureCategory] using hf
    · simp [classify, AttemptOutcome.mutation, AttemptOutcome.safeToContinue]

/-- The log of an attempt, in its three parts. -/
structure Attempted (table : UpcaseTable) (plan : ArchiveExtractionPlan) (s s' : Site V ExtractionProgress)
    (staging merging ending : List Event) : Prop where
  log : s'.log = s.log ++ staging ++ merging ++ ending
  early : ∀ event ∈ staging, event.IsStaging
  merges : MergesInOrder table plan staging merging
  last : ∀ event ∈ ending, event.IsEnding
  quiet : merging = [] → (∀ event ∈ ending, ¬ event.Cleans plan.archivePath) →
    Grown (AboveWinner table plan) s.disk s'.disk

variable {ε : Type} {ending : List Event}

omit [DecidableEq K] in
/-- Events that change no file are logged after the rest. -/
theorem Attempted.logged {s s₁ s₂ : Site V ExtractionProgress} {later : List Event}
    (h : Attempted table plan s s₁ staging merging ending) (h' : Logged later s₁ s₂)
    (hl : ∀ event ∈ later, event.IsEnding) :
    Attempted table plan s s₂ staging merging (ending ++ later) where
  log := by rw [h'.log, h.log, List.append_assoc]
  early := h.early
  merges := h.merges
  last event hm := (List.mem_append.mp hm).elim (h.last event) (hl event)
  quiet h0 hc := h'.disk ▸ h.quiet h0 fun event hm => hc event (List.mem_append_left _ hm)

theorem spec_extractStaged {s : Site V ExtractionProgress} :
    Spec (extractStaged seams table plan : Prog (Site V ExtractionProgress) ε _) s
      (fun outcome s' => ∃ staging merging ending, Attempted table plan s s' staging merging ending ∧
        (ending = [] ∨ ending = [.unloaded]) ∧ StagedTruth plan merging outcome)
      (fun _ _ => False) fun _ => False := by
  refine spec_bind.mpr (Prog.spec_modify.mpr (spec_bind.mpr (Prog.spec_attempt.mpr ?_)))
  -- However staging and merging end, the reader is released and the end classified.
  have hend : ∀ (o : Except (Thrown String) (Option (OperationFailure ArchiveExtractionFailure)))
      (s₁ : Site V ExtractionProgress) (staging merging : List Event),
      Progressed table plan { s with progress := ⟨false, false⟩ } s₁ staging merging →
      (o = .ok none → Complete plan merging) →
      (∀ f, o = .ok (some f) → merging = [] ∧ f.category ≠ .sourceCleanupFailed) →
      Spec (do
        let _ ← catchUnwind (releaseReader seams : Prog (Site V ExtractionProgress) (Thrown String) Unit)
        let progress ← getProgress
        return classify progress o : Prog (Site V ExtractionProgress) ε _) s₁
        (fun outcome s' => ∃ staging merging ending, Attempted table plan s s' staging merging ending ∧
          (ending = [] ∨ ending = [.unloaded]) ∧ StagedTruth plan merging outcome)
        (fun _ _ => False) fun _ => False := by
    intro o s₁ staging merging hp hnone hsome
    have hatt : Attempted table plan s s₁ staging merging [] :=
      ⟨by simpa using hp.log, hp.early, hp.merges, by simp, fun h0 _ => hp.quiet h0⟩
    have htruth := classify_truth hp hnone hsome
    refine spec_bind.mpr (Prog.spec_attempt.mpr (spec_releaseReader.mono ?_ ?_ fun _ h => h))
    · intro _ s₂ h₂
      refine ⟨staging, merging, [.unloaded], ?_, .inr rfl, ?_⟩
      · exact hatt.logged h₂ (by simp [Event.IsEnding])
      · rw [h₂.progress]
        exact htruth
    · intro _ s₂ h₂
      refine ⟨staging, merging, [], ?_, .inl rfl, ?_⟩
      · simpa using hatt.logged h₂.logged (by simp)
      · rw [h₂.logged.progress]
        exact htruth
  refine (spec_tryExtract rfl).mono ?_ ?_ fun _ h => h
  · rintro o s₁ ⟨staging, merging, hp, hnone, hsome⟩
    exact hend _ s₁ staging merging hp (fun h => hnone (Except.ok.inj h)) fun f h => hsome f (Except.ok.inj h)
  · rintro e s₁ ⟨staging, merging, hp⟩
    exact hend _ s₁ staging merging hp nofun nofun

/-! ## Source cleanup -/

theorem spec_cleanSource {pin : SourceFilePin} {cleanup : SourceCleanup} {s : Site V ExtractionProgress} :
    Spec (cleanSource seams pin cleanup) s
      (fun _ s' => ∃ event, event.Cleans pin.source ∧ event.IsEnding ∧ s'.log = s.log ++ [event])
      (fun _ s' => Idle s s') fun _ => False := by
  cases cleanup with
  | remove =>
    refine SourceFilePin.spec_removeIfUnchanged.mono ?_ (fun _ _ h => h) fun _ h => h
    rintro _ s' ⟨s₁, h₁, -, -, -, hlog⟩
    exact ⟨_, .inl rfl, trivial, by rw [hlog, h₁]⟩
  | backup =>
    refine spec_bind.mpr (SourceFilePin.spec_backupIfUnchanged.mono ?_ (fun _ _ h => h) fun _ h => h)
    rintro backup s' ⟨s₁, h₁, -, -, -, hlog⟩
    exact ⟨_, .inr ⟨backup, rfl⟩, trivial, by rw [hlog, h₁]⟩

/-- The recovery check of a retained source ended the attempt, and passed. -/
def SourceRecovered (source : Path) (ending : List Event) : Prop :=
  [.repinned source, .listed source, .unloaded] <:+ ending

/-- What a recovery check logs: all of it when it passes, less when it does not. -/
def RecoveryLog (source : Path) (safe : Bool) (events : List Event) : Prop :=
  if safe then events = [.repinned source, .listed source, .unloaded]
  else events ∈ [[], [.repinned source], [.repinned source, .listed source], [.repinned source, .unloaded]]

theorem spec_recoverable {pin : SourceFilePin} {s : Site V ExtractionProgress} :
    Spec (recoverable seams pin) s
      (fun safe s' => ∃ events, Logged events s s' ∧ RecoveryLog pin.source safe events)
      (fun _ s' => ∃ events, Logged events s s' ∧ RecoveryLog pin.source false events) fun _ => False := by
  refine spec_bind.mpr (spec_result (SourceFilePin.spec_pinUnchangedForRecovery.mono ?_ ?_ fun _ h => h))
  · rintro _ s' ⟨s₁, h₁, rfl⟩
    have hpin : Logged [.repinned pin.source] s { s₁ with log := s₁.log ++ [.repinned pin.source] } :=
      h₁.then ⟨rfl, rfl, rfl⟩
    refine spec_bind.mpr (spec_result ((spec_listArchive _).mono (fun entries s₂ h₂ => ?_) ?_ fun _ h => h))
    · have hl := hpin.trans h₂
      refine spec_bind.mpr (spec_releaseReader.mono (fun _ s₃ h₃ => ?_) (fun _ s₃ h₃ => ?_) fun _ h => h)
      · exact ⟨_, hl.trans h₃, rfl⟩
      · exact ⟨_, hl.idle h₃, by simp [RecoveryLog]⟩
    · intro e s₂ h₂
      refine ⟨fun d _ => ?_, fun m _ => ⟨_, hpin.idle h₂, by simp [RecoveryLog]⟩⟩
      refine spec_bind.mpr (spec_releaseReader.mono (fun _ s₃ h₃ => ?_) (fun _ s₃ h₃ => ?_) fun _ h => h)
      · exact ⟨_, (hpin.idle h₂).trans h₃, by simp [RecoveryLog]⟩
      · exact ⟨_, (hpin.idle h₂).idle h₃, by simp [RecoveryLog]⟩
  · intro e s₁ h₁
    exact ⟨fun d _ => ⟨[], h₁.logged, by simp [RecoveryLog]⟩, fun m _ => ⟨[], h₁.logged, by simp [RecoveryLog]⟩⟩

theorem RecoveryLog.isEnding {source : Path} {safe : Bool} {events : List Event}
    (h : RecoveryLog source safe events) : ∀ event ∈ events, event.IsEnding ∧ ¬ event.Cleans source := by
  unfold RecoveryLog at h
  split_ifs at h
  · subst h
    simp [Event.IsEnding, Event.Cleans]
  · simp only [List.mem_cons, List.not_mem_nil, or_false] at h
    rcases h with rfl | rfl | rfl | rfl <;> simp [Event.IsEnding, Event.Cleans]

/-- After the reader was let go or not, the log tells whether the check passed. -/
theorem RecoveryLog.recovered_iff {source : Path} {safe : Bool} {before events : List Event}
    (h : RecoveryLog source safe events) (hb : before = [] ∨ before = [.unloaded]) :
    SourceRecovered source (before ++ events) ↔ safe = true := by
  unfold RecoveryLog at h
  unfold SourceRecovered
  split_ifs at h with hs
  · subst h
    exact iff_of_true (List.suffix_append _ _) hs
  · refine iff_of_false ?_ hs
    rw [← List.reverse_prefix]
    simp only [List.mem_cons, List.not_mem_nil, or_false] at h
    rcases hb with rfl | rfl <;> rcases h with rfl | rfl | rfl | rfl <;> simp

/-! ## The whole attempt -/

/-- An attempt is ordered, and reports what its log shows. -/
structure Truthful (table : UpcaseTable) (plan : ArchiveExtractionPlan) (s s' : Site V ExtractionProgress)
    (outcome : AttemptOutcome ArchiveExtractionFailure) (staging merging ending : List Event) : Prop where
  log : s'.log = s.log ++ staging ++ merging ++ ending
  early : ∀ event ∈ staging, event.IsStaging
  merges : MergesInOrder table plan staging merging
  last : ∀ event ∈ ending, event.IsEnding
  cleanedLast : (∃ event ∈ ending, event.Cleans plan.archivePath) → Complete plan merging
  succeeded : outcome.isSuccess = true ↔
    Complete plan merging ∧ ∃ event ∈ ending, event.Cleans plan.archivePath
  failedBefore : outcome.isSuccess = false → outcome.failureCategory ≠ some .sourceCleanupFailed →
    merging = [] → outcome.mutation = .none ∧ outcome.safeToContinue = true ∧
      Grown (AboveWinner table plan) s.disk s'.disk
  failedAfter : outcome.isSuccess = false → outcome.failureCategory ≠ some .sourceCleanupFailed →
    merging ≠ [] → outcome.mutation = .partialOrUnknown ∧ outcome.safeToContinue = false
  cleanupRecovered : outcome.failureCategory = some .sourceCleanupFailed → merging ≠ [] →
    SourceRecovered plan.archivePath ending → outcome.mutation = .committed ∧ outcome.safeToContinue = true
  cleanupFailed : outcome.failureCategory = some .sourceCleanupFailed →
    ¬ (merging ≠ [] ∧ SourceRecovered plan.archivePath ending) →
    outcome.mutation = .partialOrUnknown ∧ outcome.safeToContinue = false

section

omit [DecidableEq K]

variable {s s' : Site V ExtractionProgress} {outcome : AttemptOutcome ArchiveExtractionFailure}

/-- An attempt that did not get to cleanup. -/
theorem Attempted.truthful (h : Attempted table plan s s' staging merging ending)
    (ht : StagedTruth plan merging outcome) (hf : outcome.isSuccess = false)
    (hc : ∀ event ∈ ending, ¬ event.Cleans plan.archivePath) :
    Truthful table plan s s' outcome staging merging ending where
  log := h.log
  early := h.early
  merges := h.merges
  last := h.last
  cleanedLast := fun ⟨event, hm, he⟩ => absurd he (hc event hm)
  succeeded := iff_of_false (by simp [hf]) fun ⟨_, event, hm, he⟩ => hc event hm he
  failedBefore _ _ h0 := ⟨(ht.early hf h0).1, (ht.early hf h0).2, h.quiet h0 hc⟩
  failedAfter _ _ h0 := ht.late hf h0
  cleanupRecovered hcat := absurd hcat ht.category
  cleanupFailed hcat := absurd hcat ht.category

/-- A failed cleanup, after everything won was published. -/
theorem Attempted.cleanupTruthful {detail : String} {mutation : MutationState} {safe : Bool}
    (h : Attempted table plan s s' staging merging ending) 
    (hc : ∀ event ∈ ending, ¬ event.Cleans plan.archivePath)
    (hsafe : safe = true ↔ merging ≠ [] ∧ SourceRecovered plan.archivePath ending)
    (hstaged : merging ≠ [] → safe = true → mutation = .committed) :
    Truthful table plan s s' (cleanupFailure detail mutation safe) staging merging ending where
  log := h.log
  early := h.early
  merges := h.merges
  last := h.last
  cleanedLast := fun ⟨event, hm, he⟩ => absurd he (hc event hm)
  succeeded := iff_of_false (by simp [cleanupFailure, AttemptOutcome.isSuccess])
    fun ⟨_, event, hm, he⟩ => hc event hm he
  failedBefore _ hcat := absurd rfl hcat
  failedAfter _ hcat := absurd rfl hcat
  cleanupRecovered _ h0 hr := by
    have hs := hsafe.mpr ⟨h0, hr⟩
    have hst := hstaged h0 hs
    simp [cleanupFailure, hs, hst, AttemptOutcome.mutation, AttemptOutcome.safeToContinue]
  cleanupFailed _ hn := by
    have hs : safe = false := Bool.eq_false_iff.mpr fun h => hn (hsafe.mp h)
    simp [cleanupFailure, hs, AttemptOutcome.mutation, AttemptOutcome.safeToContinue]

end

theorem spec_cleanUp {pin : SourceFilePin} {cleanup : SourceCleanup} {mutation : MutationState}
    {s s₁ : Site V ExtractionProgress} (hpin : pin.source = plan.archivePath)
    (h : Attempted table plan s s₁ staging merging ending) (hending : ending = [] ∨ ending = [.unloaded])
    (hcomplete : Complete plan merging) (hmutation : mutation = .committed ↔ merging ≠ []) :
    Spec (cleanUp seams pin cleanup mutation : Prog (Site V ExtractionProgress) ε _) s₁
      (fun outcome s' => ∃ staging merging ending, Truthful table plan s s' outcome staging merging ending)
      (fun _ _ => False) fun _ => False := by
  have hquiet : ∀ event ∈ ending, ¬ event.Cleans plan.archivePath := by
    rcases hending with rfl | rfl <;> simp [Event.Cleans]
  have hlost : ¬ SourceRecovered plan.archivePath ending := by
    have hlog : RecoveryLog plan.archivePath false [] := by simp [RecoveryLog]
    simpa using hlog.recovered_iff hending
  refine spec_bind.mpr (Prog.spec_attempt.mpr (spec_cleanSource.mono ?_ ?_ fun _ h => h))
  · -- The source is gone from its name.
    rintro _ s₂ ⟨event, hevent, hend, hlog⟩
    rw [hpin] at hevent
    have hmem : event ∈ ending ++ [event] := by simp
    refine ⟨staging, merging, ending ++ [event], ?_, h.early, h.merges, ?_, fun _ => hcomplete, ?_, nofun,
      nofun, nofun, nofun⟩
    · rw [hlog, h.log, List.append_assoc]
    · intro e he
      rcases List.mem_append.mp he with he | he
      · exact h.last e he
      · rwa [List.mem_singleton.mp he]
    · exact iff_of_true rfl ⟨hcomplete, event, hmem, hevent⟩
  · intro e s₂ h₂
    have h₂' : Attempted table plan s s₂ staging merging ending := by
      simpa using h.logged h₂.logged (by simp)
    have hno : ∀ (detail : String) (m : MutationState),
        Truthful table plan s s₂ (cleanupFailure detail m false) staging merging ending := fun detail m =>
      h₂'.cleanupTruthful hquiet (by simp [hlost]) (by simp)
    cases e with
    | panic message => exact ⟨_, _, _, hno message _⟩
    | error e =>
      dsimp only
      split_ifs with hm
      · -- Entries were committed: the source must prove it is still the Archive.
        have hend : ∀ (safe : Bool) (s₃ : Site V ExtractionProgress) (events : List Event),
            Logged events s₂ s₃ → RecoveryLog pin.source safe events →
            ∃ staging merging ending,
              Truthful table plan s s₃ (cleanupFailure e.text mutation safe) staging merging ending := by
          intro safe s₃ events h₃ hr
          rw [hpin] at hr
          have h₃' := h₂'.logged h₃ fun event he => (hr.isEnding event he).1
          refine ⟨_, _, _, h₃'.cleanupTruthful ?_ ?_ fun _ _ => hm⟩
          · intro event he
            exact (List.mem_append.mp he).elim (hquiet event) fun he => (hr.isEnding event he).2
          · rw [hr.recovered_iff hending]
            exact (and_iff_right (hmutation.mp hm)).symm
        refine spec_bind.mpr (Prog.spec_attempt.mpr (spec_recoverable.mono ?_ ?_ fun _ h => h))
        · rintro safe s₃ ⟨events, h₃, hr⟩
          exact hend safe s₃ events h₃ hr
        · rintro _ s₃ ⟨events, h₃, hr⟩
          exact hend false s₃ events h₃ hr
      · exact ⟨_, _, _, hno e.text _⟩

/-- **An extraction attempt always ends, in order, and reports what its log shows.** -/
theorem extractArchive_truthful (seams : Seams) (table : UpcaseTable) (plan : ArchiveExtractionPlan)
    (cleanup : SourceCleanup) (s : Site V ExtractionProgress) :
    ∃ outcome staging merging ending,
      (extractArchive seams table plan cleanup s : Outcome ε _ × _).1 = .done (.new plan outcome) ∧
      Truthful table plan s (extractArchive seams table plan cleanup s : Outcome ε _ × _).2 outcome
        staging merging ending := by
  have hspec : Spec (extractArchive seams table plan cleanup : Prog (Site V ExtractionProgress) ε _) s
      (fun result s' => ∃ outcome, result = .new plan outcome ∧ ∃ staging merging ending,
        Truthful table plan s s' outcome staging merging ending)
      (fun _ _ => False) fun _ => False := by
    refine spec_bind.mpr (Prog.spec_attempt.mpr ((SourceFilePin.along_new _ _ s).mono ?_ ?_ fun _ h => h))
    · rintro pin s₁ ⟨h₁, hpin, -⟩
      refine spec_bind.mpr (spec_extractStaged.mono ?_ (fun _ _ h => h) fun _ h => h)
      rintro outcome s₂ ⟨staging, merging, ending, hatt, hending, htruth⟩
      have hatt' : Attempted table plan s s₂ staging merging ending := by
        rw [h₁] at hatt
        exact ⟨hatt.log, hatt.early, hatt.merges, hatt.last, hatt.quiet⟩
      cases hsuccess : outcome.isSuccess with
      | false =>
        refine ⟨outcome, rfl, staging, merging, ending, hatt'.truthful htruth hsuccess ?_⟩
        rcases hending with rfl | rfl <;> simp [Event.Cleans]
      | true =>
        obtain ⟨hcomplete, hmutation⟩ := htruth.success hsuccess
        refine spec_bind.mpr ((spec_cleanUp hpin hatt' hending hcomplete hmutation).mono ?_
          (fun _ _ h => h) fun _ h => h)
        rintro outcome s₃ ⟨staging, merging, ending, h⟩
        exact ⟨outcome, rfl, staging, merging, ending, h⟩
    · intro e s₁ h₁
      refine ⟨_, rfl, [], [], [], ?_, by simp, ⟨fun h => absurd rfl h, [], List.nil_prefix, .nil, .nil⟩,
        by simp, by simp, by simp [AttemptOutcome.isSuccess], fun _ _ _ => ⟨rfl, rfl, ?_⟩, by simp, nofun, nofun⟩
      · rw [h₁]
        simp
      · rw [h₁]
        exact .refl _
  unfold Spec at hspec
  split at hspec
  · next result s' hrun =>
    obtain ⟨outcome, rfl, staging, merging, ending, h⟩ := hspec
    exact ⟨outcome, staging, merging, ending, by rw [hrun], by rw [hrun]; exact h⟩
  · exact hspec.elim
  · exact hspec.elim

/-! ## A recovery check that ends in a panic -/

/-- A root with one Archive. -/
def archiveDisk : Disk asciiVolume where
  entries := [(["m".toList].map OsStr.ofText, .dir),
    (["m".toList, "a.bsa".toList].map OsStr.ofText, .leaf (.file [1] 1))]
  rooted := by decide
  named := by decide
  distinct := by decide
  closed := by decide

/-- Its plan, of one winner. -/
def archivePlan : ArchiveExtractionPlan where
  archivePath := ["m".toList, "a.bsa".toList].map OsStr.ofText
  modRoot := ["m".toList].map OsStr.ofText
  entries := ["x".toList]
  mergeEntries := ["x".toList]
  estimatedCapacityBytes := 0

/-- The removal of the source is refused, and the release after the recovery check panics. -/
def panickingRecovery : Seams where
  listEntries _ _ := .ok [⟨"x".toList, 1⟩]
  extractEntry _ _ _ := .ok [7]
  release n := if n = 27 then some "released" else none
  pack _ := .ok []
  recheck _ _ _ := none
  native n := if n = 22 then .error "refused" else .ok ()
  stamp _ := 0
  stage _ := .ok ()
  publish _ := .released

/-- The attempt with these seams. -/
def panickingAttempt : Outcome Empty ArchiveExtractionResult × Site asciiVolume ExtractionProgress :=
  extractArchive panickingRecovery asciiUpcase archivePlan .remove ⟨archiveDisk, [], ⟨false, false⟩, 0, []⟩

/-- A source that was re-pinned and listed is no proof when the release then panics: the attempt
reports a partial mutation, although its winner was committed. -/
theorem recovery_release_panics : ¬ ∀ outcome,
    panickingAttempt.1 = .done (.new archivePlan outcome) →
    outcome.failureCategory = some .sourceCleanupFailed →
    (∃ event ∈ panickingAttempt.2.log, event.Released) →
    [.repinned archivePlan.archivePath, .listed archivePlan.archivePath] <:+ panickingAttempt.2.log →
    outcome.mutation = .committed ∧ outcome.safeToContinue = true := by
  intro h
  have hrun : panickingAttempt.1 = .done (.new archivePlan (.failed
      (.new .sourceCleanupFailed "A source file could not be removed m\\a.bsa: refused") .partialOrUnknown
      false)) := by decide +kernel
  have hlog : panickingAttempt.2.log = [.listed archivePlan.archivePath, .extracted 0 "x".toList [7],
      .published 0 (["m".toList, "x".toList].map OsStr.ofText) true, .unloaded,
      .repinned archivePlan.archivePath, .listed archivePlan.archivePath] := by decide +kernel
  have hcommit : ∃ event ∈ panickingAttempt.2.log, event.Released := by
    rw [hlog]
    exact ⟨_, List.mem_cons_of_mem _ (List.mem_cons_of_mem _ List.mem_cons_self), 0, _, rfl⟩
  have hm := (h _ hrun rfl hcommit (by rw [hlog]; exact List.suffix_append [_, _, _, _] _)).1
  cases hm

end Cao
