import Cao.Evidence.Sealed
import Cao.Lib.OrdMap
import Mathlib.Data.List.Lex
import Mathlib.Data.Prod.Lex

/-!
# Mutation summaries

The durable effects of a run, counted by Mod Root and kind when its evidence is sealed (`run/evidence.rs`).

* `Effect`, `effects`, `deriveMutationSummaries`: the effects of the attempts and of the finalization, and their groups;
* `tally`, `get?_addEffects`: a group counts the effects of its root and kind;
* `recordedCount`, **`mem_deriveMutationSummaries`**: what the summaries are of the retained records.
-/

namespace Cao.Evidence

open Finalize

/-! ## Keys -/

/-- The place of a code point in the order of names. -/
def codePointPlace : CodePoint → Nat
  | .char c => 2 * c.toNat
  | .lone surrogate => 2 * surrogate.toNat + 1

theorem codePointPlace_injective : Function.Injective codePointPlace := by
  intro a b h
  cases a with
  | char c =>
    cases b with
    | char d =>
      have hsame : c.toNat = d.toNat := by simpa [codePointPlace] using h
      exact congrArg CodePoint.char (Char.ext (UInt32.toNat_inj.mp hsame))
    | lone u => simp only [codePointPlace] at h; omega
  | lone u =>
    cases b with
    | char d => simp only [codePointPlace] at h; omega
    | lone v =>
      have hsame : u.toNat = v.toNat := by simpa [codePointPlace] using h
      exact congrArg CodePoint.lone (UInt16.toNat_inj.mp hsame)

/-- The place of a kind. -/
def MutationKind.place : MutationKind → Nat
  | .archiveExtraction => 0
  | .assetProcessing => 1
  | .archiveFinalization => 2

theorem MutationKind.place_injective : Function.Injective MutationKind.place := by
  intro a b h
  cases a <;> cases b <;> first | rfl | cases h

/-- The order of summaries: by Mod Root, then by kind. -/
def summaryOrder (key : Path × MutationKind) : List (List Nat) ×ₗ Nat :=
  toLex (key.1.map (List.map codePointPlace), key.2.place)

theorem summaryOrder_inj {a b : Path × MutationKind} : summaryOrder a = summaryOrder b ↔ a = b := by
  constructor
  · intro h
    have hpair := toLex.injective h
    have hpath : a.1 = b.1 :=
      List.map_injective_iff.mpr (List.map_injective_iff.mpr codePointPlace_injective) (congrArg Prod.fst hpair)
    exact Prod.ext hpath (MutationKind.place_injective (congrArg Prod.snd hpair))
  · exact congrArg summaryOrder

/-! ## Summaries -/

/-- `MutationSummary`. -/
structure MutationSummary where
  modRoot : Path
  kind : MutationKind
  committed : Nat
  partialOrUnknown : Nat
  deriving DecidableEq, Repr

/-- One effect that the summaries count. -/
structure Effect where
  modRoot : Path
  kind : MutationKind
  mutation : MutationState
  count : Nat
  deriving DecidableEq, Repr

/-- The finalization mutations that a run retains. -/
def Storage.finalizationMutations (storage : Storage) : List ArchiveFinalizationMutation :=
  (storage.archiveFinalization.map fun result => result.mutations).getD []

/-- The effects of the completed attempts, and of the finalization outside its output attempts. -/
def effects (storage : Storage) : List Effect :=
  storage.completedAttempts.map (fun attempt => ⟨attempt.modRoot, attempt.kind, attempt.facts.mutation, 1⟩) ++
    storage.finalizationMutations.map fun mutation =>
      ⟨mutation.modRoot, .archiveFinalization, mutation.mutation, mutation.count⟩

/-- The groups of effects. -/
abbrev Grouped := OrdMap summaryOrder MutationSummary

/-- An effect joins the summary of its group. -/
def MutationSummary.add (summary : MutationSummary) (effect : Effect) : MutationSummary :=
  if effect.mutation = .committed then { summary with committed := summary.committed + effect.count }
  else { summary with partialOrUnknown := summary.partialOrUnknown + effect.count }

/-- One effect, grouped. -/
def addEffect (grouped : Grouped) (effect : Effect) : Grouped :=
  if effect.mutation = .none then grouped
  else
    grouped.upsert (effect.modRoot, effect.kind) fun summary =>
      (summary.getD ⟨effect.modRoot, effect.kind, 0, 0⟩).add effect

/-- `derive_mutation_summaries`. -/
def deriveMutationSummaries (storage : Storage) : List MutationSummary :=
  ((effects storage).foldl addEffect .empty).entries.map Prod.snd

/-- `mutation_summaries`, derived when the evidence is sealed. -/
def RunEvidence.mutationSummaries (evidence : RunEvidence) : List MutationSummary :=
  deriveMutationSummaries evidence.storage

/-! ## Groups -/

section Groups

variable {grouped : Grouped} {before : List Effect}

/-- How many effects of a root, a kind and a mutation there are. -/
def tally (effects : List Effect) (modRoot : Path) (kind : MutationKind) (mutation : MutationState) : Nat :=
  ((effects.filter fun effect => effect.modRoot = modRoot ∧ effect.kind = kind ∧ effect.mutation = mutation).map
    Effect.count).sum

theorem tally_append (effects others : List Effect) (modRoot : Path) (kind : MutationKind) (mutation : MutationState) :
    tally (effects ++ others) modRoot kind mutation =
      tally effects modRoot kind mutation + tally others modRoot kind mutation := by
  unfold tally
  rw [List.filter_append, List.map_append, List.sum_append]

theorem tally_singleton (effect : Effect) (modRoot : Path) (kind : MutationKind) (mutation : MutationState) :
    tally [effect] modRoot kind mutation =
      if effect.modRoot = modRoot ∧ effect.kind = kind ∧ effect.mutation = mutation then effect.count else 0 := by
  unfold tally
  by_cases h : effect.modRoot = modRoot ∧ effect.kind = kind ∧ effect.mutation = mutation
  · rw [if_pos h, List.filter_cons_of_pos (by simpa using h)]
    exact Nat.add_zero _
  · rw [if_neg h, List.filter_cons_of_neg (by simpa using h)]
    rfl

/-- The summary of a root and a kind, of some effects. -/
def summaryOf (effects : List Effect) (modRoot : Path) (kind : MutationKind) : MutationSummary :=
  ⟨modRoot, kind, tally effects modRoot kind .committed, tally effects modRoot kind .partialOrUnknown⟩

/-- Groups that count some effects: a root and a kind with no effect has none. -/
def CountsEffects (grouped : Grouped) (effects : List Effect) : Prop :=
  ∀ modRoot kind, grouped.get? (modRoot, kind) =
    if 0 < tally effects modRoot kind .committed + tally effects modRoot kind .partialOrUnknown then
      some ((modRoot, kind), summaryOf effects modRoot kind)
    else none

theorem countsEffects_empty : CountsEffects OrdMap.empty [] := fun _ _ => rfl

/-- The summary of a root and a kind, with one more effect. -/
theorem summaryOf_concat (effect : Effect) (hmutation : effect.mutation ≠ .none) :
    summaryOf (before ++ [effect]) effect.modRoot effect.kind =
      (summaryOf before effect.modRoot effect.kind).add effect := by
  unfold summaryOf MutationSummary.add
  rw [tally_append, tally_append, tally_singleton, tally_singleton]
  cases hstate : effect.mutation with
  | none => exact absurd hstate hmutation
  | committed => simp
  | partialOrUnknown => simp

/-- Another effect changes no count of a root and a kind. -/
theorem tally_concat_ne {effect : Effect} {modRoot : Path} {kind : MutationKind} {mutation : MutationState}
    (h : ¬ (effect.modRoot = modRoot ∧ effect.kind = kind ∧ effect.mutation = mutation)) :
    tally (before ++ [effect]) modRoot kind mutation = tally before modRoot kind mutation := by
  rw [tally_append, tally_singleton, if_neg h, Nat.add_zero]

/-- **An effect is counted once, in its group.** -/
theorem CountsEffects.add (h : CountsEffects grouped before) (effect : Effect) (hcount : 0 < effect.count) :
    CountsEffects (addEffect grouped effect) (before ++ [effect]) := by
  intro modRoot kind
  unfold addEffect
  by_cases hnone : effect.mutation = .none
  · have hsame : ∀ mutation : MutationState, mutation ≠ .none →
        tally (before ++ [effect]) modRoot kind mutation = tally before modRoot kind mutation :=
      fun mutation hne => tally_concat_ne fun hmatch => hne (hmatch.2.2.symm.trans hnone)
    unfold summaryOf
    rw [if_pos hnone, h modRoot kind, hsame .committed nofun, hsame .partialOrUnknown nofun]
    rfl
  rw [if_neg hnone, OrdMap.get?_upsert]
  by_cases hkey : (modRoot, kind) = (effect.modRoot, effect.kind)
  · obtain ⟨rfl, rfl⟩ := Prod.mk.inj hkey
    have hpositive : 0 < tally (before ++ [effect]) effect.modRoot effect.kind .committed +
        tally (before ++ [effect]) effect.modRoot effect.kind .partialOrUnknown := by
      rw [tally_append, tally_append, tally_singleton, tally_singleton]
      cases hstate : effect.mutation with
      | none => exact absurd hstate hnone
      | committed => simp; omega
      | partialOrUnknown => simp; omega
    rw [if_pos rfl, if_pos hpositive, h effect.modRoot effect.kind, summaryOf_concat effect hnone]
    by_cases hbefore : 0 < tally before effect.modRoot effect.kind .committed +
        tally before effect.modRoot effect.kind .partialOrUnknown
    · rw [if_pos hbefore]
      rfl
    · have hzero : summaryOf before effect.modRoot effect.kind = ⟨effect.modRoot, effect.kind, 0, 0⟩ := by
        unfold summaryOf
        congr 1 <;> omega
      rw [if_neg hbefore, hzero]
      rfl
  · have hother : ∀ mutation : MutationState,
        tally (before ++ [effect]) modRoot kind mutation = tally before modRoot kind mutation :=
      fun mutation => tally_concat_ne fun hmatch => hkey (by rw [hmatch.1, hmatch.2.1])
    unfold summaryOf
    rw [if_neg (fun heq => hkey (summaryOrder_inj.mp heq)), h modRoot kind, hother, hother]
    rfl

theorem CountsEffects.foldl (h : CountsEffects grouped before) (after : List Effect)
    (hcounts : ∀ effect ∈ after, 0 < effect.count) : CountsEffects (after.foldl addEffect grouped) (before ++ after) := by
  induction after generalizing grouped before with
  | nil =>
    rw [List.append_nil]
    exact h
  | cons effect after ih =>
    rw [List.foldl_cons, List.append_cons]
    exact ih (h.add effect (hcounts effect List.mem_cons_self)) fun other hother =>
      hcounts other (List.mem_cons_of_mem _ hother)

/-- The groups that there are. -/
theorem CountsEffects.mem_iff {effects : List Effect} (h : CountsEffects grouped effects) (summary : MutationSummary) :
    summary ∈ grouped.entries.map Prod.snd ↔ summary = summaryOf effects summary.modRoot summary.kind ∧
      0 < summary.committed + summary.partialOrUnknown := by
  constructor
  · intro hmem
    obtain ⟨⟨⟨modRoot, kind⟩, value⟩, hentry, rfl⟩ := List.mem_map.mp hmem
    have hget : grouped.get? (modRoot, kind) = some ((modRoot, kind), value) := OrdMap.get?_eq_some.mpr ⟨hentry, rfl⟩
    rw [h modRoot kind] at hget
    split_ifs at hget with hpositive
    cases hget
    exact ⟨rfl, hpositive⟩
  · rintro ⟨hsummary, hpositive⟩
    have hget : grouped.get? (summary.modRoot, summary.kind) = some ((summary.modRoot, summary.kind), summary) := by
      have hcounted : 0 < tally effects summary.modRoot summary.kind .committed +
          tally effects summary.modRoot summary.kind .partialOrUnknown := by
        rw [hsummary] at hpositive
        exact hpositive
      rw [h, if_pos hcounted, ← hsummary]
    exact List.mem_map.mpr ⟨_, (OrdMap.get?_eq_some.mp hget).1, rfl⟩

/-- An entry's key is the root and the kind of its summary. -/
theorem CountsEffects.key_eq {effects : List Effect} (h : CountsEffects grouped effects) {entry : (Path × MutationKind) × MutationSummary}
    (hentry : entry ∈ grouped.entries) : (entry.2.modRoot, entry.2.kind) = entry.1 := by
  obtain ⟨⟨modRoot, kind⟩, value⟩ := entry
  have hget : grouped.get? (modRoot, kind) = some ((modRoot, kind), value) := OrdMap.get?_eq_some.mpr ⟨hentry, rfl⟩
  rw [h modRoot kind] at hget
  split_ifs at hget
  cases hget
  rfl

end Groups

/-! ## Sealed evidence -/

/-- How many retained attempts of a root and a kind have a mutation. -/
def attemptCount (storage : Storage) (modRoot : Path) (kind : MutationKind) (mutation : MutationState) : Nat :=
  storage.completedAttempts.countP fun attempt =>
    attempt.modRoot = modRoot ∧ attempt.kind = kind ∧ attempt.facts.mutation = mutation

/-- The recorded counts of the finalization mutations of a root. -/
def finalizationCount (storage : Storage) (modRoot : Path) (mutation : MutationState) : Nat :=
  ((storage.finalizationMutations.filter fun recorded =>
    recorded.modRoot = modRoot ∧ recorded.mutation = mutation).map fun recorded => recorded.count).sum

/-- The effects that a run retains, of a root and a kind. -/
def recordedCount (storage : Storage) (modRoot : Path) (kind : MutationKind) (mutation : MutationState) : Nat :=
  attemptCount storage modRoot kind mutation +
    if kind = .archiveFinalization then finalizationCount storage modRoot mutation else 0

theorem tally_attempts (attempts : List CompletedAttempt) (modRoot : Path) (kind : MutationKind) (mutation : MutationState) :
    tally (attempts.map fun attempt => ⟨attempt.modRoot, attempt.kind, attempt.facts.mutation, 1⟩) modRoot kind mutation =
      attempts.countP fun attempt =>
        attempt.modRoot = modRoot ∧ attempt.kind = kind ∧ attempt.facts.mutation = mutation := by
  induction attempts with
  | nil => rfl
  | cons attempt attempts ih =>
    rw [List.map_cons, ← List.singleton_append, tally_append, tally_singleton, ih, List.countP_cons, Nat.add_comm]
    simp only [decide_eq_true_eq]

theorem tally_mutations (mutations : List ArchiveFinalizationMutation) (modRoot : Path) (kind : MutationKind)
    (mutation : MutationState) :
    tally (mutations.map fun recorded => ⟨recorded.modRoot, .archiveFinalization, recorded.mutation, recorded.count⟩)
        modRoot kind mutation =
      if kind = .archiveFinalization then
        ((mutations.filter fun recorded => recorded.modRoot = modRoot ∧ recorded.mutation = mutation).map
          fun recorded => recorded.count).sum
      else 0 := by
  induction mutations with
  | nil =>
    split_ifs <;> rfl
  | cons recorded mutations ih =>
    rw [List.map_cons, ← List.singleton_append, tally_append, tally_singleton, ih]
    by_cases hkind : kind = .archiveFinalization
    · subst hkind
      by_cases hmatch : recorded.modRoot = modRoot ∧ recorded.mutation = mutation
      · rw [List.filter_cons_of_pos (by simpa using hmatch)]
        simp [hmatch]
      · rw [List.filter_cons_of_neg (by simpa using hmatch), if_neg (fun h => hmatch ⟨h.1, h.2.2⟩), Nat.zero_add]
    · rw [if_neg (fun h => hkind h.2.1.symm), if_neg hkind, if_neg hkind]

theorem tally_effects (storage : Storage) (modRoot : Path) (kind : MutationKind) (mutation : MutationState) :
    tally (effects storage) modRoot kind mutation = recordedCount storage modRoot kind mutation := by
  unfold effects recordedCount attemptCount finalizationCount
  rw [tally_append, tally_attempts, tally_mutations]

theorem countsEffects_effects (storage : Storage) :
    CountsEffects ((effects storage).foldl addEffect .empty) (effects storage) := by
  have hcounts : ∀ effect ∈ effects storage, 0 < effect.count := by
    intro effect hmem
    rcases List.mem_append.mp hmem with hmem | hmem
    · obtain ⟨attempt, -, rfl⟩ := List.mem_map.mp hmem
      exact Nat.one_pos
    · obtain ⟨recorded, -, rfl⟩ := List.mem_map.mp hmem
      exact recorded.counted
  have hgroups := countsEffects_empty.foldl (effects storage) hcounts
  rwa [List.nil_append] at hgroups

/-- **The summaries count every retained effect once**: a summary is there exactly when its root and kind have an effect,
with the number of their effects. -/
theorem mem_deriveMutationSummaries (storage : Storage) (summary : MutationSummary) :
    summary ∈ deriveMutationSummaries storage ↔
      summary.committed = recordedCount storage summary.modRoot summary.kind .committed ∧
        summary.partialOrUnknown = recordedCount storage summary.modRoot summary.kind .partialOrUnknown ∧
          0 < summary.committed + summary.partialOrUnknown := by
  unfold deriveMutationSummaries
  rw [(countsEffects_effects storage).mem_iff, ← tally_effects, ← tally_effects]
  obtain ⟨modRoot, kind, committed, partialOrUnknown⟩ := summary
  simp only [summaryOf, MutationSummary.mk.injEq, true_and, and_assoc]

/-- No two summaries are of one root and kind. -/
theorem nodup_deriveMutationSummaries (storage : Storage) :
    ((deriveMutationSummaries storage).map fun summary => (summary.modRoot, summary.kind)).Nodup := by
  have hkeys : (deriveMutationSummaries storage).map (fun summary => (summary.modRoot, summary.kind)) =
      ((effects storage).foldl addEffect .empty).entries.map Prod.fst := by
    unfold deriveMutationSummaries
    rw [List.map_map]
    exact List.map_congr_left fun entry hentry => (countsEffects_effects storage).key_eq hentry
  rw [hkeys]
  refine List.pairwise_map.mpr (((effects storage).foldl addEffect .empty).ascending.imp fun hlt heq => ?_)
  exact absurd (congrArg summaryOrder heq) hlt.ne

end Cao.Evidence
