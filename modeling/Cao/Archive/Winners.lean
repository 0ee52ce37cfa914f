import Cao.Archive.Conflicts
import Mathlib.Data.List.Perm.Subperm
import Mathlib.Data.List.Forall2

/-!
# The preflight picks the winners

* `Provides`, `Merges`, `providers`, `Resolved`: what a plan of one Mod Root must be;
* `Tallied`, **`tallied_push`**: the participants map, as the manifests read so far give it;
* **`spec_surveyRoot`**, **`spec_freeze`**: the two passes;
* **`preflight_winners`**: every plan the preflight returns picks exactly the winners.
-/

namespace Cao

open Prog (Spec)

variable {table : UpcaseTable} {view : FileView} {listEntries : Path → Answer (List ArchiveEntry)}

/-! ## What a plan provides -/

/-- The game path of an entry, extracted beside its Archive. -/
def gamePathOf (root archive : Path) (entry : Text) : Text :=
  gamePathText ((joinGamePath (extractionDirectory root archive) entry).drop root.length)

/-- The game path of a plan's entry. -/
def ArchiveExtractionPlan.gamePath (plan : ArchiveExtractionPlan) (entry : Text) : Text :=
  gamePathOf plan.modRoot plan.archivePath entry

/-- Two game paths are one on a case-insensitive volume. -/
def SameGamePath (table : UpcaseTable) (a b : Text) : Prop := gamePathKey table a = gamePathKey table b

instance (a b : Text) : Decidable (SameGamePath table a b) := by unfold SameGamePath; infer_instance

/-- The Archive provides the game path. -/
def Provides (table : UpcaseTable) (plan : ArchiveExtractionPlan) (gamePath : Text) : Prop :=
  ∃ entry ∈ plan.entries, SameGamePath table (plan.gamePath entry) gamePath

instance (plan : ArchiveExtractionPlan) (gamePath : Text) : Decidable (Provides table plan gamePath) := by
  unfold Provides; infer_instance

/-- The game path is published from the Archive. -/
def Merges (table : UpcaseTable) (plan : ArchiveExtractionPlan) (gamePath : Text) : Prop :=
  ∃ entry ∈ plan.mergeEntries, SameGamePath table (plan.gamePath entry) gamePath

/-- The Archives that provide a game path, from high to low precedence. -/
def providers (table : UpcaseTable) (plans : List ArchiveExtractionPlan) (gamePath : Text) : List Path :=
  (plans.filter fun plan => Provides table plan gamePath).map (·.archivePath)

/-- **The plans and collisions of one Mod Root are the resolution of its Archives.** -/
structure Resolved (listEntries : Path → Answer (List ArchiveEntry)) (root : RootArchives table)
    (plans : List ArchiveExtractionPlan) (collisions : List ArchiveCollision) : Prop where
  archives : plans.map (·.archivePath) = root.archives
  modRoot : ∀ plan ∈ plans, plan.modRoot = root.root
  /-- Each Archive's entries are its whole manifest, in manifest order. -/
  manifest : ∀ plan ∈ plans, ∃ entries, listEntries plan.archivePath = .ok entries ∧
    entries.map (fun entry => canonicalArchiveEntryPath entry.name) = plan.entries.map .ok
  /-- No two entries of an Archive are one game path, and those it merges are some of them. -/
  once : ∀ plan ∈ plans, (plan.entries.map fun e => gamePathKey table (plan.gamePath e)).Nodup ∧
    plan.mergeEntries.Sublist plan.entries
  /-- A provided game path no Loose Asset holds is merged from the first Archive that provides it, and
  from no other. -/
  winner : ∀ gamePath, root.loose.contains gamePath = false → (∃ plan ∈ plans, Provides table plan gamePath) →
    ∃ before plan after, plans = before ++ plan :: after ∧ (∀ p ∈ before, ¬ Provides table p gamePath) ∧
      Merges table plan gamePath ∧ ∀ p ∈ plans, Merges table p gamePath → p = plan
  /-- A game path a Loose Asset holds is merged from none. -/
  loose : ∀ gamePath, root.loose.contains gamePath = true → ∀ plan ∈ plans, ¬ Merges table plan gamePath
  /-- The collisions are the paths two or more Archives provide, each once. -/
  collided : ∀ gamePath, (∃ c ∈ collisions, SameGamePath table c.gamePath gamePath) ↔
    2 ≤ (providers table plans gamePath).length
  collision : ∀ c ∈ collisions, c.winningArchive :: c.shadowedArchives = providers table plans c.gamePath ∧
    c.modRoot = root.root ∧ c.looseAssetWins = root.loose.contains c.gamePath
  ascending : collisions.Pairwise fun c c' => gamePathKey table c.gamePath < gamePathKey table c'.gamePath
  /-- No planned output is a proper ancestor of another. -/
  disjoint : ∀ p ∈ plans, ∀ q ∈ plans, ∀ a ∈ p.mergeEntries, ∀ b ∈ q.mergeEntries,
    ¬ IsAncestor table (p.gamePath a) (q.gamePath b)

/-! ## The participants -/

/-- An Archive with the game paths read of it. -/
abbrev Listing := Path × List Text

/-- The listing provides the game path. -/
def Lists (table : UpcaseTable) (listing : Listing) (gamePath : Text) : Prop :=
  ∃ p ∈ listing.2, SameGamePath table p gamePath

instance (listing : Listing) (gamePath : Text) : Decidable (Lists table listing gamePath) := by
  unfold Lists; infer_instance

/-- The Archives whose listings provide the game path. -/
def listers (table : UpcaseTable) (listings : List Listing) (gamePath : Text) : List Path :=
  (listings.filter fun listing => Lists table listing gamePath).map Prod.fst

/-- The participants map holds the providers of every game path. -/
def Tallied (provided : Providers table) (listings : List Listing) : Prop :=
  ∀ gamePath, ((provided.get? gamePath).map Prod.snd).getD [] = listers table listings gamePath ∧
    (provided.get? gamePath = none ↔ listers table listings gamePath = [])

theorem tallied_empty : Tallied (.empty : Providers table) [] := fun _ => ⟨rfl, by simp [listers]⟩

theorem listers_append (l l' : List Listing) (gamePath : Text) :
    listers table (l ++ l') gamePath = listers table l gamePath ++ listers table l' gamePath := by
  simp [listers]

theorem lists_congr {listing : Listing} {a b : Text} (h : SameGamePath table a b) :
    Lists table listing a ↔ Lists table listing b :=
  ⟨fun ⟨p, hp, hpa⟩ => ⟨p, hp, hpa.trans h⟩, fun ⟨p, hp, hpb⟩ => ⟨p, hp, hpb.trans h.symm⟩⟩

theorem listers_congr {l : List Listing} {a b : Text} (h : SameGamePath table a b) :
    listers table l a = listers table l b := by
  unfold listers
  exact congrArg _ (List.filter_congr fun _ _ => decide_eq_decide.mpr (lists_congr h))

/-- An Archive nothing is read of yet provides nothing. -/
theorem tallied_start {provided : Providers table} {listings : List Listing} (h : Tallied provided listings)
    (archive : Path) : Tallied provided (listings ++ [(archive, [])]) := by
  intro gamePath
  have hnone : listers table [(archive, [])] gamePath = [] := by simp [listers, Lists]
  rw [listers_append, hnone, List.append_nil]
  exact h gamePath

theorem lists_push {archive : Path} {gamePaths : List Text} {gamePath p : Text} :
    Lists table (archive, gamePaths ++ [gamePath]) p ↔
      Lists table (archive, gamePaths) p ∨ SameGamePath table gamePath p := by
  simp only [Lists, List.mem_append, List.mem_singleton]
  constructor
  · rintro ⟨q, hq | rfl, h⟩
    · exact .inl ⟨q, hq, h⟩
    · exact .inr h
  · rintro (⟨q, hq, h⟩ | h)
    · exact ⟨q, .inl hq, h⟩
    · exact ⟨gamePath, .inr rfl, h⟩

/-- **A new game path of the Archive being read joins its providers.** -/
theorem tallied_push {provided : Providers table} {listings : List Listing} {archive : Path}
    {gamePaths : List Text} {gamePath : Text} (h : Tallied provided (listings ++ [(archive, gamePaths)]))
    (hnew : ¬ Lists table (archive, gamePaths) gamePath) :
    Tallied (provided.upsert gamePath fun archives => archives.getD [] ++ [archive])
      (listings ++ [(archive, gamePaths ++ [gamePath])]) := by
  intro p
  rw [OrdMap.get?_upsert]
  by_cases hp : SameGamePath table gamePath p
  · have hnew' : ¬ Lists table (archive, gamePaths) p := fun h => hnew ((lists_congr hp).mpr h)
    have hlast : listers table [(archive, gamePaths ++ [gamePath])] p = [archive] := by
      simp [listers, lists_push, hp]
    have hbefore : listers table (listings ++ [(archive, gamePaths)]) gamePath = listers table listings p := by
      have hnone : listers table [(archive, gamePaths)] p = [] := by simp [listers, hnew']
      rw [listers_congr hp, listers_append, hnone, List.append_nil]
    rw [if_pos hp.symm, listers_append, hlast]
    have hold := (h gamePath).1
    rw [hbefore] at hold
    cases hg : provided.get? gamePath with
    | none =>
      rw [hg] at hold
      simp only [Option.map_none, Option.getD_none] at hold
      simp [← hold]
    | some e =>
      rw [hg] at hold
      simp only [Option.map_some, Option.getD_some] at hold
      simp [hold]
  · have hsame : listers table (listings ++ [(archive, gamePaths ++ [gamePath])]) p =
        listers table (listings ++ [(archive, gamePaths)]) p := by
      rw [listers_append, listers_append]
      congr 1
      simp only [listers, List.filter_cons, lists_push, hp, or_false, List.filter_nil, decide_eq_true_eq]
      split_ifs <;> rfl
    rw [if_neg fun he => hp he.symm, hsame]
    exact h p

/-! ## Reading the manifests -/

/-- The destination of an entry is contained, and free or held by a Loose Asset. -/
structure ValidDestination (view : FileView) (root : RootArchives table) (archive : Path) (entry : Text) :
    Prop where
  canonical : canonicalArchiveEntryPath entry = .ok entry
  contained : ∃ relative, joinGamePath (extractionDirectory root.root archive) entry = root.root ++ relative
  unoccupied : validateExistingDestination view table root.root
    (joinGamePath (extractionDirectory root.root archive) entry)
    (root.loose.contains (gamePathOf root.root archive entry)) = .ok ()

/-- What is checked of a manifest, of which `before` is read. -/
structure PassOf (view : FileView) (root : RootArchives table) (archive : Path) (listings : List Listing)
    (before : List ArchiveEntry) (pass : EntryPass table) : Prop where
  read : before.map (fun entry => canonicalArchiveEntryPath entry.name) = pass.entries.map .ok
  paths : pass.gamePaths = pass.entries.map (gamePathOf root.root archive)
  own : ∀ p, pass.own.contains p = true ↔ Lists table (archive, pass.gamePaths) p
  nodup : (pass.gamePaths.map (gamePathKey table)).Nodup
  tallied : Tallied pass.provided (listings ++ [(archive, pass.gamePaths)])
  valid : ∀ entry ∈ pass.entries, ValidDestination view root archive entry

theorem yields_poll : Prog.Yields poll fun _ => True := by
  rintro (_ | ⟨_ | _, polls⟩) <;> exact trivial

variable {root : RootArchives table} {archive : Path} {listings : List Listing}

/-- **One entry.** -/
theorem yields_planEntry {before : List ArchiveEntry} {pass : EntryPass table} {entry : ArchiveEntry}
    (h : PassOf view root archive listings before pass) :
    Prog.Yields (planEntry view root archive pass entry)
      (PassOf view root archive listings (before ++ [entry])) := by
  unfold planEntry
  refine yields_poll.bind fun _ _ => ?_
  cases hc : canonicalArchiveEntryPath entry.name with
  | error detail => exact Prog.yields_fail
  | ok entryPath =>
    simp only
    split
    · exact Prog.yields_fail
    · next relative hrel =>
      have hdest := relativeTo_eq_some.mp (Option.filter_eq_some_iff.mp hrel).1
      have hpath : gamePathText relative = gamePathOf root.root archive entryPath := by
        rw [gamePathOf, hdest, List.drop_left]
      split_ifs with hown
      · exact Prog.yields_fail
      · split
        · exact Prog.yields_fail
        · next hfree =>
          rw [hpath] at hown hfree ⊢
          have hnew : ¬ Lists table (archive, pass.gamePaths) (gamePathOf root.root archive entryPath) :=
            fun hl => hown ((h.own _).mpr hl)
          refine Prog.yields_pure ⟨?_, ?_, fun p => ?_, ?_, tallied_push h.tallied hnew, ?_⟩
          · rw [List.map_append, List.map_append, h.read, List.map_singleton, hc]
            rfl
          · rw [List.map_append, ← h.paths, List.map_singleton]
          · rw [OrdMap.contains_insert, lists_push, h.own, or_comm]
            exact or_congr_right eq_comm
          · rw [List.map_append, List.nodup_append]
            refine ⟨h.nodup, List.nodup_singleton _, ?_⟩
            rintro a ha b hb rfl
            obtain ⟨p, hp, rfl⟩ := List.mem_map.mp ha
            exact hnew ⟨p, hp, List.mem_singleton.mp hb⟩
          · intro e he
            rcases List.mem_append.mp he with he | he
            · exact h.valid e he
            · rw [List.mem_singleton] at he
              subst he
              exact ⟨canonicalArchiveEntryPath_idem hc, ⟨relative, hdest⟩, hfree⟩

/-- The draft of an Archive: its manifest, read and checked. -/
structure Drafted (view : FileView) (listEntries : Path → Answer (List ArchiveEntry)) (index : Nat)
    (root : RootArchives table) (archive : Path) (draft : Draft) : Prop where
  position : draft.index = index
  source : draft.plan.archivePath = archive
  scope : draft.plan.modRoot = root.root
  listed : ∃ entries, listEntries archive = .ok entries ∧
    entries.map (fun entry => canonicalArchiveEntryPath entry.name) = draft.plan.entries.map .ok ∧
    draft.plan.estimatedCapacityBytes = estimatedCapacityBytes entries
  paths : draft.gamePaths = draft.plan.entries.map (gamePathOf root.root archive)
  nodup : (draft.gamePaths.map (gamePathKey table)).Nodup
  valid : ∀ entry ∈ draft.plan.entries, ValidDestination view root archive entry

/-- The listing of a draft. -/
def Draft.listing (draft : Draft) : Listing := (draft.plan.archivePath, draft.gamePaths)

/-- **One Archive.** -/
theorem yields_planArchive {index : Nat} {state : Providers table × List Draft} {drafts : List Draft}
    (h : Tallied state.1 (drafts.map Draft.listing)) :
    Prog.Yields (planArchive view listEntries index root state archive) fun next =>
      ∃ draft, next.2 = state.2 ++ [draft] ∧ Drafted view listEntries index root archive draft ∧
        Tallied next.1 ((drafts ++ [draft]).map Draft.listing) := by
  unfold planArchive
  refine yields_poll.bind fun _ _ => ?_
  cases hl : listEntries archive with
  | error detail => exact Prog.yields_fail
  | panic message => exact Prog.yields_fail
  | ok entries =>
    have hstart : PassOf view root archive (drafts.map Draft.listing) [] ⟨.empty, [], [], state.1⟩ :=
      ⟨rfl, rfl, fun p => by simp [Lists], by simp, tallied_start h archive, by simp⟩
    refine (Prog.Yields.foldEach (J := fun before _ => PassOf view root archive (drafts.map Draft.listing) before)
      (fun before entry after pass hp => yields_planEntry hp) hstart).bind fun pass hp => ?_
    refine Prog.yields_pure ⟨_, rfl, ⟨rfl, rfl, rfl, ⟨entries, hl, hp.read, rfl⟩, hp.paths, hp.nodup, hp.valid⟩, ?_⟩
    rw [List.map_append]
    exact hp.tallied

/-- The survey of one Mod Root. -/
structure RootSurvey (view : FileView) (listEntries : Path → Answer (List ArchiveEntry))
    (indexed : RootArchives table × Nat) (part : Providers table × List Draft) : Prop where
  drafted : List.Forall₂ (Drafted view listEntries indexed.2 indexed.1) indexed.1.archives part.2
  tallied : Tallied part.1 (part.2.map Draft.listing)

/-- **One Mod Root.** -/
theorem yields_surveyRoot {survey : Survey table} {indexed : RootArchives table × Nat} :
    Prog.Yields (surveyRoot view listEntries survey indexed) fun next =>
      ∃ part, next.participants = survey.participants ++ [part.1] ∧ next.drafts = survey.drafts ++ part.2 ∧
        RootSurvey view listEntries indexed part := by
  unfold surveyRoot
  refine (Prog.Yields.foldEach (J := fun before _ (state : Providers table × List Draft) =>
    ∃ drafts, state.2 = survey.drafts ++ drafts ∧
      List.Forall₂ (Drafted view listEntries indexed.2 indexed.1) before drafts ∧
      Tallied state.1 (drafts.map Draft.listing)) ?_ ⟨[], by simp, .nil, tallied_empty⟩).bind ?_
  · rintro before archive after state ⟨drafts, hd, hf, ht⟩
    refine (yields_planArchive ht).mono ?_
    rintro next ⟨draft, hn, hdraft, ht'⟩
    refine ⟨drafts ++ [draft], ?_, List.rel_append hf (.cons hdraft .nil), ht'⟩
    rw [hn, hd, List.append_assoc]
  · rintro ⟨provided, drafts'⟩ ⟨drafts, rfl, hf, ht⟩
    exact Prog.yields_pure ⟨(provided, drafts), rfl, rfl, hf, ht⟩

/-- **Every Mod Root.** -/
theorem yields_survey (indexed : List (RootArchives table × Nat)) :
    Prog.Yields (Prog.foldEach (surveyRoot view listEntries) ⟨[], []⟩ indexed) fun survey =>
      ∃ parts, survey.participants = parts.map Prod.fst ∧ survey.drafts = parts.flatMap Prod.snd ∧
        List.Forall₂ (RootSurvey view listEntries) indexed parts := by
  refine Prog.Yields.foldEach (J := fun before _ (survey : Survey table) =>
    ∃ parts, survey.participants = parts.map Prod.fst ∧ survey.drafts = parts.flatMap Prod.snd ∧
      List.Forall₂ (RootSurvey view listEntries) before parts) ?_ ?_
  swap
  · exact ⟨[], rfl, rfl, .nil⟩
  rintro before next after survey ⟨parts, hp, hd, hf⟩
  refine yields_surveyRoot.mono ?_
  rintro survey' ⟨part, hp', hd', hpart⟩
  refine ⟨parts ++ [part], ?_, ?_, List.rel_append hf (.cons hpart .nil)⟩
  · rw [hp', hp]
    simp
  · rw [hd', hd]
    simp

/-! ## Freezing the winners -/

/-- The entry merges: its Archive is the first provider and no Loose Asset holds its game path. -/
def winsItem (provided : Providers table) (root : RootArchives table) (archive : Path)
    (item : Text × Text) : Bool :=
  (((provided.get? item.2).map Prod.snd).getD []).head? = some archive && !root.loose.contains item.2

/-- The winners of a plan, with their game paths. -/
def mergedOf (provided : Providers table) (root : RootArchives table) (draft : Draft) : List (Text × Text) :=
  (draft.plan.entries.zip draft.gamePaths).filter (winsItem provided root draft.plan.archivePath)

/-- A plan with its winners frozen. -/
def frozen (provided : Providers table) (root : RootArchives table) (draft : Draft) : ArchiveExtractionPlan :=
  { draft.plan with mergeEntries := (mergedOf provided root draft).map Prod.fst }

/-- No planned output is a proper ancestor of another. -/
def Flat (planned : OrdSet (gamePathKey table)) : Prop :=
  ∀ e ∈ planned.entries, ∀ f ∈ planned.entries, ¬ IsAncestor table e.1 f.1

theorem isAncestor_irrefl (a : Text) : ¬ IsAncestor table a a := by
  rintro ⟨rest, h⟩
  have := congrArg List.length h
  simp at this

theorem isAncestor_congr {a b p q : Text} (ha : SameGamePath table a b) (hp : SameGamePath table p q) :
    IsAncestor table a p ↔ IsAncestor table b q := by
  unfold IsAncestor
  unfold SameGamePath at ha hp
  rw [ha, hp]

/-- The entries of a set after an insertion. -/
theorem mem_insert {planned : OrdSet (gamePathKey table)} {p : Text} {e : Text × Unit}
    (he : e ∈ (planned.insert p).entries) : e ∈ planned.entries ∨ SameGamePath table e.1 p := by
  rcases OrdMap.mem_upsert.mp he with ⟨he, -⟩ | he
  · exact .inl he
  · refine .inr ?_
    cases hg : planned.get? p with
    | none =>
      rw [hg] at he
      rw [he]
      rfl
    | some e' =>
      rw [hg] at he
      rw [he]
      exact (OrdMap.get?_eq_some.mp hg).2

theorem Flat.insert {planned : OrdSet (gamePathKey table)} {p : Text} (h : Flat planned)
    (hp : conflictsWithPlanned planned p = false) : Flat (planned.insert p) := by
  have hnone : ∀ e ∈ planned.entries, ¬ IsAncestor table e.1 p ∧ ¬ IsAncestor table p e.1 := by
    intro e he
    rw [← not_or]
    intro hc
    rw [conflicts_iff.mpr ⟨e, he, hc⟩] at hp
    cases hp
  intro e he f hf hef
  rcases mem_insert he with he | he <;> rcases mem_insert hf with hf | hf
  · exact h e he f hf hef
  · exact (hnone e he).1 ((isAncestor_congr rfl hf).mp hef)
  · exact (hnone f hf).2 ((isAncestor_congr he rfl).mp hef)
  · exact isAncestor_irrefl p ((isAncestor_congr he hf).mp hef)

variable {provided : Providers table}

/-- What the loop over one plan's entries has done, of which `before` are past. -/
structure Freezing (provided : Providers table) (root : RootArchives table) (archive : Path)
    (planned : OrdSet (gamePathKey table)) (before : List (Text × Text))
    (state : OrdSet (gamePathKey table) × List Text) : Prop where
  merged : state.2 = (before.filter (winsItem provided root archive)).map Prod.fst
  planned : ∀ p, state.1.contains p = true ↔ planned.contains p = true ∨
    ∃ item ∈ before.filter (winsItem provided root archive), SameGamePath table p item.2
  flat : Flat state.1

/-- **One entry.** -/
theorem yields_freezeEntry {planned : OrdSet (gamePathKey table)} {before : List (Text × Text)}
    {state : OrdSet (gamePathKey table) × List Text} {item : Text × Text}
    (h : Freezing provided root archive planned before state) (hitem : provided.get? item.2 ≠ none) :
    Prog.Yields (freezeEntry provided root archive state item)
      (Freezing provided root archive planned (before ++ [item])) := by
  unfold freezeEntry
  split
  · next hnone => exact absurd hnone hitem
  · next key archives hget =>
    have hwins : winsItem provided root archive item = true ↔
        ¬ (archives.head? ≠ some archive ∨ root.loose.contains item.2 = true) := by
      simp [winsItem, hget]
    split_ifs with hskip hconflict
    · have hno : winsItem provided root archive item = false := by
        rw [← Bool.not_eq_true, hwins, not_not]
        exact hskip
      refine Prog.yields_pure ⟨?_, ?_, h.flat⟩
      · rw [List.filter_append, List.filter_singleton, hno]
        simpa using h.merged
      · rw [List.filter_append, List.filter_singleton, hno]
        simpa using h.planned
    · exact Prog.yields_fail
    · have hyes := hwins.mpr hskip
      refine Prog.yields_pure ⟨?_, fun p => ?_, h.flat.insert (by simpa using hconflict)⟩
      · rw [List.filter_append, List.filter_singleton, hyes, List.map_append, ← h.merged]
        rfl
      · rw [OrdMap.contains_insert, h.planned, List.filter_append, List.filter_singleton, hyes]
        simp only [cond_true, List.mem_append, List.mem_singleton]
        constructor
        · rintro (hp | hp | ⟨i, hi, hp⟩)
          · exact .inr ⟨item, .inr rfl, hp⟩
          · exact .inl hp
          · exact .inr ⟨i, .inl hi, hp⟩
        · rintro (hp | ⟨i, hi | rfl, hp⟩)
          · exact .inr (.inl hp)
          · exact .inr (.inr ⟨i, hi, hp⟩)
          · exact .inl hp

/-- The root and the participants of a draft. -/
def Ready (roots : List (RootArchives table)) (participants : List (Providers table)) (draft : Draft)
    (root : RootArchives table) (provided : Providers table) : Prop :=
  roots[draft.index]? = some root ∧ participants[draft.index]? = some provided ∧
    ∀ p ∈ draft.gamePaths, provided.get? p ≠ none

variable {roots : List (RootArchives table)} {participants : List (Providers table)}

/-- What the loop over the plans has done, of which `before` are past. -/
structure Frozen (roots : List (RootArchives table)) (participants : List (Providers table))
    (before : List Draft) (state : List (OrdSet (gamePathKey table)) × List ArchiveExtractionPlan) : Prop where
  plans : List.Forall₂ (fun draft plan => ∃ root provided, Ready roots participants draft root provided ∧
    plan = frozen provided root draft) before state.2
  length : state.1.length = roots.length
  planned : ∀ i planned, state.1[i]? = some planned → Flat planned ∧
    ∀ draft ∈ before, draft.index = i → ∀ root provided, Ready roots participants draft root provided →
      ∀ item ∈ mergedOf provided root draft, planned.contains item.2 = true

/-- **One plan.** -/
theorem yields_freezeArchive {before : List Draft} {draft : Draft} {root : RootArchives table}
    {state : List (OrdSet (gamePathKey table)) × List ArchiveExtractionPlan}
    (h : Frozen roots participants before state) (hr : Ready roots participants draft root provided) :
    Prog.Yields (freezeArchive roots participants state draft)
      (Frozen roots participants (before ++ [draft])) := by
  obtain ⟨hroot, hprovided, hget⟩ := hr
  have hi : draft.index < state.1.length := by
    rw [h.length]
    exact (List.getElem?_eq_some_iff.mp hroot).1
  have hstate : state.1[draft.index]? = some state.1[draft.index] := List.getElem?_eq_getElem hi
  have hold := h.planned _ _ hstate
  unfold freezeArchive
  simp only [hroot, hprovided, hstate]
  refine (Prog.Yields.foldEach (J := fun past rest state' =>
    Freezing provided root draft.plan.archivePath state.1[draft.index] past state' ∧
      past ++ rest = draft.plan.entries.zip draft.gamePaths) ?_ ⟨⟨rfl, fun p => by simp, hold.1⟩, rfl⟩).bind ?_
  · rintro past item rest state' ⟨hf, hitems⟩
    have hmem : item ∈ draft.plan.entries.zip draft.gamePaths := by
      rw [← hitems]
      simp
    refine (yields_freezeEntry hf (hget _ (List.of_mem_zip hmem).2)).mono fun next hn => ⟨hn, ?_⟩
    rw [← hitems, List.append_assoc, List.singleton_append]
  · rintro ⟨planned, mergeEntries⟩ ⟨hf, -⟩
    refine Prog.yields_pure ⟨List.rel_append h.plans (.cons ⟨root, provided, ⟨hroot, hprovided, hget⟩, ?_⟩ .nil),
      by rw [List.length_set, h.length], ?_⟩
    · have hm : mergeEntries = (mergedOf provided root draft).map Prod.fst := hf.merged
      rw [frozen, hm]
    · intro i planned' hp
      by_cases hdi : draft.index = i
      · subst hdi
        rw [List.getElem?_set_self hi, Option.some.injEq] at hp
        subst hp
        refine ⟨hf.flat, fun d hd hdi root' provided' hr' item hitem => ?_⟩
        rw [hf.planned]
        rcases List.mem_append.mp hd with hd | hd
        · exact .inl (hold.2 d hd hdi _ _ hr' item hitem)
        · rw [List.mem_singleton] at hd
          subst hd
          obtain ⟨hroot', hprovided', -⟩ := hr'
          rw [hroot, Option.some.injEq] at hroot'
          rw [hprovided, Option.some.injEq] at hprovided'
          subst hroot'
          subst hprovided'
          exact .inr ⟨item, hitem, rfl⟩
      · rw [List.getElem?_set_ne hdi] at hp
        refine ⟨(h.planned i _ hp).1, fun d hd hdi' root' provided' hr' item hitem => ?_⟩
        rcases List.mem_append.mp hd with hd | hd
        · exact (h.planned i _ hp).2 d hd hdi' _ _ hr' item hitem
        · rw [List.mem_singleton] at hd
          subst hd
          exact absurd hdi' hdi

/-- **Every plan.** -/
theorem yields_freeze {drafts : List Draft}
    (hr : ∀ draft ∈ drafts, ∃ root provided, Ready roots participants draft root provided) :
    Prog.Yields (Prog.foldEach (freezeArchive roots participants)
      (List.replicate roots.length .empty, []) drafts) (Frozen roots participants drafts) := by
  refine (Prog.Yields.foldEach (J := fun before after state =>
    Frozen roots participants before state ∧ before ++ after = drafts) ?_ ?_).mono fun _ h => h.1
  · rintro before draft after state ⟨h, hd⟩
    obtain ⟨root, provided, hready⟩ := hr draft (by rw [← hd]; simp)
    refine (yields_freezeArchive h hready).mono fun next hn => ⟨hn, ?_⟩
    rw [← hd, List.append_assoc, List.singleton_append]
  · refine ⟨⟨.nil, by simp, fun i planned hp => ⟨?_, nofun⟩⟩, rfl⟩
    rw [List.getElem?_replicate] at hp
    split_ifs at hp
    cases hp
    exact nofun

/-! ## The resolution of one Mod Root -/

theorem provides_frozen {draft : Draft} {p : Text}
    (hd : draft.gamePaths = draft.plan.entries.map (gamePathOf draft.plan.modRoot draft.plan.archivePath)) :
    Provides table (frozen provided root draft) p ↔ Lists table draft.listing p := by
  simp only [Provides, Lists, Draft.listing, hd, List.mem_map, exists_exists_and_eq_and]
  rfl

theorem mem_mergedOf {draft : Draft} {item : Text × Text} : item ∈ mergedOf provided root draft ↔
    item ∈ draft.plan.entries.zip draft.gamePaths ∧ winsItem provided root draft.plan.archivePath item = true :=
  List.mem_filter

/-- The first lister of a game path wins it, unless a Loose Asset holds it. -/
theorem winsItem_iff {listings : List Listing} {item : Text × Text} (h : Tallied provided listings) :
    winsItem provided root archive item = true ↔
      (listers table listings item.2).head? = some archive ∧ root.loose.contains item.2 = false := by
  simp only [winsItem, (h item.2).1, Bool.and_eq_true, decide_eq_true_eq, Bool.not_eq_true']

/-- The entries of a draft with their game paths. -/
theorem mem_zip_gamePaths {draft : Draft} {item : Text × Text}
    (hd : draft.gamePaths = draft.plan.entries.map (gamePathOf draft.plan.modRoot draft.plan.archivePath)) :
    item ∈ draft.plan.entries.zip draft.gamePaths ↔
      item.1 ∈ draft.plan.entries ∧ item.2 = gamePathOf draft.plan.modRoot draft.plan.archivePath item.1 := by
  rw [hd, List.zip_map_right, List.mem_map]
  constructor
  · rintro ⟨⟨a, b⟩, hab, rfl⟩
    obtain ⟨i, hi, he⟩ := List.getElem_of_mem hab
    simp only [List.getElem_zip, Prod.mk.injEq] at he
    obtain ⟨rfl, rfl⟩ := he
    exact ⟨List.getElem_mem _, rfl⟩
  · rintro ⟨h1, h2⟩
    obtain ⟨i, hi, he⟩ := List.getElem_of_mem h1
    refine ⟨(item.1, item.1), ?_, by rw [Prod.ext_iff]; exact ⟨rfl, h2.symm⟩⟩
    rw [List.mem_iff_getElem]
    exact ⟨i, by simpa using hi, by simp [he]⟩

/-- **What a frozen plan merges**: the game paths its Archive is the first to list, but no Loose
Asset's. -/
theorem merges_frozen {draft : Draft} {listings : List Listing} {p : Text} (ht : Tallied provided listings)
    (hd : draft.gamePaths = draft.plan.entries.map (gamePathOf draft.plan.modRoot draft.plan.archivePath)) :
    Merges table (frozen provided root draft) p ↔ Lists table draft.listing p ∧
      (listers table listings p).head? = some draft.plan.archivePath ∧ root.loose.contains p = false := by
  constructor
  · rintro ⟨entry, he, hp⟩
    obtain ⟨item, hitem, rfl⟩ := List.mem_map.mp he
    obtain ⟨hzip, hw⟩ := mem_mergedOf.mp hitem
    obtain ⟨hentry, hpath⟩ := (mem_zip_gamePaths hd).mp hzip
    have hsame : SameGamePath table item.2 p := by
      rw [hpath]
      exact hp
    rw [winsItem_iff ht, listers_congr hsame, OrdMap.contains_congr hsame] at hw
    exact ⟨⟨item.2, (List.of_mem_zip hzip).2, hsame⟩, hw⟩
  · rintro ⟨⟨q, hq, hsame⟩, hw⟩
    have hq' : q ∈ draft.plan.entries.map (gamePathOf draft.plan.modRoot draft.plan.archivePath) := by
      rw [← hd]
      exact hq
    obtain ⟨entry, hentry, rfl⟩ := List.mem_map.mp hq'
    have hwin : winsItem provided root draft.plan.archivePath
        (entry, gamePathOf draft.plan.modRoot draft.plan.archivePath entry) = true := by
      rw [winsItem_iff ht, listers_congr hsame, OrdMap.contains_congr hsame]
      exact hw
    exact ⟨entry, List.mem_map.mpr ⟨_, mem_mergedOf.mpr ⟨(mem_zip_gamePaths hd).mpr ⟨hentry, rfl⟩, hwin⟩, rfl⟩, hsame⟩

/-- The providers of the frozen plans are the listers of the drafts. -/
theorem providers_frozen {drafts : List Draft} (hd : ∀ d ∈ drafts,
      d.gamePaths = d.plan.entries.map (gamePathOf d.plan.modRoot d.plan.archivePath)) (p : Text) :
    providers table (drafts.map (frozen provided root)) p = listers table (drafts.map Draft.listing) p := by
  induction drafts with
  | nil => rfl
  | cons d drafts ih =>
    have hhead : Provides table (frozen provided root d) p ↔ Lists table d.listing p :=
      provides_frozen (hd d List.mem_cons_self)
    have htail := ih fun d' h => hd d' (List.mem_cons_of_mem _ h)
    unfold providers listers at htail ⊢
    rw [List.map_cons, List.map_cons, List.filter_cons, List.filter_cons]
    by_cases hl : Lists table d.listing p
    · rw [if_pos (decide_eq_true (hhead.mpr hl)), if_pos (decide_eq_true hl), List.map_cons, List.map_cons, htail]
      rfl
    · rw [if_neg (by simpa using fun h => hl (hhead.mp h)), if_neg (by simpa using hl), htail]

/-- What the participants map holds for a key. -/
theorem entry_listers {listings : List Listing} {e : Text × List Path} (h : Tallied provided listings)
    (he : e ∈ provided.entries) : e.2 = listers table listings e.1 := by
  rw [← (h e.1).1, OrdMap.get?_eq_some.mpr ⟨he, rfl⟩]
  rfl

theorem mem_collisionsOf {c : ArchiveCollision} : c ∈ collisionsOf root provided ↔
    ∃ e ∈ provided.entries, e.2 = c.winningArchive :: c.shadowedArchives ∧ c.shadowedArchives ≠ [] ∧
      c.gamePath = e.1 ∧ c.modRoot = root.root ∧ c.looseAssetWins = root.loose.contains e.1 := by
  simp only [collisionsOf, List.mem_filterMap]
  constructor
  · rintro ⟨⟨p, archives⟩, he, hc⟩
    rcases archives with _ | ⟨a, _ | ⟨b, rest⟩⟩
    · cases hc
    · cases hc
    · cases hc
      exact ⟨_, he, rfl, by simp, rfl, rfl, rfl⟩
  · rintro ⟨⟨p, archives⟩, he, h1, h2, h3, h4, h5⟩
    obtain ⟨b, rest, hb⟩ := List.exists_cons_of_ne_nil h2
    refine ⟨_, he, ?_⟩
    simp only at h1 h3 h5
    rw [hb] at h1
    obtain ⟨modRoot, gamePath, winning, shadowed, wins⟩ := c
    simp only at h1 h3 h4 h5 hb
    subst h1 h3 h4 h5 hb
    rfl

/-- **The collisions are the paths two or more Archives list.** -/
theorem collided_iff {listings : List Listing} (h : Tallied provided listings) (p : Text) :
    (∃ c ∈ collisionsOf root provided, SameGamePath table c.gamePath p) ↔
      2 ≤ (listers table listings p).length := by
  constructor
  · rintro ⟨c, hc, hsame⟩
    obtain ⟨e, he, hlist, hne, hpath, -⟩ := mem_collisionsOf.mp hc
    rw [hpath] at hsame
    rw [← listers_congr hsame, ← entry_listers h he, hlist, List.length_cons]
    have := List.length_pos_iff.mpr hne
    omega
  · intro hlen
    cases hg : provided.get? p with
    | none =>
      rw [(h p).2.mp hg] at hlen
      simp at hlen
    | some e =>
      obtain ⟨he, hk⟩ := OrdMap.get?_eq_some.mp hg
      have hlist := entry_listers h he
      rw [listers_congr (show SameGamePath table e.1 p from hk)] at hlist
      rw [← hlist] at hlen
      obtain ⟨a, l, hal⟩ := List.exists_cons_of_ne_nil (List.ne_nil_of_length_pos (by omega : 0 < e.2.length))
      have hne : l ≠ [] := by
        rintro rfl
        rw [hal] at hlen
        simp at hlen
      exact ⟨⟨root.root, e.1, a, l, root.loose.contains e.1⟩,
        mem_collisionsOf.mpr ⟨e, he, hal, hne, rfl, rfl, rfl⟩, hk⟩

/-- Collisions stand in game-path order. -/
theorem collisionsOf_ascending : (collisionsOf root provided).Pairwise fun c c' =>
    gamePathKey table c.gamePath < gamePathKey table c'.gamePath := by
  refine List.Pairwise.filterMap _ (fun e e' hlt c hc c' hc' => ?_) provided.ascending
  -- a collision keeps the game path of its entry
  obtain ⟨p, _ | ⟨a, _ | ⟨b, rest⟩⟩⟩ := e <;> cases hc
  obtain ⟨p', _ | ⟨a', _ | ⟨b', rest'⟩⟩⟩ := e' <;> cases hc'
  exact hlt

/-- **The first lister of a listed path.** -/
theorem first_lister {drafts : List Draft} {p : Text} (h : ∃ d ∈ drafts, Lists table d.listing p) :
    ∃ before d after, drafts = before ++ d :: after ∧ (∀ b ∈ before, ¬ Lists table b.listing p) ∧
      Lists table d.listing p ∧
      (listers table (drafts.map Draft.listing) p).head? = some d.plan.archivePath := by
  obtain ⟨d, hd, hl⟩ := h
  have hin : d ∈ drafts.filter fun d => Lists table d.listing p :=
    List.mem_filter.mpr ⟨hd, decide_eq_true hl⟩
  obtain ⟨w, rest, hw⟩ := List.exists_cons_of_ne_nil (List.ne_nil_of_mem hin)
  obtain ⟨before, after, hsplit, hbefore, hlw, -⟩ := List.filter_eq_cons_iff.mp hw
  refine ⟨before, w, after, hsplit, fun b hb h => hbefore b hb (decide_eq_true h), of_decide_eq_true hlw, ?_⟩
  have hfilter : drafts.filter ((fun l => decide (Lists table l p)) ∘ Draft.listing) = w :: rest := hw
  rw [listers, List.filter_map, List.map_map, hfilter]
  rfl

/-- The drafts of a root are those of its Archives, in order. -/
theorem drafted_archives {index : Nat} {archives : List Path} {drafts : List Draft}
    (h : List.Forall₂ (Drafted view listEntries index root) archives drafts) :
    drafts.map (·.plan.archivePath) = archives ∧
      ∀ d ∈ drafts, Drafted view listEntries index root d.plan.archivePath d := by
  induction h with
  | nil => exact ⟨rfl, nofun⟩
  | cons hd _ ih =>
    refine ⟨by rw [List.map_cons, ih.1, hd.source], fun d hm => ?_⟩
    rcases List.mem_cons.mp hm with rfl | hm
    · rw [hd.source]
      exact hd
    · exact ih.2 d hm

/-- **The frozen plans and the collisions of one Mod Root are its resolution.** -/
theorem resolved_of_survey {index : Nat} {drafts : List Draft}
    (hs : RootSurvey view listEntries (root, index) (provided, drafts)) (hnodup : root.archives.Nodup)
    (hflat : ∀ d ∈ drafts, ∀ d' ∈ drafts, ∀ a ∈ mergedOf provided root d, ∀ b ∈ mergedOf provided root d',
      ¬ IsAncestor table a.2 b.2) :
    Resolved listEntries root (drafts.map (frozen provided root)) (collisionsOf root provided) := by
  obtain ⟨hdrafted, htallied⟩ := hs
  obtain ⟨harchives, hsource⟩ := drafted_archives hdrafted
  have hpaths : ∀ d ∈ drafts,
      d.gamePaths = d.plan.entries.map (gamePathOf d.plan.modRoot d.plan.archivePath) := by
    intro d hd
    rw [(hsource d hd).scope]
    exact (hsource d hd).paths
  have hinj : ∀ d ∈ drafts, ∀ d' ∈ drafts, d.plan.archivePath = d'.plan.archivePath → d = d' :=
    fun d hd d' hd' h => List.inj_on_of_nodup_map (harchives ▸ hnodup) hd hd' h
  have hproviders : ∀ p, providers table (drafts.map (frozen provided root)) p =
      listers table (drafts.map Draft.listing) p := providers_frozen hpaths
  have hmerges : ∀ d ∈ drafts, ∀ p, Merges table (frozen provided root d) p ↔ Lists table d.listing p ∧
      (listers table (drafts.map Draft.listing) p).head? = some d.plan.archivePath ∧
      root.loose.contains p = false := fun d hd p => merges_frozen htallied (hpaths d hd)
  constructor
  case archives =>
    rw [List.map_map]
    exact harchives
  case modRoot =>
    simp only [List.forall_mem_map]
    exact fun d hd => (hsource d hd).scope
  case manifest =>
    simp only [List.forall_mem_map]
    intro d hd
    obtain ⟨entries, hl, he, -⟩ := (hsource d hd).listed
    exact ⟨entries, hl, he⟩
  case once =>
    simp only [List.forall_mem_map]
    intro d hd
    constructor
    · have h := (hsource d hd).nodup
      rw [hpaths d hd, List.map_map] at h
      exact h
    · have hlen : d.plan.entries.length ≤ d.gamePaths.length := by rw [hpaths d hd, List.length_map]
      have hsub := (List.filter_sublist (p := winsItem provided root d.plan.archivePath)
        (l := d.plan.entries.zip d.gamePaths)).map Prod.fst
      rw [List.map_fst_zip hlen] at hsub
      exact hsub
  case winner =>
    rintro p hloose ⟨plan, hplan, hprov⟩
    obtain ⟨d, hd, rfl⟩ := List.mem_map.mp hplan
    obtain ⟨before, w, after, rfl, hbefore, hlw, hhead⟩ :=
      first_lister ⟨d, hd, (provides_frozen (hpaths d hd)).mp hprov⟩
    have hwmem : w ∈ before ++ w :: after := by simp
    refine ⟨before.map (frozen provided root), frozen provided root w, after.map (frozen provided root), by simp,
      ?_, (hmerges w hwmem p).mpr ⟨hlw, hhead, hloose⟩, ?_⟩
    · simp only [List.forall_mem_map]
      exact fun b hb hbp => hbefore b hb ((provides_frozen (hpaths b (by simp [hb]))).mp hbp)
    · simp only [List.forall_mem_map]
      intro d' hd' hm
      have hh := ((hmerges d' hd' p).mp hm).2.1
      rw [hhead, Option.some.injEq] at hh
      rw [hinj w hwmem d' hd' hh]
  case loose =>
    intro p hloose
    simp only [List.forall_mem_map]
    intro d hd hm
    have hfree := ((hmerges d hd p).mp hm).2.2
    rw [hloose] at hfree
    cases hfree
  case collided =>
    intro p
    rw [hproviders]
    exact collided_iff htallied p
  case collision =>
    intro c hc
    obtain ⟨e, he, hlist, -, hpath, hroot, hwins⟩ := mem_collisionsOf.mp hc
    rw [hproviders, hpath, ← entry_listers htallied he]
    exact ⟨hlist.symm, hroot, hwins⟩
  case ascending => exact collisionsOf_ascending
  case disjoint =>
    simp only [List.forall_mem_map]
    intro d hd d' hd' a ha b hb
    obtain ⟨x, hx, rfl⟩ := List.mem_map.mp ha
    obtain ⟨y, hy, rfl⟩ := List.mem_map.mp hb
    have h1 := ((mem_zip_gamePaths (hpaths d hd)).mp (mem_mergedOf.mp hx).1).2
    have h2 := ((mem_zip_gamePaths (hpaths d' hd')).mp (mem_mergedOf.mp hy).1).2
    have := hflat d hd d' hd' x hx y hy
    rw [h1, h2] at this
    exact this

/-! ## The chosen order -/

/-- The Archive a precedence names, relative to the root and in any spelling. -/
def Names (table : UpcaseTable) (root : Path) (requested : List Component) (archive : Path) : Prop :=
  ∃ relative, containedRelative requested = some relative ∧
    ordinalKey table (nativeText archive) = ordinalKey table (nativeText (root ++ relative))

/-- The Archives in the chosen order: the default, or the one the precedence names. -/
structure Ordered (precedence : ArchivePrecedence) (root chosen : RootArchives table) : Prop where
  sameRoot : chosen.root = root.root
  sameLoose : chosen.loose = root.loose
  archives : chosen.archives.Perm root.archives
  default : precedence = .default → chosen.archives = root.archives
  explicit : ∀ order, precedence = .explicitOrder order →
    List.Forall₂ (Names table root.root) order chosen.archives

theorem orderArchive_ok {archives ordered ordered' : List Path} {path : Path} {requested : List Component}
    (h : orderArchive view table path archives ordered requested = .ok ordered') :
    ∃ found ∈ archives, found ∉ ordered ∧ ordered' = ordered ++ [found] ∧ Names table path requested found := by
  unfold orderArchive at h
  split at h
  · cases h
  · next relative hrel =>
    simp only at h
    split_ifs at h
    split at h
    · cases h
    · next found hfound =>
      split_ifs at h with hdup
      cases h
      have hkey := List.find?_some hfound
      rw [compareOrdinalIgnoreCase_isEq] at hkey
      exact ⟨found, List.mem_of_find?_eq_some hfound, hdup, rfl, relative, hrel, hkey⟩

/-- An accepted order names each Archive once. -/
theorem foldlM_orderArchive {archives ordered ordered' : List Path} {path : Path} {order : List (List Component)}
    (h : order.foldlM (orderArchive view table path archives) ordered = .ok ordered')
    (hnodup : ordered.Nodup) (hsub : ordered ⊆ archives) :
    ∃ named, ordered' = ordered ++ named ∧ List.Forall₂ (Names table path) order named ∧
      ordered'.Nodup ∧ ordered' ⊆ archives := by
  induction order generalizing ordered with
  | nil =>
    cases h
    exact ⟨[], by simp, .nil, hnodup, hsub⟩
  | cons requested order ih =>
    rw [List.foldlM_cons] at h
    cases hstep : orderArchive view table path archives ordered requested with
    | error e =>
      rw [hstep] at h
      cases h
    | ok next =>
      rw [hstep] at h
      obtain ⟨found, hf, hnew, rfl, hnames⟩ := orderArchive_ok hstep
      have hnodup' : (ordered ++ [found]).Nodup := by
        rw [List.nodup_append]
        refine ⟨hnodup, List.nodup_singleton _, ?_⟩
        rintro a ha b hb rfl
        rw [List.mem_singleton] at hb
        exact hnew (hb ▸ ha)
      have hsub' : ordered ++ [found] ⊆ archives := by
        intro a ha
        rcases List.mem_append.mp ha with ha | ha
        · exact hsub ha
        · rw [List.mem_singleton.mp ha]
          exact hf
      obtain ⟨named, rfl, hall, hn, hs⟩ := ih h hnodup' hsub'
      exact ⟨found :: named, by simp, .cons hnames hall, hn, hs⟩

/-- **An accepted precedence orders every Archive of the root.** -/
theorem ordered_of_orderRoot {precedence : ArchivePrecedence} {chosen : RootArchives table}
    (h : orderRoot view precedence root = .ok chosen) : Ordered precedence root chosen := by
  unfold orderRoot at h
  cases precedence with
  | default =>
    cases h
    exact ⟨rfl, rfl, .refl _, fun _ => rfl, nofun⟩
  | explicitOrder order =>
    simp only at h
    split at h
    · cases h
    · next ordered hv =>
      cases h
      unfold validateArchiveOrder at hv
      split at hv
      · cases hv
      · next hfold =>
        split_ifs at hv with hlen
        cases hv
        obtain ⟨_, rfl, hall, hn, hs⟩ := foldlM_orderArchive hfold List.nodup_nil (by simp)
        have hperm : ordered.Perm root.archives :=
          (List.subperm_of_subset hn hs).perm_of_length_le (by omega)
        refine ⟨rfl, rfl, hperm, nofun, ?_⟩
        rintro _ ⟨rfl⟩
        exact hall

/-! ## Every plan of the preflight -/

theorem forall₂_mapM {α β ε : Type} {f : α → Except ε β} {l : List α} {l' : List β} (h : l.mapM f = .ok l') :
    List.Forall₂ (fun a b => f a = .ok b) l l' := by
  induction l generalizing l' with
  | nil =>
    cases h
    exact .nil
  | cons a l ih =>
    rw [List.mapM_cons] at h
    cases ha : f a with
    | error e =>
      rw [ha] at h
      cases h
    | ok b =>
      cases hl : l.mapM f with
      | error e =>
        rw [ha, hl] at h
        cases h
      | ok bs =>
        rw [ha, hl] at h
        cases h
        exact .cons ha (ih hl)

/-- A root's part of a survey, by its index. -/
theorem survey_at {parts : List (Providers table × List Draft)} {roots : List (RootArchives table)} {i : Nat}
    {part : Providers table × List Draft} (hs : List.Forall₂ (RootSurvey view listEntries) roots.zipIdx parts)
    (hp : parts[i]? = some part) : ∃ root, roots[i]? = some root ∧ RootSurvey view listEntries (root, i) part := by
  obtain ⟨hi, rfl⟩ := List.getElem?_eq_some_iff.mp hp
  have hlen := hs.length_eq
  rw [List.length_zipIdx] at hlen
  have h := hs.get (i := i) (by rw [List.length_zipIdx]; omega) hi
  simp only [List.get_eq_getElem, List.getElem_zipIdx, Nat.zero_add] at h
  exact ⟨_, List.getElem?_eq_getElem (by omega), h⟩

/-- A draft of a root's part is ready to freeze. -/
theorem ready_of_survey {parts : List (Providers table × List Draft)} {i : Nat}
    {part : Providers table × List Draft} (hs : RootSurvey view listEntries (root, i) part)
    (hroot : roots[i]? = some root) (hp : parts[i]? = some part) {draft : Draft} (hd : draft ∈ part.2) :
    draft.index = i ∧ Ready roots (parts.map Prod.fst) draft root part.1 := by
  have hdraft := (drafted_archives hs.drafted).2 draft hd
  refine ⟨hdraft.position, by rw [hdraft.position]; exact hroot, by rw [hdraft.position]; simp [hp], ?_⟩
  intro p hmem hnone
  have hlist := (hs.tallied p).2.mp hnone
  unfold listers at hlist
  rw [List.map_eq_nil_iff, List.filter_eq_nil_iff] at hlist
  exact hlist _ (List.mem_map_of_mem hd) (decide_eq_true ⟨p, hmem, rfl⟩)

/-- The plans and collisions of each root. -/
abbrev Resolution := List ArchiveExtractionPlan × List ArchiveCollision

/-- The resolution the two passes make of a root. -/
def resolutionOf (root : RootArchives table) (part : Providers table × List Draft) : Resolution :=
  (part.2.map (frozen part.1 root), collisionsOf root part.1)

/-- **The frozen plans are the roots' resolutions.** -/
theorem resolutions_of_frozen {parts : List (Providers table × List Draft)} {roots : List (RootArchives table)}
    {state : List (OrdSet (gamePathKey table)) × List ArchiveExtractionPlan}
    (hs : List.Forall₂ (RootSurvey view listEntries) roots.zipIdx parts)
    (hf : Frozen roots (parts.map Prod.fst) (parts.flatMap Prod.snd) state)
    (hnodup : ∀ root ∈ roots, root.archives.Nodup) :
    List.Forall₂ (fun root (r : Resolution) => Resolved listEntries root r.1 r.2) roots
        (List.zipWith resolutionOf roots parts) ∧
      state.2 = (List.zipWith resolutionOf roots parts).flatMap Prod.fst := by
  have hlen : roots.length = parts.length := by
    have := hs.length_eq
    rwa [List.length_zipIdx] at this
  constructor
  · rw [List.forall₂_iff_get]
    refine ⟨by simp [hlen], fun i h1 h2 => ?_⟩
    have hi : i < parts.length := by omega
    obtain ⟨root, hroot, hsurvey⟩ := survey_at hs (List.getElem?_eq_getElem hi)
    have hroot' : roots[i] = root := (List.getElem?_eq_some_iff.mp hroot).2
    simp only [List.get_eq_getElem, List.getElem_zipWith, resolutionOf, hroot']
    refine resolved_of_survey hsurvey (hnodup _ (hroot' ▸ List.getElem_mem h1)) fun d hd d' hd' a ha b hb hab => ?_
    have hstate : i < state.1.length := by rw [hf.length]; exact h1
    obtain ⟨hflat, hin⟩ := hf.planned i _ (List.getElem?_eq_getElem hstate)
    have hplanned : ∀ d ∈ parts[i].2, ∀ item ∈ mergedOf parts[i].1 root d,
        ∃ e ∈ state.1[i].entries, gamePathKey table e.1 = gamePathKey table item.2 := by
      intro d hd item hitem
      obtain ⟨hindex, hready⟩ := ready_of_survey hsurvey hroot (List.getElem?_eq_getElem hi) hd
      exact OrdMap.contains_iff.mp (hin d (List.mem_flatMap.mpr ⟨_, List.getElem_mem hi, hd⟩) hindex _ _ hready
        item hitem)
    obtain ⟨e, he, hea⟩ := hplanned d hd a ha
    obtain ⟨f, hff, hfb⟩ := hplanned d' hd' b hb
    exact hflat e he f hff ((isAncestor_congr hea hfb).mpr hab)
  · -- a draft has one frozen plan, so the loop's plans are the roots' plans
    have hunique : Relator.RightUnique fun (draft : Draft) (plan : ArchiveExtractionPlan) =>
        ∃ root provided, Ready roots (parts.map Prod.fst) draft root provided ∧ plan = frozen provided root draft := by
      rintro draft _ _ ⟨root, provided, ⟨hr, hp, -⟩, rfl⟩ ⟨root', provided', ⟨hr', hp', -⟩, rfl⟩
      rw [hr, Option.some.injEq] at hr'
      rw [hp, Option.some.injEq] at hp'
      rw [hr', hp']
    refine List.right_unique_forall₂' hunique hf.plans ?_
    rw [List.flatMap_def, List.flatMap_def]
    refine List.rel_flatten (List.forall₂_iff_get.mpr ⟨by simp [hlen], fun i h1 h2 => ?_⟩)
    have hi : i < parts.length := by simpa using h1
    obtain ⟨root, hroot, hsurvey⟩ := survey_at hs (List.getElem?_eq_getElem hi)
    have hroot' := (List.getElem?_eq_some_iff.mp hroot).2
    simp only [List.get_eq_getElem, List.getElem_map, List.getElem_zipWith, resolutionOf, hroot']
    rw [List.forall₂_map_right_iff, List.forall₂_same]
    intro draft hd
    exact ⟨root, _, (ready_of_survey hsurvey hroot (List.getElem?_eq_getElem hi) hd).2, rfl⟩

/-- What the preflight returns: the resolutions of its surveys of the roots, in the chosen order. -/
structure Preflighted (view : FileView) (listEntries : Path → Answer (List ArchiveEntry))
    (precedence : ArchivePrecedence) (roots chosen : List (RootArchives table))
    (parts : List (Providers table × List Draft)) (planned : Planned) : Prop where
  ordered : List.Forall₂ (Ordered precedence) roots chosen
  surveyed : List.Forall₂ (RootSurvey view listEntries) chosen.zipIdx parts
  resolved : List.Forall₂ (fun root (r : Resolution) => Resolved listEntries root r.1 r.2) chosen
    (List.zipWith resolutionOf chosen parts)
  plans : planned.plans = (List.zipWith resolutionOf chosen parts).flatMap Prod.fst
  collisions : planned.collisions = (List.zipWith resolutionOf chosen parts).flatMap Prod.snd

/-- **The preflight returns the roots' resolutions**, or rejects; it never panics. -/
theorem yields_preflight {check : List (Path × Nat) → CapacityVerdict} {precedence : ArchivePrecedence}
    {roots : List (RootArchives table)} (hroots : ∀ root ∈ roots, root.archives.Nodup) :
    Prog.Yields (preflight view listEntries check precedence roots) fun planned =>
      ∃ chosen parts, Preflighted view listEntries precedence roots chosen parts planned := by
  unfold preflight
  refine (Prog.yields_ofExcept (P := fun chosen => List.Forall₂ (Ordered precedence) roots chosen) ?_).bind
    fun chosen hchosen => ?_
  · intro chosen hc
    cases ho : orderRoots view precedence roots with
    | error e =>
      rw [ho] at hc
      cases hc
    | ok ordered =>
      rw [ho] at hc
      cases hc
      exact (forall₂_mapM ho).imp fun root chosen h => ordered_of_orderRoot h
  have hnodup : ∀ root ∈ chosen, root.archives.Nodup := by
    intro root hr
    obtain ⟨i, hi, rfl⟩ := List.getElem_of_mem hr
    have hlen := hchosen.length_eq
    have ho := hchosen.get (i := i) (by omega) hi
    exact ho.archives.nodup_iff.mpr (hroots _ (List.getElem_mem _))
  refine (yields_survey _).bind fun survey hsurvey => ?_
  obtain ⟨parts, hparts, hdrafts, hs⟩ := hsurvey
  have hlen : chosen.length = parts.length := by
    have := hs.length_eq
    rwa [List.length_zipIdx] at this
  rw [hparts, hdrafts]
  refine (yields_freeze ?_).bind fun state hf => ?_
  · intro draft hd
    obtain ⟨part, hp, hd⟩ := List.mem_flatMap.mp hd
    obtain ⟨i, hi, rfl⟩ := List.getElem_of_mem hp
    obtain ⟨root, hroot, hsurvey⟩ := survey_at hs (List.getElem?_eq_getElem hi)
    exact ⟨root, _, (ready_of_survey hsurvey hroot (List.getElem?_eq_getElem hi) hd).2⟩
  obtain ⟨hresolved, hplans⟩ := resolutions_of_frozen hs hf hnodup
  have hcollisions : (chosen.zip (parts.map Prod.fst)).flatMap (fun part => collisionsOf part.1 part.2) =
      (List.zipWith resolutionOf chosen parts).flatMap Prod.snd := by
    rw [List.flatMap_def, List.flatMap_def, List.map_zipWith, List.zip_map_right, List.map_map, List.zip,
      List.map_zipWith]
    rfl
  obtain ⟨planned, plans⟩ := state
  simp only at hplans ⊢
  split_ifs with hempty
  · refine Prog.yields_pure ⟨chosen, parts, hchosen, hs, hresolved, ?_, hcollisions⟩
    rw [← hplans, hempty]
  · refine Prog.Yields.bind (P := fun _ => True) ?_ fun _ _ =>
      Prog.yields_pure ⟨chosen, parts, hchosen, hs, hresolved, hplans, hcollisions⟩
    unfold checkCapacity
    split
    · exact Prog.yields_pure trivial
    · exact Prog.yields_pure trivial
    · exact Prog.yields_fail

/-- **The preflight picks exactly the winners.** Discovery selects each Archive of a root once. -/
theorem preflight_winners {check : List (Path × Nat) → CapacityVerdict} {precedence : ArchivePrecedence}
    {roots : List (RootArchives table)} {polls : Polls} {planned : Planned}
    (hroots : ∀ root ∈ roots, root.archives.Nodup)
    (h : (preflight view listEntries check precedence roots polls).1 = .done planned) :
    ∃ (chosen : List (RootArchives table)) (results : List Resolution),
      List.Forall₂ (Ordered precedence) roots chosen ∧
      List.Forall₂ (fun root (r : Resolution) => Resolved listEntries root r.1 r.2) chosen results ∧
      planned.plans = results.flatMap Prod.fst ∧ planned.collisions = results.flatMap Prod.snd := by
  obtain ⟨chosen, parts, hp⟩ := (yields_preflight hroots).of_done h
  exact ⟨chosen, _, hp.ordered, hp.resolved, hp.plans, hp.collisions⟩

/-- A file system that spells every path as it is asked, with an empty Mod Root. -/
def emptyView : FileView where
  canonical := .ok
  weaklyCanonical := .ok
  readDir _ := .ok []
  symlinkMetadata _ := .error "absent"
  isFile _ := false

/-- The Mod Root of a sample, with two Archives that both provide one path, in two spellings. -/
def sampleRoot : RootArchives asciiUpcase where
  root := [OsStr.ofText "mod".toList]
  archives := [[OsStr.ofText "mod".toList, OsStr.ofText "a.bsa".toList],
    [OsStr.ofText "mod".toList, OsStr.ofText "b.bsa".toList]]
  loose := .empty

/-- The manifests of the sample. -/
def sampleListing (archive : Path) : Answer (List ArchiveEntry) :=
  if archive = [OsStr.ofText "mod".toList, OsStr.ofText "a.bsa".toList] then
    .ok [⟨"t\\x".toList, 1⟩]
  else .ok [⟨"T\\X".toList, 1⟩, ⟨"y".toList, 1⟩]

theorem preflight_winners_sample : ∃ planned,
    (preflight emptyView sampleListing (fun _ => .fits) .default [sampleRoot] []).1 = .done planned ∧
    planned.plans.map (·.mergeEntries) = [["t/x".toList], ["y".toList]] ∧
    ∃ (chosen : List (RootArchives asciiUpcase)) (results : List Resolution),
      List.Forall₂ (Ordered .default) [sampleRoot] chosen ∧
      List.Forall₂ (fun root (r : Resolution) => Resolved sampleListing root r.1 r.2) chosen results ∧
      planned.plans = results.flatMap Prod.fst ∧ planned.collisions = results.flatMap Prod.snd := by
  have h : ∃ planned, (preflight emptyView sampleListing (fun _ => .fits) .default [sampleRoot] []).1 =
      .done planned ∧ planned.plans.map (·.mergeEntries) = [["t/x".toList], ["y".toList]] := by
    refine ⟨_, rfl, ?_⟩
    decide +kernel
  obtain ⟨planned, h, hm⟩ := h
  exact ⟨planned, h, hm, preflight_winners (by decide) h⟩

end Cao
