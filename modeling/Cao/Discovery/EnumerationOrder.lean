import Cao.Discovery.Reproducible
import Cao.Pack.SourceOrder

/-!
# What the order of enumeration decides

Discovery and the Archive preflight over one tree, listed in two orders.

* `foldlM_perm`, `validateExisting_same`: what a directory listing is read for does not depend on its order;
* **`agrees_preflight`**: over Mod Roots alike, the preflight gives the same plan and the same collisions;
* `preflight_empty`: with empty manifests, the plans are the Archives in their order;
* `OrderFree`: one plan and one list of collisions in every order; **`enumerationOrder_iff`**: exactly without ties.
-/

namespace Cao.Discovery

open Capacity Routing
open Prog (Agrees agrees_pure agrees_fail Spec spec_bind)

variable {table : UpcaseTable} {lowercase : Text → Text} {policy : RoutingPolicy}

/-! ## Listings -/

/-- A fold that may fail, whose steps may be swapped. -/
theorem foldlM_perm {ε α β : Type} {f : β → α → Except ε β}
    (hswap : ∀ s a b r, (f s a >>= fun s => f s b) = .ok r ↔ (f s b >>= fun s => f s a) = .ok r) {l l' : List α}
    (h : l.Perm l') (s r : β) : l.foldlM f s = .ok r ↔ l'.foldlM f s = .ok r := by
  induction h generalizing s with
  | nil => exact Iff.rfl
  | cons a _ ih =>
    rw [List.foldlM_cons, List.foldlM_cons]
    cases f s a with
    | error e => exact Iff.rfl
    | ok s' => exact ih s'
  | swap a b l =>
    have hassoc : ∀ a b, List.foldlM f s (a :: b :: l) = ((f s a >>= fun s => f s b) >>= fun s => l.foldlM f s) := by
      intro a b
      rw [List.foldlM_cons, bind_assoc]
      exact congrArg (f s a >>= ·) (funext fun s' => List.foldlM_cons)
    rw [hassoc, hassoc]
    have hsame := hswap s b a
    cases hab : (f s a >>= fun s => f s b) with
    | error e =>
      cases hba : (f s b >>= fun s => f s a) with
      | error e' => exact iff_of_false nofun nofun
      | ok s' =>
        rw [(hsame s').mp hba] at hab
        cases hab
    | ok s' =>
      rw [(hsame s').mpr hab]
  | trans _ _ ih ih' => exact (ih s).trans (ih' s)

theorem matchEntry_swap (directory : Path) (name : OsStr) (found : Option Path) (a b : Except String OsStr)
    (r : Option Path) :
    (matchEntry table directory name found a >>= fun found => matchEntry table directory name found b) = .ok r ↔
      (matchEntry table directory name found b >>= fun found => matchEntry table directory name found a) = .ok r := by
  have herror : ∀ (e : String) (found : Option Path) (a : Except String OsStr),
      (matchEntry table directory name found a >>= fun found => matchEntry table directory name found (.error e)) ≠ .ok r := by
    intro e found a
    cases matchEntry table directory name found a <;> exact nofun
  cases a with
  | error e => exact iff_of_false nofun (herror e found b)
  | ok a =>
    cases b with
    | error e => exact iff_of_false (herror e found (.ok a)) nofun
    | ok b =>
      unfold matchEntry
      dsimp only
      by_cases ha : (compareOrdinalIgnoreCase table a name).isEq = true <;>
        by_cases hb : (compareOrdinalIgnoreCase table b name).isEq = true <;>
          cases found <;> simp [ha, hb, bind, Except.bind]

theorem matchingChild_same (table : UpcaseTable) {view view' : DirectoryView} (h : SameTree view view') (directory : Path) (name : OsStr)
    (r : Option Path) :
    matchingChild view.toFileView table directory name = .ok r ↔ matchingChild view'.toFileView table directory name = .ok r := by
  have hlisting := h.readDir directory
  unfold matchingChild
  unfold SameListing at hlisting
  split at hlisting
  · next entries entries' hread hread' =>
    rw [hread, hread']
    exact foldlM_perm (matchEntry_swap directory name) hlisting none r
  · next hread hread' =>
    rw [hread, hread']
    exact iff_of_false nofun nofun
  · exact hlisting.elim

theorem validateExisting_same {view view' : DirectoryView} (h : SameTree view view') (hasLooseFile : Bool) (current : Path)
    (parts : List OsStr) :
    validateExisting view.toFileView table hasLooseFile current parts = .ok () ↔
      validateExisting view'.toFileView table hasLooseFile current parts = .ok () := by
  induction parts generalizing current with
  | nil => exact Iff.rfl
  | cons part parts ih =>
    have hchild := matchingChild_same table h current part
    unfold validateExisting
    rw [h.isFile, h.symlinkMetadata]
    cases hmatch : matchingChild view.toFileView table current part with
    | error detail =>
      cases hmatch' : matchingChild view'.toFileView table current part with
      | error detail' => exact iff_of_false nofun nofun
      | ok r =>
        rw [(hchild r).mpr hmatch'] at hmatch
        cases hmatch
    | ok r =>
      rw [(hchild r).mp hmatch]
      cases r with
      | none => exact Iff.rfl
      | some existing =>
        dsimp only
        split_ifs
        · exact Iff.rfl
        · exact Iff.rfl
        · cases view.symlinkMetadata existing with
          | error detail => exact Iff.rfl
          | ok metadata =>
            dsimp only
            split_ifs
            · exact Iff.rfl
            · exact Iff.rfl
            · exact ih existing

/-! ## The preflight over Mod Roots alike -/

section Alike

variable {view view' : DirectoryView} {left right : RootArchives table} {roots roots' : List (RootArchives table)}
  {listEntries : Path → Answer (List ArchiveEntry)} {precedence : ArchivePrecedence}

theorem validateDestination_same (table : UpcaseTable) (h : SameTree view view') (root destination : Path) (hasLooseFile : Bool) :
    validateExistingDestination view.toFileView table root destination hasLooseFile = .ok () ↔
      validateExistingDestination view'.toFileView table root destination hasLooseFile = .ok () := by
  unfold validateExistingDestination
  cases containedParts root destination with
  | none => exact Iff.rfl
  | some parts => exact validateExisting_same h hasLooseFile root parts

theorem agrees_planEntry (h : SameTree view view') (hroot : Alike left right) (archive : Path) (pass : EntryPass table)
    (entry : ArchiveEntry) :
    Agrees Eq (planEntry view.toFileView left archive pass entry) (planEntry view'.toFileView right archive pass entry) := by
  unfold planEntry
  refine (Agrees.refl poll).bind fun _ _ _ => ?_
  cases canonicalArchiveEntryPath entry.name with
  | error detail => exact agrees_fail
  | ok entryPath =>
    dsimp only
    rw [hroot.root, h.weaklyCanonical]
    cases Option.filter _ (relativeTo left.root (joinGamePath (extractionDirectory left.root archive) entryPath)) with
    | none => exact agrees_fail
    | some relative =>
      dsimp only
      rw [hroot.loose]
      split_ifs
      · exact agrees_fail
      · have hdestination := validateDestination_same table h left.root
          (joinGamePath (extractionDirectory left.root archive) entryPath) (left.loose.contains (gamePathText relative))
        cases hvalid : validateExistingDestination view.toFileView table left.root
            (joinGamePath (extractionDirectory left.root archive) entryPath) (left.loose.contains (gamePathText relative)) with
        | ok done =>
          rw [hdestination.mp hvalid]
          exact agrees_pure rfl
        | error detail =>
          cases hvalid' : validateExistingDestination view'.toFileView table left.root
              (joinGamePath (extractionDirectory left.root archive) entryPath) (left.loose.contains (gamePathText relative)) with
          | error detail' => exact agrees_fail
          | ok done =>
            rw [hdestination.mpr hvalid'] at hvalid
            cases hvalid

theorem agrees_planArchive (h : SameTree view view') (hroot : Alike left right) (index : Nat)
    (state : Providers table × List Draft) (archive : Path) :
    Agrees Eq (planArchive view.toFileView listEntries index left state archive)
      (planArchive view'.toFileView listEntries index right state archive) := by
  unfold planArchive
  refine (Agrees.refl poll).bind fun _ _ _ => ?_
  cases listEntries archive with
  | error detail => exact agrees_fail
  | panic message => exact agrees_fail
  | ok entries =>
    dsimp only
    refine (Agrees.foldEach (T := Eq) ?_ (List.forall₂_same.mpr fun _ _ => rfl) _).bind fun pass pass' hpass => ?_
    · rintro pass entry _ rfl
      exact agrees_planEntry h hroot archive pass entry
    · subst hpass
      rw [hroot.root]
      exact agrees_pure rfl

theorem agrees_surveyRoot (h : SameTree view view') (hroot : Alike left right) (survey : Survey table) (index : Nat) :
    Agrees Eq (surveyRoot view.toFileView listEntries survey (left, index))
      (surveyRoot view'.toFileView listEntries survey (right, index)) := by
  unfold surveyRoot
  rw [hroot.archives]
  refine (Agrees.foldEach (T := Eq) ?_ (List.forall₂_same.mpr fun _ _ => rfl) _).bind fun pass pass' hpass => ?_
  · rintro state archive _ rfl
    exact agrees_planArchive h hroot index state archive
  · subst hpass
    exact agrees_pure rfl

theorem agrees_freezeEntry (hroot : Alike left right) (provided : Providers table) (archive : Path)
    (state : OrdSet (gamePathKey table) × List Text) (item : Text × Text) :
    Agrees Eq (freezeEntry provided left archive state item) (freezeEntry provided right archive state item) := by
  unfold freezeEntry
  rw [hroot.loose]
  exact Agrees.refl _

/-- Lists alike have alike members at each place. -/
theorem getElem?_alike (h : List.Forall₂ Alike roots roots') (i : Nat) :
    (roots[i]? = none ∧ roots'[i]? = none) ∨
      ∃ left right, roots[i]? = some left ∧ roots'[i]? = some right ∧ Alike left right := by
  induction h generalizing i with
  | nil => exact .inl ⟨rfl, rfl⟩
  | cons hroot _ ih =>
    cases i with
    | zero => exact .inr ⟨_, _, rfl, rfl, hroot⟩
    | succ i => exact ih i

theorem agrees_freezeArchive (h : List.Forall₂ Alike roots roots') (participants : List (Providers table))
    (state : List (OrdSet (gamePathKey table)) × List ArchiveExtractionPlan) (draft : Draft) :
    Agrees Eq (freezeArchive roots participants state draft) (freezeArchive roots' participants state draft) := by
  unfold freezeArchive
  rcases getElem?_alike h draft.index with ⟨hnone, hnone'⟩ | ⟨left, right, hleft, hright, hroot⟩
  · rw [hnone, hnone']
    exact Agrees.refl _
  · rw [hleft, hright]
    cases participants[draft.index]? with
    | none => exact Agrees.refl _
    | some provided =>
      cases state.1[draft.index]? with
      | none => exact Agrees.refl _
      | some planned =>
        dsimp only
        refine (Agrees.foldEach (T := Eq) ?_ (List.forall₂_same.mpr fun _ _ => rfl) _).bind fun pass pass' hpass => ?_
        · rintro state item _ rfl
          exact agrees_freezeEntry hroot provided _ state item
        · subst hpass
          exact agrees_pure rfl

theorem collisionsOf_alike (hroot : Alike left right) (provided : Providers table) :
    collisionsOf right provided = collisionsOf left provided := by
  unfold collisionsOf
  rw [hroot.root]
  refine List.filterMap_congr fun ⟨gamePath, archives⟩ _ => ?_
  dsimp only
  rw [hroot.loose]

theorem collisions_alike (h : List.Forall₂ Alike roots roots') (participants : List (Providers table)) :
    ((roots'.zip participants).flatMap fun (root, provided) => collisionsOf root provided) =
      (roots.zip participants).flatMap fun (root, provided) => collisionsOf root provided := by
  induction h generalizing participants with
  | nil => rfl
  | cons hroot _ ih =>
    cases participants with
    | nil => rfl
    | cons provided participants =>
      rw [List.zip_cons_cons, List.zip_cons_cons, List.flatMap_cons, List.flatMap_cons]
      exact congrArg₂ (· ++ ·) (collisionsOf_alike hroot provided) (ih participants)

theorem orderRoot_alike (precedence : ArchivePrecedence) (h : SameTree view view') (hroot : Alike left right) :
    (∃ e, orderRoot view.toFileView precedence left = .error e ∧ orderRoot view'.toFileView precedence right = .error e) ∨
      ∃ left' right', orderRoot view.toFileView precedence left = .ok left' ∧
        orderRoot view'.toFileView precedence right = .ok right' ∧ Alike left' right' := by
  cases precedence with
  | default => exact .inr ⟨left, right, rfl, rfl, hroot⟩
  | explicitOrder order =>
    have hsame : validateArchiveOrder view'.toFileView table right.root right.archives order =
        validateArchiveOrder view.toFileView table left.root left.archives order := by
      have hstep : orderArchive view'.toFileView table left.root left.archives =
          orderArchive view.toFileView table left.root left.archives := by
        unfold orderArchive
        rw [h.canonical]
      unfold validateArchiveOrder
      rw [hroot.root, hroot.archives, hstep]
    unfold orderRoot
    dsimp only
    rw [hsame]
    cases validateArchiveOrder view.toFileView table left.root left.archives order with
    | error e => exact .inl ⟨e, rfl, rfl⟩
    | ok ordered => exact .inr ⟨_, _, rfl, rfl, hroot.root, rfl, hroot.loose⟩

theorem orderRoots_alike (precedence : ArchivePrecedence) (h : SameTree view view') (hroots : List.Forall₂ Alike roots roots') :
    (∃ e, orderRoots view.toFileView precedence roots = .error e ∧ orderRoots view'.toFileView precedence roots' = .error e) ∨
      ∃ ordered ordered', orderRoots view.toFileView precedence roots = .ok ordered ∧
        orderRoots view'.toFileView precedence roots' = .ok ordered' ∧ List.Forall₂ Alike ordered ordered' := by
  induction hroots with
  | nil => exact .inr ⟨[], [], rfl, rfl, .nil⟩
  | cons hroot _ ih =>
    unfold orderRoots at ih ⊢
    rw [List.mapM_cons, List.mapM_cons]
    rcases orderRoot_alike precedence h hroot with ⟨e, hleft, hright⟩ | ⟨left', right', hleft, hright, hroot'⟩
    · exact .inl ⟨e, by rw [hleft]; rfl, by rw [hright]; rfl⟩
    · rw [hleft, hright]
      rcases ih with ⟨e, he, he'⟩ | ⟨ordered, ordered', ho, ho', hordered⟩
      · exact .inl ⟨e, by rw [he]; rfl, by rw [he']; rfl⟩
      · exact .inr ⟨_, _, by rw [ho]; rfl, by rw [ho']; rfl, .cons hroot' hordered⟩

theorem agrees_orderRoots (h : SameTree view view') (hroots : List.Forall₂ Alike roots roots') :
    Agrees (List.Forall₂ Alike)
      (Prog.ofExcept ((orderRoots view.toFileView precedence roots).mapError PreflightStop.failed) : Prog Polls _ _)
      (Prog.ofExcept ((orderRoots view'.toFileView precedence roots').mapError PreflightStop.failed)) := by
  rcases orderRoots_alike precedence h hroots with
    ⟨e, he, he'⟩ | ⟨ordered, ordered', ho, ho', hordered⟩
  · rw [he, he']
    exact agrees_fail
  · rw [ho, ho']
    exact agrees_pure hordered

theorem zipIdx_alike (h : List.Forall₂ Alike roots roots') (n : Nat) :
    List.Forall₂ (fun a b => Alike a.1 b.1 ∧ a.2 = b.2) (roots.zipIdx n) (roots'.zipIdx n) := by
  induction h generalizing n with
  | nil => exact .nil
  | cons hroot _ ih => exact .cons ⟨hroot, rfl⟩ (ih (n + 1))

/-- **Over Mod Roots alike, the preflight gives the same plan and the same collisions.** -/
theorem agrees_preflight (h : SameTree view view') (hroots : List.Forall₂ Alike roots roots')
    (check : List (Path × Nat) → CapacityVerdict) :
    Agrees Eq (preflight view.toFileView listEntries check precedence roots)
      (preflight view'.toFileView listEntries check precedence roots') := by
  unfold preflight
  refine (agrees_orderRoots h hroots).bind fun ordered ordered' hordered => ?_
  refine (Agrees.foldEach ?_ (zipIdx_alike hordered 0) _).bind fun survey survey' hsurvey => ?_
  · rintro survey ⟨left, i⟩ ⟨right, _⟩ ⟨hroot, rfl⟩
    exact agrees_surveyRoot h hroot survey i
  · subst hsurvey
    rw [← hordered.length_eq]
    refine (Agrees.foldEach (T := Eq) ?_ (List.forall₂_same.mpr fun _ _ => rfl) _).bind fun plans plans' hplans => ?_
    · rintro state draft _ rfl
      exact agrees_freezeArchive hordered _ state draft
    · subst hplans
      rw [collisions_alike hordered]
      exact Agrees.refl _

end Alike

/-! ## Empty manifests -/

/-- Archives whose manifests are empty. -/
def emptyManifests : Path → Answer (List ArchiveEntry) := fun _ => .ok []

/-- The survey over empty manifests: the Archives met so far, each planned with nothing. -/
structure SurveyedEmpty (n : Nat) (done : List (RootArchives table)) (survey : Survey table) : Prop where
  participants : survey.participants.length = done.length
  drafts : (survey.drafts.map fun draft => draft.plan.archivePath) = done.flatMap RootArchives.archives
  noGamePaths : ∀ draft ∈ survey.drafts, draft.gamePaths = [] ∧ draft.index < n

section Empty

variable {view : FileView}

theorem surveyRoot_empty {n i : Nat} {done : List (RootArchives table)} {root : RootArchives table} {survey : Survey table}
    (h : SurveyedEmpty n done survey) (hi : i < n) :
    Spec (surveyRoot view emptyManifests survey (root, i)) [] (fun survey' polls => polls = [] ∧
      SurveyedEmpty n (done ++ [root]) survey') (fun _ _ => False) fun _ => False := by
  unfold surveyRoot
  refine spec_bind.mpr (Spec.mono (Spec.foldEach (I := fun before _ state polls => polls = [] ∧
    (state.2.map fun draft => draft.plan.archivePath) = done.flatMap RootArchives.archives ++ before ∧
      ∀ draft ∈ state.2, draft.gamePaths = [] ∧ draft.index < n) ?_ [] root.archives
        ⟨rfl, by rw [List.append_nil, h.drafts], h.noGamePaths⟩) ?_ (fun _ _ h => h) fun _ h => h)
  · rintro before archive after ⟨provided, drafts⟩ polls ⟨rfl, hdrafts, hnone⟩
    refine ⟨rfl, ?_, fun draft hdraft => ?_⟩
    · show (drafts ++ [_]).map _ = _
      rw [List.map_append, hdrafts, List.append_assoc]
      rfl
    · rcases List.mem_append.mp hdraft with hdraft | hdraft
      · exact hnone draft hdraft
      · rw [List.mem_singleton] at hdraft
        subst hdraft
        exact ⟨rfl, hi⟩
  · rintro ⟨provided, drafts⟩ polls ⟨rfl, hdrafts, hnone⟩
    refine ⟨rfl, ?_, ?_, hnone⟩
    · show (survey.participants ++ [_]).length = _
      rw [List.length_append, List.length_append, h.participants]
      rfl
    · rw [List.flatMap_append, List.flatMap_singleton]
      exact hdrafts

theorem survey_empty (roots : List (RootArchives table)) :
    Spec (Prog.foldEach (surveyRoot view emptyManifests) ⟨[], []⟩ roots.zipIdx) [] (fun survey polls => polls = [] ∧
      SurveyedEmpty roots.length roots survey) (fun _ _ => False) fun _ => False := by
  refine Spec.mono (Spec.foldEach (I := fun before after survey polls => before ++ after = roots.zipIdx ∧ polls = [] ∧
    SurveyedEmpty roots.length (before.map Prod.fst) survey) ?_ [] roots.zipIdx ⟨rfl, rfl, rfl, rfl, nofun⟩) ?_
    (fun _ _ h => h) fun _ h => h
  · rintro before ⟨root, i⟩ after survey polls ⟨hsplit, rfl, h⟩
    have hi : i < roots.length := by
      have hmem : (root, i) ∈ roots.zipIdx := hsplit ▸ (by simp)
      exact (List.mem_zipIdx' hmem).1
    refine (surveyRoot_empty h hi).mono ?_ (fun _ _ h => h) fun _ h => h
    rintro survey' polls ⟨rfl, h'⟩
    refine ⟨by rw [List.append_assoc]; exact hsplit, rfl, ?_⟩
    rw [List.map_append]
    exact h'
  · rintro survey polls ⟨hsplit, rfl, h⟩
    rw [List.nil_append, List.zipIdx_map_fst] at h
    exact ⟨rfl, h⟩

theorem freeze_empty {roots : List (RootArchives table)} {survey : Survey table} (h : SurveyedEmpty roots.length roots survey) :
    Spec (Prog.foldEach (freezeArchive roots survey.participants) (List.replicate roots.length .empty, []) survey.drafts) []
      (fun state polls => polls = [] ∧ state.2.map ArchiveExtractionPlan.archivePath = roots.flatMap RootArchives.archives)
      (fun _ _ => False) fun _ => False := by
  refine Spec.mono (Spec.foldEach (I := fun before after state polls => before ++ after = survey.drafts ∧ polls = [] ∧
    state.1.length = roots.length ∧
      state.2.map ArchiveExtractionPlan.archivePath = before.map fun draft => draft.plan.archivePath) ?_ [] survey.drafts
        ⟨rfl, rfl, List.length_replicate, rfl⟩) ?_ (fun _ _ h => h) fun _ h => h
  · rintro before draft after ⟨planned, plans⟩ polls ⟨hsplit, rfl, hlength, hplans⟩
    obtain ⟨hnone, hindex⟩ := h.noGamePaths draft (hsplit ▸ (by simp))
    have hroot := List.getElem?_eq_getElem hindex
    have hparticipant := List.getElem?_eq_getElem (h.participants.symm ▸ hindex)
    have hplanned := List.getElem?_eq_getElem (hlength.symm ▸ hindex)
    unfold freezeArchive
    rw [hroot, hparticipant, hplanned, hnone, List.zip_nil_right]
    refine ⟨by rw [List.append_assoc]; exact hsplit, rfl, ?_, ?_⟩
    · exact List.length_set.trans hlength
    · show (plans ++ [_]).map _ = _
      rw [List.map_append, List.map_append, hplans]
      rfl
  · rintro state polls ⟨hsplit, rfl, -, hplans⟩
    rw [List.nil_append, h.drafts] at hplans
    exact ⟨rfl, hplans⟩

/-- **Over empty manifests, the plans are the Archives in their order.** -/
theorem preflight_empty (view : FileView) (roots : List (RootArchives table)) : ∃ planned,
    preflight view emptyManifests (fun _ => .fits) .default roots [] = (.done planned, []) ∧
      planned.plans.map ArchiveExtractionPlan.archivePath = roots.flatMap RootArchives.archives := by
  have horder : orderRoots view .default roots = .ok roots := by
    unfold orderRoots
    induction roots with
    | nil => rfl
    | cons root roots ih =>
      rw [List.mapM_cons, ih]
      rfl
  have hspec : Spec (preflight view emptyManifests (fun _ => .fits) .default roots) [] (fun planned polls => polls = [] ∧
      planned.plans.map ArchiveExtractionPlan.archivePath = roots.flatMap RootArchives.archives)
      (fun _ _ => False) fun _ => False := by
    unfold preflight
    rw [horder]
    show Spec (Prog.foldEach (surveyRoot view emptyManifests) ⟨[], []⟩ roots.zipIdx >>= _) [] _ _ _
    refine spec_bind.mpr ((survey_empty roots).mono ?_ (fun _ _ h => h) fun _ h => h)
    rintro survey polls ⟨rfl, hsurvey⟩
    refine spec_bind.mpr ((freeze_empty hsurvey).mono ?_ (fun _ _ h => h) fun _ h => h)
    rintro ⟨planned, plans⟩ polls ⟨rfl, hplans⟩
    dsimp only
    split_ifs with hempty
    · exact ⟨rfl, hempty ▸ hplans⟩
    · exact ⟨rfl, hplans⟩
  obtain ⟨planned, polls, hrun, rfl, hplans⟩ := hspec.returns
  exact ⟨planned, hrun, hplans⟩

end Empty

/-! ## The order of enumeration -/

variable {view : DiscoveryView} {roots : List Path}

/-- Discovery and the preflight give one plan and one list of collisions, in whatever order the directories are listed. -/
def OrderFree (table : UpcaseTable) (lowercase : Text → Text) (policy : RoutingPolicy) (view : DiscoveryView)
    (roots : List Path) : Prop :=
  ∀ view' : DiscoveryView, SameTree view.toDirectoryView view'.toDirectoryView → ∀ listEntries check precedence,
    Agrees Eq (preflight view.toFileView listEntries check precedence (discoverRoots table lowercase policy view roots))
      (preflight view'.toFileView listEntries check precedence (discoverRoots table lowercase policy view' roots))

theorem orderFree_of_untied (h : Untied policy view roots) : OrderFree table lowercase policy view roots := by
  intro view' hsame listEntries check precedence
  rw [discoverRoots_eq, discoverRoots_eq]
  have hroots : List.Forall₂ Alike (rootsFrom table lowercase policy view [] roots)
      (rootsFrom table lowercase policy view' [] roots) := rootsFrom_untied hsame h
  exact agrees_preflight hsame hroots check

theorem archives_length (h : SameTree view.toDirectoryView view'.toDirectoryView) (done roots : List Path) :
    ((rootsFrom table lowercase policy view done roots).map fun root => root.archives.length) =
      (rootsFrom table lowercase policy view' done roots).map fun root => root.archives.length := by
  induction roots generalizing done with
  | nil => rfl
  | cons root roots ih =>
    unfold rootsFrom rootArchives
    rw [List.map_cons, List.map_cons, ih]
    dsimp only
    rw [List.length_insertionSort, List.length_insertionSort, selectsArchive_same h,
      ((discover_perm h root).filter _).length_eq]

theorem untied_of_orderFree (h : OrderFree table lowercase policy view roots) : Untied policy view roots := by
  have hagrees := h (reversed view) (sameTree_reversed view) emptyManifests (fun _ => .fits) .default []
  rw [discoverRoots_eq, discoverRoots_eq] at hagrees
  obtain ⟨planned, hrun, hplans⟩ := preflight_empty view.toFileView
    (rootsFrom table lowercase policy view [] roots)
  obtain ⟨planned', hrun', hplans'⟩ := preflight_empty (reversed view).toFileView
    (rootsFrom table lowercase policy (reversed view) [] roots)
  obtain ⟨_, hother, rfl⟩ := hagrees.1 planned [] hrun
  rw [hrun'] at hother
  cases hother
  have harchives : (rootsFrom table lowercase policy view [] roots).map RootArchives.archives =
      (rootsFrom table lowercase policy (reversed view) [] roots).map RootArchives.archives := by
    refine List.eq_iff_flatten_eq.mpr ⟨?_, ?_⟩
    · rw [← List.flatMap_def, ← List.flatMap_def, ← hplans, ← hplans']
    · rw [List.map_map, List.map_map]
      exact archives_length (sameTree_reversed view) [] roots
  intro done root later hsplit
  exact untied_of_rootsFrom harchives done root later hsplit

/-- **The order of enumeration does not matter exactly if no two Archives of a Mod Root have one relative name; the order
of the sources of a split never does.** -/
theorem enumerationOrder_iff (table : UpcaseTable) (lowercase : Text → Text) (policy : RoutingPolicy) (view : DiscoveryView)
    (roots : List Path) :
    (OrderFree table lowercase policy view roots ∧
      ∀ (checks : OverflowChecks) (root : Path) (settings : Pack.Settings) (sources sources' : List Pack.PackSource),
        (∀ source ∈ sources, ∀ name ∈ source.path, Pack.WellFormed name) → (sources.map Pack.PackSource.path).Nodup →
        sources.Perm sources' →
          Pack.SplitArchives.split checks root sources settings = Pack.SplitArchives.split checks root sources' settings) ↔
      Untied policy view roots := by
  refine ⟨fun h => untied_of_orderFree h.1, fun h => ⟨orderFree_of_untied h, ?_⟩⟩
  intro checks root settings sources sources' hformed hdistinct hperm
  exact Pack.SplitArchives.split_perm checks root settings hperm hformed hdistinct

/-! ## Two Archives that read alike -/

/-- A Mod Root that holds two Archives, whose names differ in an unpaired surrogate. -/
def twinView : DiscoveryView where
  canonical := .ok
  weaklyCanonical := .ok
  readDir path :=
    if path = [OsStr.ofText "mod".toList] then
      .ok [.ok (.lone 0xD800 :: OsStr.ofText ".bsa".toList), .ok (.lone 0xD801 :: OsStr.ofText ".bsa".toList)]
    else .error "absent"
  symlinkMetadata path := .ok ⟨decide (path = [OsStr.ofText "mod".toList]), false, false⟩
  isFile path := decide (path ≠ [OsStr.ofText "mod".toList])
  isDir path := decide (path = [OsStr.ofText "mod".toList])
  depth _ := 0
  deeper directory entries name hread _ hdir := by
    have hroot := of_decide_eq_true hdir.1
    split_ifs at hread with hdirectory
    · subst hdirectory
      cases hroot
  distinct directory entries hread := by
    split_ifs at hread
    · cases hread
      simp

/-- A policy that extracts Archives. -/
def extracting : RoutingPolicy := ⟨.apply, [.archiveExtraction], false, ".bsa".toList⟩

theorem not_orderFree_twins : ¬∀ (table : UpcaseTable) (lowercase : Text → Text) (policy : RoutingPolicy)
    (view : DiscoveryView) (roots : List Path), OrderFree table lowercase policy view roots := by
  intro h
  have hroot : discover twinView [OsStr.ofText "mod".toList] =
      [[OsStr.ofText "mod".toList, .lone 0xD800 :: OsStr.ofText ".bsa".toList],
        [OsStr.ofText "mod".toList, .lone 0xD801 :: OsStr.ofText ".bsa".toList]] := by decide +kernel
  have huntied := untied_of_orderFree (h asciiUpcase id extracting twinView [[OsStr.ofText "mod".toList]]) []
    [OsStr.ofText "mod".toList] [] rfl
  rw [hroot] at huntied
  exact absurd (huntied _ List.mem_cons_self _ (List.mem_cons_of_mem _ List.mem_cons_self)
    (by decide +kernel) (by decide +kernel) (by decide +kernel)) (by decide +kernel)

end Cao.Discovery
