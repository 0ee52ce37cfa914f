import Cao.Capacity.Preview
import Cao.Discovery.Walk

/-!
# Archives found in any order

The Archive pass over the files of each Mod Root: which Archives it hands to the preflight, in which order, and what of
that depends on the order in which directories are listed.

* `selectsArchive`, `rootsFrom`, **`discoverRoots_eq`**: what the pass hands over, Mod Root by Mod Root;
* `Untied`: no two Archives of a Mod Root have one relative name;
* **`rootsFrom_untied`**: then the order of the listings does not matter;
* **`untied_of_rootsFrom`**: otherwise it does, for listings that are the reverse of one another.
-/

namespace Cao.Discovery

open Capacity Routing

variable {table : UpcaseTable} {lowercase : Text → Text} {policy : RoutingPolicy} {view view' : DiscoveryView}
  {root : Path} {done roots : List Path}

/-! ## What the pass hands over -/

/-- Routing admits the file. -/
def isRouted (policy : RoutingPolicy) (path : Path) : Bool :=
  match route policy path with
  | .routed _ => true
  | .skipped _ => false
  | .unsupported => false

/-- An Archive of a Mod Root is handed to the preflight: it is enabled, and no Mod Root done before holds it. -/
def selectsArchive (policy : RoutingPolicy) (view : DiscoveryView) (done : List Path) (path : Path) : Bool :=
  namesAnArchive policy path && isRouted policy path && !(done.any fun root => decide (path ∈ discover view root))

/-- The order within one Mod Root. -/
def archiveLe (lowercase : Text → Text) (root a b : Path) : Prop :=
  archiveOrderKey lowercase (relativeGamePath root a) ≤ archiveOrderKey lowercase (relativeGamePath root b)

instance : DecidableRel (archiveLe lowercase root) := fun _ _ => inferInstanceAs (Decidable (_ ≤ _))

instance : Std.Total (archiveLe lowercase root) := ⟨fun _ _ => le_total _ _⟩

instance : IsTrans Path (archiveLe lowercase root) := ⟨fun _ _ _ => le_trans⟩

/-- The Loose Assets among some files. -/
def looseOf (policy : RoutingPolicy) (root : Path) (files : List Path) (loose : OrdSet (gamePathKey table)) :
    OrdSet (gamePathKey table) :=
  (files.filter fun path => !namesAnArchive policy path).foldl (fun loose path => loose.insert (relativeGamePath root path))
    loose

/-- What the pass hands over of one Mod Root, after those done before. -/
def rootArchives (table : UpcaseTable) (lowercase : Text → Text) (policy : RoutingPolicy) (view : DiscoveryView)
    (done : List Path) (root : Path) : RootArchives table where
  root := root
  archives := ((discover view root).filter (selectsArchive policy view done)).insertionSort (archiveLe lowercase root)
  loose := looseOf policy root (discover view root) .empty

/-- What it hands over of the Mod Roots still to do. -/
def rootsFrom (table : UpcaseTable) (lowercase : Text → Text) (policy : RoutingPolicy) (view : DiscoveryView) :
    List Path → List Path → List (RootArchives table)
  | _, [] => []
  | done, root :: roots =>
    rootArchives table lowercase policy view done root :: rootsFrom table lowercase policy view (done ++ [root]) roots

/-- The Archive pass over what the walker finds. -/
def discoverRoots (table : UpcaseTable) (lowercase : Text → Text) (policy : RoutingPolicy) (view : DiscoveryView)
    (roots : List Path) : List (RootArchives table) :=
  (archivePass lowercase policy (roots.map fun root => ⟨root, discover view root, true⟩)
    (⟨[], [], []⟩ : ArchivePass table)).1.roots

/-- One file, met for the first time. -/
theorem visitFile_new (policy : RoutingPolicy) (root : Path) (pass : RootPass table) (path : Path) :
    (visitFile policy root pass path).selected = pass.selected ++
      (if namesAnArchive policy path && isRouted policy path && !decide (path ∈ pass.recognized) then [path] else []) ∧
    (visitFile policy root pass path).loose = looseOf policy root [path] pass.loose ∧
    ∀ p, p ∈ (visitFile policy root pass path).recognized ↔
      p ∈ pass.recognized ∨ p = path ∧ namesAnArchive policy path = true := by
  unfold visitFile looseOf
  by_cases harchive : namesAnArchive policy path = true
  · by_cases hknown : path ∈ pass.recognized
    · simp only [harchive, hknown, Bool.not_true, Bool.false_eq_true, if_false, if_true, decide_true, Bool.and_false,
        List.append_nil, List.filter_cons, List.filter_nil, List.foldl_nil, true_and, and_true]
      intro p
      exact ⟨.inl, fun h => h.elim id fun h => h ▸ hknown⟩
    · unfold isRouted
      cases hroute : route policy path <;>
        simp only [harchive, hknown, Bool.not_true, Bool.false_eq_true, if_false, if_true, decide_false, Bool.not_false,
          Bool.and_true, Bool.and_false, List.append_nil, List.filter_cons, List.filter_nil, List.foldl_nil,
          and_true, List.mem_cons, or_comm, implies_true]
  · have hloose : namesAnArchive policy path = false := Bool.not_eq_true _ |>.mp harchive
    simp only [hloose, Bool.not_false, if_true, Bool.false_and, Bool.false_eq_true, if_false, List.append_nil,
      List.filter_cons, List.filter_nil, List.foldl_cons, List.foldl_nil, true_and, and_false, or_false, implies_true]

/-- **The files of one Mod Root, each met once.** -/
theorem foldl_visitFile (policy : RoutingPolicy) (root : Path) {files : List Path} (hnodup : files.Nodup) (pass : RootPass table) :
    (files.foldl (visitFile policy root) pass).selected = pass.selected ++
      files.filter (fun path => namesAnArchive policy path && isRouted policy path && !decide (path ∈ pass.recognized)) ∧
    (files.foldl (visitFile policy root) pass).loose = looseOf policy root files pass.loose ∧
    ∀ p, p ∈ (files.foldl (visitFile policy root) pass).recognized ↔
      p ∈ pass.recognized ∨ p ∈ files ∧ namesAnArchive policy p = true := by
  induction files generalizing pass with
  | nil => simp [looseOf]
  | cons path files ih =>
    obtain ⟨hpath, hfiles⟩ := List.nodup_cons.mp hnodup
    obtain ⟨hselected, hloose, hrecognized⟩ := visitFile_new policy root pass path
    obtain ⟨ihSelected, ihLoose, ihRecognized⟩ := ih hfiles (visitFile policy root pass path)
    rw [List.foldl_cons]
    refine ⟨?_, ?_, fun p => ?_⟩
    · rw [ihSelected, hselected, List.append_assoc, List.filter_cons]
      have hlater : files.filter (fun p => namesAnArchive policy p && isRouted policy p &&
            !decide (p ∈ (visitFile policy root pass path).recognized)) =
          files.filter (fun p => namesAnArchive policy p && isRouted policy p && !decide (p ∈ pass.recognized)) := by
        refine List.filter_congr fun p hp => ?_
        have hsame : p ∈ (visitFile policy root pass path).recognized ↔ p ∈ pass.recognized := by
          rw [hrecognized]
          refine or_iff_left ?_
          rintro ⟨rfl, -⟩
          exact hpath hp
        rw [decide_eq_decide.mpr hsame]
      rw [hlater]
      split_ifs <;> rfl
    · rw [ihLoose, hloose]
      unfold looseOf
      rw [← List.foldl_append, ← List.filter_append, List.singleton_append]
    · rw [ihRecognized, hrecognized, List.mem_cons]
      constructor
      · rintro ((h | ⟨rfl, h⟩) | ⟨h, h'⟩)
        · exact .inl h
        · exact .inr ⟨.inl rfl, h⟩
        · exact .inr ⟨.inr h, h'⟩
      · rintro (h | ⟨rfl | h, h'⟩)
        · exact .inl (.inl h)
        · exact .inl (.inr ⟨rfl, h'⟩)
        · exact .inr ⟨h, h'⟩

theorem archivePass_from (pass : ArchivePass table)
    (hknown : ∀ p, p ∈ pass.recognized ↔ (∃ r ∈ done, p ∈ discover view r) ∧ namesAnArchive policy p = true) :
    (archivePass lowercase policy (roots.map fun root => ⟨root, discover view root, true⟩) pass).1.roots =
      pass.roots ++ rootsFrom table lowercase policy view done roots := by
  induction roots generalizing pass done with
  | nil => exact (List.append_nil _).symm
  | cons root roots ih =>
    obtain ⟨hselected, hloose, hrecognized⟩ := foldl_visitFile policy root
      (nodup_discover view root) (⟨pass.recognized, pass.skipped, [], .empty⟩ : RootPass table)
    have hselects : (discover view root).filter (fun path => namesAnArchive policy path && isRouted policy path &&
        !decide (path ∈ pass.recognized)) = (discover view root).filter (selectsArchive policy view done) := by
      refine List.filter_congr fun path _ => ?_
      unfold selectsArchive
      cases harchive : namesAnArchive policy path with
      | false => rfl
      | true =>
        have hmem : decide (path ∈ pass.recognized) = done.any fun root => decide (path ∈ discover view root) := by
          rw [Bool.eq_iff_iff, decide_eq_true_eq, List.any_eq_true, hknown]
          simp only [harchive, and_true, decide_eq_true_eq]
        rw [hmem]
    rw [List.nil_append, hselects] at hselected
    rw [List.map_cons]
    unfold archivePass rootsFrom
    dsimp only
    rw [if_pos rfl, @ih (done ++ [root])]
    · dsimp only
      rw [hselected, hloose, List.append_assoc]
      rfl
    · intro p
      dsimp only
      rw [hrecognized, hknown]
      constructor
      · rintro (⟨⟨r, hr, hp⟩, harchive⟩ | ⟨hp, harchive⟩)
        · exact ⟨⟨r, List.mem_append_left _ hr, hp⟩, harchive⟩
        · exact ⟨⟨root, List.mem_append_right _ (List.mem_singleton_self _), hp⟩, harchive⟩
      · rintro ⟨⟨r, hr, hp⟩, harchive⟩
        rcases List.mem_append.mp hr with hr | hr
        · exact .inl ⟨⟨r, hr, hp⟩, harchive⟩
        · exact .inr ⟨List.mem_singleton.mp hr ▸ hp, harchive⟩

/-- **What the pass hands over, Mod Root by Mod Root.** -/
theorem discoverRoots_eq (table : UpcaseTable) (lowercase : Text → Text) (policy : RoutingPolicy) (view : DiscoveryView)
    (roots : List Path) :
    discoverRoots table lowercase policy view roots = rootsFrom table lowercase policy view [] roots :=
  archivePass_from _ (by simp)

/-! ## Without ties -/

/-- No two Archives handed over of one Mod Root have one relative name, as it is written for the user: the name of a
file that is not Unicode is written lossily. -/
def Untied (policy : RoutingPolicy) (view : DiscoveryView) (roots : List Path) : Prop :=
  ∀ done root later, roots = done ++ root :: later → ∀ a ∈ discover view root, ∀ b ∈ discover view root,
    selectsArchive policy view done a = true → selectsArchive policy view done b = true →
    relativeGamePath root a = relativeGamePath root b → a = b

theorem selectsArchive_same (h : SameTree view.toDirectoryView view'.toDirectoryView) (done : List Path) :
    selectsArchive policy view' done = selectsArchive policy view done := by
  funext path
  unfold selectsArchive
  congr 2
  refine List.any_congr rfl fun root => ?_
  exact decide_eq_decide.mpr (discover_perm h root).mem_iff.symm

/-- A relative name is told apart by its key. -/
theorem relativeGamePath_of_key {a b : Path}
    (h : archiveOrderKey lowercase (relativeGamePath root a) = archiveOrderKey lowercase (relativeGamePath root b)) :
    relativeGamePath root a = relativeGamePath root b := by
  have hkey : strKey (relativeGamePath root a) = strKey (relativeGamePath root b) :=
    (List.cons.inj (List.cons.inj h).2).1
  have hbytes : utf8 (relativeGamePath root a) = utf8 (relativeGamePath root b) :=
    List.map_injective_iff.mpr (fun _ _ => UInt8.toNat_inj.mp) hkey
  exact utf8_injective hbytes

/-- **Sorted, files without ties are in one order.** -/
theorem insertionSort_perm_eq {l l' : List Path} (h : l.Perm l')
    (huntied : ∀ a ∈ l, ∀ b ∈ l, relativeGamePath root a = relativeGamePath root b → a = b) :
    l.insertionSort (archiveLe lowercase root) = l'.insertionSort (archiveLe lowercase root) := by
  refine List.Perm.eq_of_pairwise ?_ (List.pairwise_insertionSort (archiveLe lowercase root) l)
    (List.pairwise_insertionSort _ l') ((List.perm_insertionSort _ l).trans (h.trans (List.perm_insertionSort _ l').symm))
  intro a b ha hb hab hba
  rw [List.mem_insertionSort] at ha hb
  exact huntied a ha b (h.mem_iff.mpr hb) (relativeGamePath_of_key (le_antisymm hab hba))

/-- Two Mod Roots that the preflight cannot tell apart. -/
structure Alike (left right : RootArchives table) : Prop where
  root : right.root = left.root
  archives : right.archives = left.archives
  loose : ∀ path, right.loose.contains path = left.loose.contains path

theorem contains_looseOf {files : List Path} {loose : OrdSet (gamePathKey table)} {path : Text} :
    (looseOf policy root files loose).contains path = true ↔ loose.contains path = true ∨
      ∃ file ∈ files, namesAnArchive policy file = false ∧ gamePathKey table path = gamePathKey table (relativeGamePath root file) := by
  induction files generalizing loose with
  | nil => simp [looseOf]
  | cons file files ih =>
    have hstep : looseOf policy root (file :: files) loose =
        looseOf policy root files (if namesAnArchive policy file then loose else loose.insert (relativeGamePath root file)) := by
      unfold looseOf
      rw [List.filter_cons]
      cases namesAnArchive policy file <;> rfl
    rw [hstep, ih]
    cases harchive : namesAnArchive policy file with
    | true => simp [harchive]
    | false =>
      simp only [Bool.false_eq_true, if_false, OrdMap.contains_insert, List.mem_cons, exists_eq_or_imp, harchive, true_and]
      tauto

theorem contains_looseOf_perm {files files' : List Path} (h : files.Perm files') (path : Text) :
    (looseOf policy root files' (.empty : OrdSet (gamePathKey table))).contains path =
      (looseOf policy root files (.empty : OrdSet (gamePathKey table))).contains path := by
  rw [Bool.eq_iff_iff, contains_looseOf, contains_looseOf]
  simp only [h.mem_iff]

/-- **Without ties, the order of the listings does not matter.** -/
theorem rootsFrom_untied (h : SameTree view.toDirectoryView view'.toDirectoryView)
    (huntied : ∀ before root later, roots = before ++ root :: later → ∀ a ∈ discover view root, ∀ b ∈ discover view root,
      selectsArchive policy view (done ++ before) a = true → selectsArchive policy view (done ++ before) b = true →
      relativeGamePath root a = relativeGamePath root b → a = b) :
    List.Forall₂ Alike (rootsFrom table lowercase policy view done roots)
      (rootsFrom table lowercase policy view' done roots) := by
  induction roots generalizing done with
  | nil => exact .nil
  | cons root roots ih =>
    refine .cons ⟨rfl, ?_, fun path => contains_looseOf_perm (discover_perm h root) path⟩ (ih fun before r later hsplit => ?_)
    · unfold rootArchives
      dsimp only
      rw [selectsArchive_same h]
      refine (insertionSort_perm_eq ((discover_perm h root).filter _) fun a ha b hb hab => ?_).symm
      obtain ⟨ha, hsa⟩ := List.mem_filter.mp ha
      obtain ⟨hb, hsb⟩ := List.mem_filter.mp hb
      exact huntied [] root roots rfl a ha b hb (by rwa [List.append_nil]) (by rwa [List.append_nil]) hab
    · have hnext := huntied (root :: before) r later (by rw [hsplit, List.cons_append])
      rwa [List.append_cons] at hnext

/-! ## With ties -/

/-- Of two members of a list, one comes first. -/
theorem pair_sublist {α : Type} {l : List α} {a b : α} (ha : a ∈ l) (hb : b ∈ l) (hne : a ≠ b) :
    [a, b].Sublist l ∨ [b, a].Sublist l := by
  induction l with
  | nil => cases ha
  | cons c l ih =>
    rcases List.mem_cons.mp ha with rfl | ha'
    · have hb' : b ∈ l := (List.mem_cons.mp hb).resolve_left fun he => hne he.symm
      exact .inl ((List.singleton_sublist.mpr hb').cons_cons _)
    · rcases List.mem_cons.mp hb with rfl | hb'
      · exact .inr ((List.singleton_sublist.mpr ha').cons_cons _)
      · exact (ih ha' hb').imp (·.cons c) (·.cons c)

/-- Of two members of a list without repetitions, only one comes first. -/
theorem not_pair_swapped {α : Type} {l : List α} {a b : α} (hnodup : l.Nodup) (h : [a, b].Sublist l) :
    ¬[b, a].Sublist l := by
  induction l with
  | nil => cases h
  | cons c l ih =>
    obtain ⟨hc, hl⟩ := List.nodup_cons.mp hnodup
    intro h'
    cases h with
    | cons _ h =>
      cases h' with
      | cons _ h' => exact ih hl h h'
      | cons_cons _ h' => exact hc (h.subset (by simp))
    | cons_cons _ h =>
      cases h' with
      | cons _ h' => exact hc (h'.subset (by simp))
      | cons_cons _ h' => exact hc (h.subset (by simp))

/-- **Files sorted alike forwards and backwards have no ties.** -/
theorem untied_of_insertionSort {l : List Path} (hnodup : l.Nodup)
    (h : l.insertionSort (archiveLe lowercase root) = l.reverse.insertionSort (archiveLe lowercase root)) :
    ∀ a ∈ l, ∀ b ∈ l, relativeGamePath root a = relativeGamePath root b → a = b := by
  have hsorted : (l.insertionSort (archiveLe lowercase root)).Nodup := (List.perm_insertionSort _ l).nodup_iff.mpr hnodup
  -- A tie keeps the order in which its files are found, forwards and backwards.
  have hstable : ∀ a b, relativeGamePath root a = relativeGamePath root b → ¬[a, b].Sublist l := by
    intro a b hab hsub
    have hle : archiveLe lowercase root a b ∧ archiveLe lowercase root b a := by
      unfold archiveLe
      rw [hab]
      exact ⟨le_rfl, le_rfl⟩
    have hforwards := List.pair_sublist_insertionSort hle.1 hsub
    have hbackwards := List.pair_sublist_insertionSort hle.2 (by simpa using hsub.reverse)
    rw [← h] at hbackwards
    exact not_pair_swapped hsorted hforwards hbackwards
  intro a ha b hb hab
  by_contra hne
  rcases pair_sublist ha hb hne with hsub | hsub
  · exact hstable a b hab hsub
  · exact hstable b a hab.symm hsub

/-- **Where listings backwards give the same Archives in the same order, there are no ties.** -/
theorem untied_of_rootsFrom
    (h : (rootsFrom table lowercase policy view done roots).map RootArchives.archives =
      (rootsFrom table lowercase policy (reversed view) done roots).map RootArchives.archives)
    (before : List Path) (root : Path) (later : List Path) (hsplit : roots = before ++ root :: later) :
    ∀ a ∈ discover view root, ∀ b ∈ discover view root, selectsArchive policy view (done ++ before) a = true →
      selectsArchive policy view (done ++ before) b = true → relativeGamePath root a = relativeGamePath root b → a = b := by
  induction before generalizing done roots with
  | nil =>
    subst hsplit
    have hroot := (List.cons.inj h).1
    unfold rootArchives at hroot
    dsimp only at hroot
    rw [selectsArchive_same (sameTree_reversed view), discover_reversed, List.filter_reverse] at hroot
    have huntied := untied_of_insertionSort ((nodup_discover view root).filter _) hroot
    intro a ha b hb hsa hsb hab
    rw [List.append_nil] at hsa hsb
    exact huntied a (List.mem_filter.mpr ⟨ha, hsa⟩) b (List.mem_filter.mpr ⟨hb, hsb⟩) hab
  | cons r before ih =>
    subst hsplit
    have hrest := (List.cons.inj h).2
    change List.map _ (rootsFrom table lowercase policy view (done ++ [r]) (before ++ root :: later)) = _ at hrest
    have hnext := ih hrest rfl
    rwa [← List.append_cons] at hnext

end Cao.Discovery
