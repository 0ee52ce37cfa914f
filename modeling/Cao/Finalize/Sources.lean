import Cao.Finalize.Planning
import Cao.Lib.TreeWalk
import Cao.Run.Reads

/-!
# What planning collects

The files `collect_sources` offers for packing: the walk reads the tree, never ends early, and finds only regular
files below a subdirectory of the Mod Root.

* `IsSource`: a file that may be packed;
* **`reads_collectSources`**: the walk ends, and what it collects are such files.
-/

namespace Cao.Finalize

open Pack

variable {K : Type} [DecidableEq K] {V : Volume K} {P ε : Type} {disk : Disk V} {seams : FinalizationSeams}
  {request : FinalizationRequest} {root : Path}

/-! ## Operations that only read -/

omit [DecidableEq K] in
theorem reads_isCancelled : Reads disk (isCancelled seams : Prog (Site V P) ε Bool) fun _ => True :=
  reads_nextCall.bind fun _ _ => reads_pure trivial

omit [DecidableEq K] in
theorem reads_checkCancelled : Reads disk (checkCancelled seams : Prog (Site V P) _ Unit) fun _ => True := by
  refine reads_isCancelled.bind fun cancelled _ => ?_
  split_ifs
  · exact reads_failWith
  · exact reads_pure trivial

theorem reads_statEntry (path : Path) :
    Reads disk (statEntry seams.toSeams path : Prog (Site V P) _ _) fun found =>
      found = (disk.find path).map Prod.snd :=
  (reads_inspectTree _).mono fun _ h => (Except.ok.inj h).symm

theorem reads_statTarget (path : Path) : Reads disk (statTarget seams path : Prog (Site V P) _ _) fun _ => True := by
  refine (reads_statEntry path).bind fun found _ => ?_
  split
  · exact reads_nextCall.bind fun _ _ => reads_pure trivial
  · exact reads_pure trivial

/-! ## The files that may be packed -/

/-- A regular file below a subdirectory of a Mod Root, outside staging, that no exclusion matches. -/
structure IsSource (request : FinalizationRequest) (disk : Disk V) (root : Path) (source : PackSource) : Prop where
  file : ∃ data links, disk.Has source.path (.leaf (.file data links)) ∧ data.length = source.size
  below : ∃ relative, source.path = root ++ relative ∧ 2 ≤ relative.length ∧ hasStagingComponent relative = false ∧
    isPackingExcluded request relative = false

/-- What a walk has collected so far, and the directories it has still to read. -/
structure Walking (request : FinalizationRequest) (disk : Disk V) (root : Path) (collected : Collected) : Prop where
  sources : ∀ source ∈ collected.sources, IsSource request disk root source
  directories : ∀ p ∈ collected.pending, disk.Has p .dir ∧ root <+: p
  apart : PathTree.Apart collected.pending

/-- What was found so far in the directory at `directory`. -/
structure Entering (request : FinalizationRequest) (disk : Disk V) (root directory : Path) (pending : List Path)
    (before : List OsStr) (collected : Collected) : Prop where
  sources : ∀ source ∈ collected.sources, IsSource request disk root source
  found : ∃ names : List OsStr, collected.pending = names.map (fun a => directory ++ [a]) ++ pending ∧
    names.Sublist before.reverse ∧ ∀ a ∈ names, disk.Has (directory ++ [a]) .dir

omit [DecidableEq K] in
theorem Entering.skip {directory : Path} {pending : List Path} {before : List OsStr} {collected : Collected}
    (h : Entering request disk root directory pending before collected) (entry : OsStr) :
    Entering request disk root directory pending (before ++ [entry]) collected := by
  obtain ⟨names, hpending, hsub, hdir⟩ := h.found
  refine ⟨h.sources, names, hpending, ?_, hdir⟩
  rw [List.reverse_concat]
  exact hsub.cons entry

theorem offered_eq_some {path : Path} {size : Nat} {source : PackSource} (h : offered path size = some source) :
    source.path = path ∧ source.size = size := by
  unfold offered at h
  split_ifs at h
  cases h
  exact ⟨rfl, rfl⟩

theorem reads_collectEntry {directory : Path} {pending : List Path} {before : List OsStr} {collected : Collected}
    {entry : OsStr} {n : Node Leaf} (hroot : root <+: directory) (hentry : disk.Has (directory ++ [entry]) n)
    (h : Entering request disk root directory pending before collected) :
    Reads disk (collectEntry seams request root directory collected entry : Prog (Site V P) _ _)
      (Entering request disk root directory pending (before ++ [entry])) := by
  obtain ⟨above, rfl⟩ := hroot
  have hrelative : relativeTo root (root ++ above ++ [entry]) = some (above ++ [entry]) :=
    relativeTo_eq_some.mpr (List.append_assoc _ _ _)
  refine reads_checkCancelled.bind fun _ _ => (reads_call _).mapError.bind fun _ _ => ?_
  simp only [hrelative, Option.getD_some]
  refine (reads_inspectTree _).mapError.bind fun node hnode => ?_
  have hnode : node = n := by
    simp only [entryAt, hentry.find, Except.ok.injEq] at hnode
    exact hnode.symm
  subst hnode
  by_cases hstaging : hasStagingComponent (above ++ [entry]) = true
  · rw [if_pos hstaging]
    exact reads_pure (h.skip entry)
  rw [if_neg hstaging]
  cases node with
  | dir =>
    obtain ⟨names, hpending, hsub, hdir⟩ := h.found
    refine reads_pure ⟨h.sources, entry :: names, by simp [hpending], ?_, ?_⟩
    · rw [List.reverse_concat]
      exact hsub.cons_cons entry
    · intro a ha
      rcases List.mem_cons.mp ha with rfl | ha
      · exact hentry
      · exact hdir a ha
  | leaf leaf =>
    cases leaf with
    | link => exact reads_pure (h.skip entry)
    | other => exact reads_pure (h.skip entry)
    | file data links =>
      simp only [Bool.or_eq_true, decide_eq_true_eq]
      split_ifs with hexcluded
      · exact reads_pure (h.skip entry)
      · rw [not_or, not_lt, Bool.not_eq_true] at hexcluded
        cases hoffered : offered (root ++ above ++ [entry]) data.length with
        | none => exact reads_failWith
        | some source =>
          obtain ⟨hpath, hsize⟩ := offered_eq_some hoffered
          have hskip := h.skip entry
          refine reads_pure ⟨fun source' hs => ?_, hskip.found⟩
          rcases List.mem_append.mp hs with hs | hs
          · exact h.sources source' hs
          · rw [List.mem_singleton.mp hs]
            exact ⟨⟨data, links, hpath ▸ hentry, hsize.symm⟩, above ++ [entry],
              hpath.trans (List.append_assoc _ _ _), hexcluded.1, Bool.eq_false_iff.mpr hstaging, hexcluded.2⟩

/-- Reading a directory: what was collected grows, and the directories found in it are still to read. -/
theorem reads_collectDirectory {directory : Path} {pending : List Path} {sources : List PackSource} {n : Node Leaf}
    (hdirectory : disk.find directory = some (directory, n)) (hroot : root <+: directory)
    (hapart : PathTree.Apart (directory :: pending)) (hpending : ∀ p ∈ pending, disk.Has p .dir ∧ root <+: p)
    (hsources : ∀ source ∈ sources, IsSource request disk root source) :
    Reads disk (collectDirectory seams request root directory ⟨sources, pending⟩ : Prog (Site V P) _ _)
      fun collected => Walking request disk root collected ∧
        ∃ names : List OsStr, collected.pending = names.map (fun a => directory ++ [a]) ++ pending := by
  refine (reads_inspectTree _).mapError.bind fun entries hentries => ?_
  have hentries : entries = (disk.children directory).map Prod.fst := by
    cases n with
    | leaf leaf => simp [readDirectory, hdirectory] at hentries
    | dir =>
      simp only [readDirectory, hdirectory, Except.ok.injEq] at hentries
      exact hentries.symm
  subst hentries
  have hloop := Reads.foldEach (P := P) (f := collectEntry seams request root directory)
    (I := fun before after collected => before ++ after = (disk.children directory).map Prod.fst ∧
      Entering request disk root directory pending before collected)
    (fun before entry after collected h => by
      have hmem : entry ∈ (disk.children directory).map Prod.fst := by
        rw [← h.1]
        exact List.mem_append_right _ List.mem_cons_self
      obtain ⟨⟨_, n⟩, hn, rfl⟩ := List.mem_map.mp hmem
      exact (reads_collectEntry hroot (PathTree.mem_children.mp hn) h.2).mono fun _ h' => ⟨by rw [← h.1]; simp, h'⟩)
    (l := (disk.children directory).map Prod.fst) (c := ⟨sources, pending⟩)
    ⟨rfl, hsources, [], rfl, List.Sublist.refl _, by simp⟩
  refine hloop.mono fun collected h => ?_
  obtain ⟨names, heq, hsub, hdir⟩ := h.2.found
  have hnodup : names.Nodup := hsub.nodup (List.nodup_reverse.mpr (PathTree.nodup_children disk directory))
  refine ⟨⟨h.2.sources, ?_, ?_⟩, names, heq⟩
  · rw [heq]
    intro p hp
    rcases List.mem_append.mp hp with hp | hp
    · obtain ⟨a, ha, rfl⟩ := List.mem_map.mp hp
      exact ⟨hdir a ha, hroot.trans (List.prefix_append _ _)⟩
    · exact hpending p hp
  · rw [heq]
    exact hapart.step hnodup

theorem reads_collectFrom {fuel : Nat} {collected : Collected} (h : Walking request disk root collected)
    (hfuel : disk.unread collected.pending < fuel) :
    Reads disk (collectFrom seams request root fuel collected : Prog (Site V P) _ _)
      fun sources => ∀ source ∈ sources, IsSource request disk root source := by
  induction fuel generalizing collected with
  | zero => exact absurd hfuel (Nat.not_lt_zero _)
  | succ fuel ih =>
    obtain ⟨sources, pending⟩ := collected
    cases pending with
    | nil => exact reads_pure h.sources
    | cons directory pending =>
      have hdirectory := h.directories directory List.mem_cons_self
      refine (reads_collectDirectory hdirectory.1.find hdirectory.2 h.apart
        (fun p hp => h.directories p (List.mem_cons_of_mem _ hp)) h.sources).bind fun collected hc => ?_
      obtain ⟨hwalking, names, hnames⟩ := hc
      refine ih hwalking ?_
      rw [hnames]
      exact lt_of_lt_of_le (PathTree.unread_step hdirectory.1 h.apart names) (Nat.le_of_lt_succ hfuel)

/-- **The walk reads every directory once, and collects files that may be packed.** -/
theorem reads_collectSources {n : Node Leaf} (hroot : disk.find root = some (root, n)) :
    Reads disk (collectSources seams request root : Prog (Site V P) _ _)
      fun sources => ∀ source ∈ sources, IsSource request disk root source := by
  refine reads_get.bind fun s hs => ?_
  rw [hs]
  -- The root need not be an entry of the tree, so its own step is not counted among those of the entries.
  refine (reads_collectDirectory hroot List.prefix_rfl (PathTree.apart_singleton root) (by simp) (by simp)).bind
    fun collected hc => ?_
  exact reads_collectFrom hc.1 (Nat.lt_succ_of_le (PathTree.unread_le _))

end Cao.Finalize
