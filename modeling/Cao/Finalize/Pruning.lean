import Cao.Finalize.Phase
import Cao.Finalize.Sources

/-!
# Which directories may be pruned

The walk of `delete_empty_directories` reads the tree, always ends, and finds directories strictly below its root,
outside staging and not below a hidden one.

* `Prunable`: such a directory, its root spelled as it was given;
* **`reads_visitFrom`**, `reads_visitRoot`: the walk ends, and what it finds may be pruned.
-/

namespace Cao.Finalize

variable {K : Type} [DecidableEq K] {V : Volume K} {P ε : Type} {disk : Disk V} {seams : FinalizationSeams}
  {root found : Path}

/-- Below a root, none of these names reserved and no directory on the way down seen hidden. -/
structure Below (seams : FinalizationSeams) (root relative : Path) : Prop where
  staging : hasStagingComponent relative = false
  visible : ∀ above, above <+: relative → above ≠ [] → ∃ n, seams.hidden n (root ++ above) = false

/-- A directory that pruning may remove. -/
def Prunable (seams : FinalizationSeams) (root path : Path) : Prop :=
  ∃ relative, path = root ++ relative ∧ relative ≠ [] ∧ Below seams root relative

theorem Below.nil : Below seams root [] :=
  ⟨rfl, fun _ h hne => absurd (List.prefix_nil.mp h) hne⟩

theorem Below.step {relative : Path} {entry : OsStr} (h : Below seams root relative) {n : Nat}
    (hstaging : hasStagingComponent (relative ++ [entry]) = false)
    (hhidden : seams.hidden n (root ++ (relative ++ [entry])) = false) : Below seams root (relative ++ [entry]) := by
  refine ⟨hstaging, fun above habove hne => ?_⟩
  rcases List.prefix_concat_iff.mp habove with rfl | habove
  · exact ⟨n, hhidden⟩
  · exact h.visible above habove hne

/-- What a walk has found so far below its root, which the tree spells `found`. -/
structure Visiting (seams : FinalizationSeams) (disk : Disk V) (root found : Path) (walk : Found) : Prop where
  directories : ∀ p ∈ walk.directories, Prunable seams root p
  pending : ∃ relatives : List Path, walk.pending = relatives.map (root ++ ·) ∧
    PathTree.Apart (relatives.map (found ++ ·)) ∧
    ∀ relative ∈ relatives, disk.Has (found ++ relative) .dir ∧ Below seams root relative

/-- What was found so far in one directory. -/
structure Seeing (seams : FinalizationSeams) (disk : Disk V) (root found relative : Path) (pending : List Path)
    (before : List OsStr) (walk : Found) : Prop where
  directories : ∀ p ∈ walk.directories, Prunable seams root p
  names : ∃ names : List OsStr, walk.pending = names.map (fun a => root ++ (relative ++ [a])) ++ pending ∧
    names.Sublist before.reverse ∧
    ∀ a ∈ names, disk.Has (found ++ (relative ++ [a])) .dir ∧ Below seams root (relative ++ [a])

omit [DecidableEq K] in
theorem Seeing.skip {relative : Path} {pending : List Path} {before : List OsStr} {walk : Found}
    (h : Seeing seams disk root found relative pending before walk) (entry : OsStr) :
    Seeing seams disk root found relative pending (before ++ [entry]) walk := by
  obtain ⟨names, hpending, hsub, hdir⟩ := h.names
  refine ⟨h.directories, names, hpending, ?_, hdir⟩
  rw [List.reverse_concat]
  exact hsub.cons entry

/-- A path under the root as it was given is found under the root as the tree spells it. -/
theorem find_below {n : Node Leaf} (hroot : disk.find root = some (found, n)) (relative : Path) :
    disk.find (root ++ relative) = disk.find (found ++ relative) := by
  refine PathTree.find_congr ?_
  rw [List.map_append, List.map_append, PathTree.fold_of_find hroot]

theorem reads_visitEntry {relative : Path} {pending : List Path} {before : List OsStr} {walk : Found} {entry : OsStr}
    {m n : Node Leaf} (hroot : disk.find root = some (found, m)) (hbelow : Below seams root relative)
    (hentry : disk.Has (found ++ (relative ++ [entry])) n)
    (h : Seeing seams disk root found relative pending before walk) :
    Reads disk (visitEntry seams root (root ++ relative) walk entry : Prog (Site V P) (Thrown ε) _)
      (Seeing seams disk root found relative pending (before ++ [entry])) := by
  have hpath : root ++ relative ++ [entry] = root ++ (relative ++ [entry]) := List.append_assoc _ _ _
  have hrelative : relativeTo root (root ++ (relative ++ [entry])) = some (relative ++ [entry]) :=
    relativeTo_eq_some.mpr rfl
  refine (reads_result (reads_call _)).bind fun listed _ => ?_
  split
  · exact reads_pure (h.skip entry)
  · refine (reads_result (reads_inspectTree _)).bind fun metadata hmetadata => ?_
    split
    · next hok =>
      refine reads_nextCall.bind fun n _ => ?_
      split_ifs with hskip
      · exact reads_pure (h.skip entry)
      · rw [hpath, hrelative, Bool.or_eq_true, not_or, Bool.not_eq_true, Bool.not_eq_true, Option.getD_some] at hskip
        have hstep := hbelow.step hskip.2 hskip.1
        have hdir : disk.Has (found ++ (relative ++ [entry])) .dir := by
          have hread := hmetadata _ rfl
          rw [hpath, entryAt, find_below hroot, hentry.find] at hread
          cases hread
          exact hentry
        obtain ⟨names, hpending, hsub, hnames⟩ := h.names
        refine reads_pure ⟨fun p hp => ?_, entry :: names, ?_, ?_, ?_⟩
        · rcases List.mem_append.mp hp with hp | hp
          · exact h.directories p hp
          · exact ⟨relative ++ [entry], (List.mem_singleton.mp hp).trans hpath, by simp, hstep⟩
        · simp [hpending]
        · rw [List.reverse_concat]
          exact hsub.cons_cons entry
        · intro a ha
          rcases List.mem_cons.mp ha with rfl | ha
          · exact ⟨hdir, hstep⟩
          · exact hnames a ha
    · exact reads_pure (h.skip entry)
    · exact reads_pure (h.skip entry)

/-- Reading a directory, or failing to. -/
theorem reads_visitDirectory {relative : Path} {relatives directories : List Path} {n : Node Leaf}
    (hroot : disk.find root = some (found, n)) (hbelow : Below seams root relative)
    (hdirectories : ∀ p ∈ directories, Prunable seams root p)
    (hapart : PathTree.Apart ((relative :: relatives).map (found ++ ·)))
    (hpending : ∀ other ∈ relatives, disk.Has (found ++ other) .dir ∧ Below seams root other)
    (hspelled : ∀ q m, disk.find (found ++ relative) = some (q, m) → q = found ++ relative) :
    Reads disk (visitDirectory seams root (root ++ relative) ⟨directories, relatives.map (root ++ ·)⟩ :
        Prog (Site V P) (Thrown ε) _)
      fun walk => Visiting seams disk root found walk ∧
        ∃ names : List OsStr, walk.pending = names.map (fun a => root ++ (relative ++ [a])) ++ relatives.map (root ++ ·) := by
  have hrest : PathTree.Apart (relatives.map (found ++ ·)) := (List.pairwise_cons.mp hapart).2
  refine (reads_result (reads_inspectTree _)).bind fun listed hlisted => ?_
  split
  · exact reads_pure ⟨⟨hdirectories, relatives, rfl, hrest, hpending⟩, [], rfl⟩
  · next entries =>
    have hentries : entries = (disk.children (found ++ relative)).map Prod.fst := by
      have hread := hlisted entries rfl
      rw [readDirectory, find_below hroot] at hread
      split at hread
      · next q hfind =>
        rw [hspelled q _ hfind] at hread
        exact (Except.ok.inj hread).symm
      · cases hread
    have hloop := Reads.foldEach (P := P) (ε := Thrown ε)
      (f := visitEntry seams root (root ++ relative))
      (I := fun before after walk => before ++ after = (disk.children (found ++ relative)).map Prod.fst ∧
        Seeing seams disk root found relative (relatives.map (root ++ ·)) before walk)
      (fun before entry after walk h => by
        have hmem : entry ∈ (disk.children (found ++ relative)).map Prod.fst := by
          rw [← h.1]
          exact List.mem_append_right _ List.mem_cons_self
        obtain ⟨⟨_, n⟩, hn, rfl⟩ := List.mem_map.mp hmem
        have hentry := PathTree.mem_children.mp hn
        rw [List.append_assoc] at hentry
        exact (reads_visitEntry hroot hbelow hentry h.2).mono fun _ h' => ⟨by rw [← h.1]; simp, h'⟩)
      (l := entries) (c := ⟨directories, relatives.map (root ++ ·)⟩)
      ⟨by rw [hentries]; rfl, hdirectories, [], rfl, List.Sublist.refl _, by simp⟩
    refine hloop.mono fun walk h => ?_
    obtain ⟨names, heq, hsub, hnames⟩ := h.2.names
    have hnodup : names.Nodup :=
      hsub.nodup (List.nodup_reverse.mpr (hentries ▸ PathTree.nodup_children disk (found ++ relative)))
    refine ⟨⟨h.2.directories, names.map (fun a => relative ++ [a]) ++ relatives, ?_, ?_, ?_⟩, names, heq⟩
    · simp [heq, Function.comp_def]
    · have hstep := PathTree.Apart.step hapart hnodup
      simpa [Function.comp_def] using hstep
    · intro other hother
      rcases List.mem_append.mp hother with hother | hother
      · obtain ⟨a, ha, rfl⟩ := List.mem_map.mp hother
        exact hnames a ha
      · exact hpending other hother

/-- **The walk reads every directory once, and finds directories that may be pruned.** -/
theorem reads_visitFrom {fuel : Nat} {walk : Found} {n : Node Leaf} (hroot : disk.find root = some (found, n))
    (h : Visiting seams disk root found walk)
    (hfuel : ∀ relatives : List Path, walk.pending = relatives.map (root ++ ·) →
      disk.unread (relatives.map (found ++ ·)) < fuel) :
    Reads disk (visitFrom seams root fuel walk : Prog (Site V P) (Thrown ε) _)
      fun directories => ∀ p ∈ directories, Prunable seams root p := by
  induction fuel generalizing walk with
  | zero =>
    obtain ⟨relatives, hpending, -⟩ := h.pending
    exact absurd (hfuel relatives hpending) (Nat.not_lt_zero _)
  | succ fuel ih =>
    obtain ⟨directories, pending⟩ := walk
    obtain ⟨relatives, hpending, hapart, hbelow⟩ := h.pending
    have hpending : pending = relatives.map (root ++ ·) := hpending
    subst hpending
    cases relatives with
    | nil => exact reads_pure h.directories
    | cons relative relatives =>
      obtain ⟨hhas, hrelative⟩ := hbelow relative List.mem_cons_self
      refine (reads_visitDirectory hroot hrelative h.directories hapart
        (fun other hother => hbelow other (List.mem_cons_of_mem _ hother)) fun q m hfind => ?_).bind fun walk hwalk => ?_
      · rw [hhas.find] at hfind
        cases hfind
        rfl
      · obtain ⟨hvisiting, names, hnames⟩ := hwalk
        refine ih hvisiting fun relatives' heq => ?_
        have hsame : relatives' = names.map (fun a => relative ++ [a]) ++ relatives := by
          refine List.map_injective_iff.mpr (fun p q hpq => List.append_cancel_left hpq) (heq.symm.trans (hnames.trans ?_))
          simp [Function.comp_def]
        have hless := PathTree.unread_step hhas hapart names
        rw [hsame]
        refine lt_of_lt_of_le (lt_of_eq_of_lt ?_ hless) (Nat.le_of_lt_succ (hfuel (relative :: relatives) rfl))
        simp [Function.comp_def]

/-- **The walk from a root ends, whether or not a directory stands there.** -/
theorem reads_visitRoot : Reads disk (visitFrom seams root (disk.entries.length + 2) ⟨[], [root]⟩ :
    Prog (Site V P) (Thrown ε) _) fun directories => ∀ p ∈ directories, Prunable seams root p := by
  cases hroot : disk.find root with
  | none =>
    -- Nothing is read, and nothing is left to read.
    have hvisit : Reads disk (visitDirectory seams root root ⟨[], []⟩ : Prog (Site V P) (Thrown ε) _)
        fun walk => walk = ⟨[], []⟩ := by
      refine (reads_result (reads_inspectTree _)).bind fun listed hlisted => ?_
      split
      · exact reads_pure rfl
      · next entries =>
        have hread := hlisted entries rfl
        rw [readDirectory, hroot] at hread
        cases hread
    exact hvisit.bind fun walk hwalk => by
      subst hwalk
      exact reads_pure (by simp)
  | some e =>
    obtain ⟨found, n⟩ := e
    have hfirst : Reads disk (visitDirectory seams root (root ++ []) ⟨[], [].map (root ++ ·)⟩ :
        Prog (Site V P) (Thrown ε) _) _ := reads_visitDirectory
      hroot Below.nil (by simp) (PathTree.apart_singleton _) (by simp) fun q m hfind => by
        rw [List.append_nil, PathTree.find_congr (PathTree.fold_of_find hroot), hroot] at hfind
        cases hfind
        rw [List.append_nil]
    rw [List.append_nil, List.map_nil] at hfirst
    refine hfirst.bind fun walk hwalk => reads_visitFrom hroot hwalk.1 fun relatives _ => ?_
    exact Nat.lt_succ_of_le (PathTree.unread_le _)

end Cao.Finalize
