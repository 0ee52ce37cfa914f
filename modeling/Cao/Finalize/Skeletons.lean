import Cao.Finalize.Pruning
import Cao.Pack.Bounds
import Cao.Staging.RoundTrip

/-!
# What pruning removes

`delete_empty_directories` where nothing is refused: the walk finds every directory that may be pruned, and of
them exactly those go that hold nothing but such directories.

* `PrunableDirectory`, `PrunablePath`: a directory the walk goes down to;
* `computes_visitDirectory`, **`computes_visitRoot`**: what the walk finds;
* `precedes_parent`: a directory is tried before the one it is in;
* **`deleteEmptyDirectories_exact`**: what is removed, what is counted and what stays.
-/

namespace Cao.Finalize

open Prog (Spec spec_bind)

variable {K : Type} [DecidableEq K] {V : Volume K} {P ε : Type} {disk : Disk V} {seams : FinalizationSeams}
  {hidden : Path → Bool} {root found relative : Path}

/-! ## Directories that may be pruned -/

/-- A directory below the root that the walk goes down to: neither it nor a directory between is hidden or reserved.
The tree spells the root `found`. -/
structure PrunableDirectory (hidden : Path → Bool) (disk : Disk V) (root found relative : Path) : Prop where
  below : relative ≠ []
  dir : disk.Has (found ++ relative) .dir
  staging : hasStagingComponent relative = false
  visible : ∀ above, above <+: relative → above ≠ [] → hidden (root ++ above) = false

/-- The tree spells such a directory so. -/
def PrunablePath (hidden : Path → Bool) (disk : Disk V) (root path : Path) : Prop :=
  ∃ found relative, disk.find root = some (found, .dir) ∧ path = found ++ relative ∧
    PrunableDirectory hidden disk root found relative

omit [DecidableEq K] in
theorem PrunableDirectory.above {q r : Path} {a : OsStr} (h : PrunableDirectory hidden disk root found (q ++ a :: r)) :
    PrunableDirectory hidden disk root found (q ++ [a]) := by
  have hprefix : q ++ [a] <+: q ++ a :: r := ⟨r, by simp⟩
  refine ⟨by simp, ?_, ?_, fun above habove => h.visible above (habove.trans hprefix)⟩
  · by_cases h0 : r = []
    · subst h0
      exact h.dir
    · have hdir := h.dir
      rw [List.append_cons, ← List.append_assoc] at hdir
      exact (hdir.above h0).resolve_left (by simp)
  · have hstaging := h.staging
    unfold hasStagingComponent at hstaging ⊢
    rw [List.append_cons, List.any_append, Bool.or_eq_false_iff] at hstaging
    exact hstaging.1

omit [DecidableEq K] in
/-- One directory further down. -/
theorem PrunableDirectory.concat {a : OsStr} (h : relative = [] ∨ PrunableDirectory hidden disk root found relative)
    (hdir : disk.Has (found ++ (relative ++ [a])) .dir) (hstaging : hasStagingComponent (relative ++ [a]) = false)
    (hvisible : hidden (root ++ (relative ++ [a])) = false) :
    PrunableDirectory hidden disk root found (relative ++ [a]) := by
  refine ⟨by simp, hdir, hstaging, fun above habove hne => ?_⟩
  rcases List.prefix_concat_iff.mp habove with rfl | habove
  · exact hvisible
  · rcases h with rfl | h
    · exact absurd (List.prefix_nil.mp habove) hne
    · exact h.visible above habove hne

/-! ## The walk -/

/-- The walk goes into what stands at a path. -/
def wanted (hidden : Path → Bool) (disk : Disk V) (root path : Path) : Bool :=
  decide (entryAt path disk = .ok .dir) && !(hidden path || hasStagingComponent ((relativeTo root path).getD path))

/-- What one entry adds to a walk. -/
def visited (hidden : Path → Bool) (disk : Disk V) (root directory : Path) (found : Found) (entry : OsStr) : Found :=
  if wanted hidden disk root (directory ++ [entry]) then
    ⟨found.directories ++ [directory ++ [entry]], (directory ++ [entry]) :: found.pending⟩
  else found

theorem computes_visitEntry (hnative : ∀ n, seams.native n = .ok ()) (hhidden : ∀ n path, seams.hidden n path = hidden path)
    (directory : Path) (walk : Found) (entry : OsStr) :
    Computes disk (visitEntry seams root directory walk entry : Prog (Site V P) (Thrown ε) _)
      (.done (visited hidden disk root directory walk entry)) := by
  refine (computes_result_done (computes_call hnative)).bind ((computes_inspectTree hnative _).bind ?_)
  unfold visited wanted
  cases entryAt (directory ++ [entry]) disk with
  | error detail => exact computes_pure walk
  | ok node =>
    cases node with
    | leaf value => exact computes_pure walk
    | dir =>
      refine computes_nextCall fun n => ?_
      rw [hhidden]
      cases hskip : hidden (directory ++ [entry]) || hasStagingComponent ((relativeTo root (directory ++ [entry])).getD
        (directory ++ [entry])) with
      | true => exact computes_pure walk
      | false => exact computes_pure _

/-- What the entries of a directory add, the last one to be read first. -/
theorem foldl_visited (directory : Path) (names : List OsStr) (walk : Found) :
    names.foldl (visited hidden disk root directory) walk =
      ⟨walk.directories ++ (names.filter fun a => wanted hidden disk root (directory ++ [a])).map (directory ++ [·]),
        ((names.filter fun a => wanted hidden disk root (directory ++ [a])).map (directory ++ [·])).reverse ++
          walk.pending⟩ := by
  induction names generalizing walk with
  | nil => simp
  | cons a names ih =>
    rw [List.foldl_cons, ih, List.filter_cons]
    unfold visited
    by_cases ha : wanted hidden disk root (directory ++ [a]) = true
    · rw [if_pos ha, if_pos ha]
      simp
    · rw [if_neg ha, if_neg ha]

/-- In a directory the walk reads, it goes into those that may be pruned. -/
theorem wanted_iff {a : OsStr} {n : Node Leaf} (hroot : disk.find root = some (found, .dir))
    (h : relative = [] ∨ PrunableDirectory hidden disk root found relative)
    (ha : disk.Has (found ++ (relative ++ [a])) n) :
    wanted hidden disk root (root ++ relative ++ [a]) = true ↔
      PrunableDirectory hidden disk root found (relative ++ [a]) := by
  have hrelative : relativeTo root (root ++ (relative ++ [a])) = some (relative ++ [a]) := relativeTo_eq_some.mpr rfl
  have hentry : entryAt (root ++ (relative ++ [a])) disk = .ok n := by
    rw [entryAt, find_below hroot, ha.find]
  unfold wanted
  rw [List.append_assoc, hrelative, hentry, Option.getD_some, Bool.and_eq_true, decide_eq_true_eq, Bool.not_eq_true',
    Bool.or_eq_false_iff]
  constructor
  · rintro ⟨hdir, hvisible, hstaging⟩
    cases hdir
    exact .concat h ha hstaging hvisible
  · intro hp
    exact ⟨by rw [ha.node_unique hp.dir], hp.visible _ List.prefix_rfl (by simp), hp.staging⟩

/-- **Reading a directory finds those in it that may be pruned.** -/
theorem computes_visitDirectory (hnative : ∀ n, seams.native n = .ok ())
    (hhidden : ∀ n path, seams.hidden n path = hidden path) (hroot : disk.find root = some (found, .dir))
    (h : relative = [] ∨ PrunableDirectory hidden disk root found relative) (seen rest : List Path) :
    ∃ names : List OsStr, names.Nodup ∧ (∀ a, a ∈ names ↔ PrunableDirectory hidden disk root found (relative ++ [a])) ∧
      Computes disk (visitDirectory seams root (root ++ relative) ⟨seen.map (root ++ ·), rest.map (root ++ ·)⟩ :
          Prog (Site V P) (Thrown ε) _)
        (.done ⟨(seen ++ names.map fun a => relative ++ [a]).map (root ++ ·),
          ((names.map fun a => relative ++ [a]).reverse ++ rest).map (root ++ ·)⟩) := by
  have hread : readDirectory (root ++ relative) disk = .ok ((disk.children (found ++ relative)).map Prod.fst) := by
    have hfind : disk.find (root ++ relative) = some (found ++ relative, .dir) := by
      rcases h with rfl | h
      · rw [List.append_nil, List.append_nil, hroot]
      · rw [find_below hroot, h.dir.find]
    rw [readDirectory, hfind]
  have hin : ∀ a, a ∈ (disk.children (found ++ relative)).map Prod.fst ↔
      ∃ n, disk.Has (found ++ (relative ++ [a])) n := by
    intro a
    rw [List.mem_map]
    constructor
    · rintro ⟨⟨_, n⟩, hn, rfl⟩
      exact ⟨n, by rw [← List.append_assoc]; exact PathTree.mem_children.mp hn⟩
    · rintro ⟨n, hn⟩
      exact ⟨(a, n), PathTree.mem_children.mpr (by rw [List.append_assoc]; exact hn), rfl⟩
  refine ⟨((disk.children (found ++ relative)).map Prod.fst).filter fun a =>
    wanted hidden disk root (root ++ relative ++ [a]), (PathTree.nodup_children disk _).filter _, fun a => ?_, ?_⟩
  · rw [List.mem_filter, hin]
    constructor
    · rintro ⟨⟨n, hn⟩, hwanted⟩
      exact (wanted_iff hroot h hn).mp hwanted
    · intro hp
      exact ⟨⟨.dir, hp.dir⟩, (wanted_iff hroot h hp.dir).mpr hp⟩
  · refine (computes_inspectTree hnative _).bind ?_
    rw [hread]
    have hloop := Computes.foldEach (P := P) (ε := Thrown ε) (f := visitEntry seams root (root ++ relative)) (g := visited hidden disk root (root ++ relative))
      (l := (disk.children (found ++ relative)).map Prod.fst)
      (fun walk entry _ => computes_visitEntry hnative hhidden (root ++ relative) walk entry)
      ⟨seen.map (root ++ ·), rest.map (root ++ ·)⟩
    rw [foldl_visited] at hloop
    simpa [Function.comp_def] using hloop

theorem computes_visitFrom (hnative : ∀ n, seams.native n = .ok ())
    (hhidden : ∀ n path, seams.hidden n path = hidden path) (hroot : disk.find root = some (found, .dir))
    {fuel : Nat} {seen pending : List Path}
    (h : PathTree.Surveyed (PrunableDirectory hidden disk root found) seen pending)
    (hpending : ∀ relative ∈ pending, PrunableDirectory hidden disk root found relative)
    (hfuel : disk.unread (pending.map (found ++ ·)) < fuel) :
    ∃ all, PathTree.Surveyed (PrunableDirectory hidden disk root found) all [] ∧
      Computes disk (visitFrom seams root fuel ⟨seen.map (root ++ ·), pending.map (root ++ ·)⟩ :
        Prog (Site V P) (Thrown ε) _) (.done (all.map (root ++ ·))) := by
  induction fuel generalizing seen pending with
  | zero => exact absurd hfuel (Nat.not_lt_zero _)
  | succ fuel ih =>
    cases pending with
    | nil => exact ⟨seen, h, computes_pure _⟩
    | cons relative rest =>
      have hrelative := hpending relative List.mem_cons_self
      obtain ⟨names, hnodup, hnames, hvisit⟩ := computes_visitDirectory (P := P) (ε := ε) hnative hhidden hroot
        (.inr hrelative) seen rest
      have hnext := h.step (fun _ _ _ => PrunableDirectory.above) hnodup hnames
      have hless : disk.unread (((names.map fun a => relative ++ [a]).reverse ++ rest).map (found ++ ·)) < fuel := by
        have hstep := PathTree.unread_step hrelative.dir (h.apart.append_left found) names.reverse
        refine lt_of_lt_of_le (lt_of_eq_of_lt ?_ hstep) (Nat.le_of_lt_succ hfuel)
        simp [List.map_reverse, Function.comp_def]
      have hbelow : ∀ q ∈ (names.map fun a => relative ++ [a]).reverse ++ rest,
          PrunableDirectory hidden disk root found q := by
        intro q hq
        rcases List.mem_append.mp hq with hq | hq
        · obtain ⟨a, ha, rfl⟩ := List.mem_map.mp (List.mem_reverse.mp hq)
          exact (hnames a).mp ha
        · exact hpending q (List.mem_cons_of_mem _ hq)
      obtain ⟨all, hall, hrest⟩ := ih hnext hbelow hless
      exact ⟨all, hall, hvisit.bind hrest⟩

/-- **The walk finds every directory that may be pruned, once.** -/
theorem computes_visitRoot (hnative : ∀ n, seams.native n = .ok ())
    (hhidden : ∀ n path, seams.hidden n path = hidden path) (hroot : disk.find root = some (found, .dir)) :
    ∃ all : List Path, all.Nodup ∧ (∀ r, r ∈ all ↔ PrunableDirectory hidden disk root found r) ∧
      Computes disk (visitFrom seams root (disk.entries.length + 2) ⟨[], [root]⟩ : Prog (Site V P) (Thrown ε) _)
        (.done (all.map (root ++ ·))) := by
  obtain ⟨names, hnodup, hnames, hvisit⟩ := computes_visitDirectory (P := P) (ε := ε) hnative hhidden hroot
    (.inl rfl) [] []
  have hfirst := (PathTree.surveyed_root fun h : PrunableDirectory hidden disk root found [] => h.below rfl).step
    (fun _ _ _ => PrunableDirectory.above) hnodup hnames
  have hbelow : ∀ q ∈ (names.map fun a => [] ++ [a]).reverse ++ [], PrunableDirectory hidden disk root found q := by
    intro q hq
    rw [List.append_nil] at hq
    obtain ⟨a, ha, rfl⟩ := List.mem_map.mp (List.mem_reverse.mp hq)
    exact (hnames a).mp ha
  obtain ⟨all, hall, hrest⟩ := computes_visitFrom (P := P) (ε := ε) hnative hhidden hroot hfirst hbelow
    (Nat.lt_succ_of_le (PathTree.unread_le _))
  refine ⟨all, hall.nodup, hall.done, ?_⟩
  rw [List.append_nil] at hvisit
  exact hvisit.bind hrest

/-! ## The removals -/

/-- A path is longer than that of the directory it is in. -/
theorem length_native_lt {directory : Path} (h : directory ≠ []) (a : OsStr) :
    (encodeWide (nativeText directory)).length < (encodeWide (nativeText (directory ++ [a]))).length := by
  rw [Pack.nativeText_concat h, encodeWide_append, encodeWide_cons, List.length_append, List.length_append]
  have hunit : (CodePoint.units (.char '\\')).length = 1 := by decide
  omega

/-- **A directory is tried before the one it is in.** -/
theorem precedes_parent {directories before after : List Path} {directory : Path} {a : OsStr}
    (hsorted : longestFirst directories = before ++ directory :: after) (h : directory ≠ [])
    (ha : directory ++ [a] ∈ directories) : directory ++ [a] ∈ before := by
  have hpairwise : (longestFirst directories).Pairwise fun p q =>
      (encodeWide (nativeText q)).length ≤ (encodeWide (nativeText p)).length := by
    have htotal : Std.Total fun p q : Path =>
        (encodeWide (nativeText q)).length ≤ (encodeWide (nativeText p)).length := ⟨fun p q => Nat.le_total _ _⟩
    have htrans : IsTrans Path fun p q => (encodeWide (nativeText q)).length ≤ (encodeWide (nativeText p)).length :=
      ⟨fun p q r hpq hqr => hqr.trans hpq⟩
    exact List.pairwise_insertionSort _ directories
  have hmem : directory ++ [a] ∈ longestFirst directories := (List.mem_insertionSort _).mpr ha
  rw [hsorted] at hmem hpairwise
  rcases List.mem_append.mp hmem with hmem | hmem
  · exact hmem
  · have hlonger := length_native_lt h a
    rcases List.mem_cons.mp hmem with heq | hmem
    · rw [heq] at hlonger
      exact absurd hlonger (lt_irrefl _)
    · have hle := (List.pairwise_cons.mp (List.pairwise_append.mp hpairwise).2.1).1 _ hmem
      exact absurd hlonger (Nat.not_lt.mpr hle)

/-- A removal that is not refused takes an empty directory, and counts it. -/
theorem spec_pruneDirectory (hnative : ∀ n, seams.native n = .ok ()) (pruned : Nat) (directory : Path) (s : Site V P) :
    Spec (pruneDirectory seams pruned directory : Prog (Site V P) (Thrown ε) _) s
      (fun pruned' s' =>
        (∃ disk', removeDirectory directory s.disk = .ok disk' ∧ s'.disk = disk' ∧ pruned' = pruned + 1) ∨
          (∃ detail, removeDirectory directory s.disk = .error detail) ∧ s'.disk = s.disk ∧ pruned' = pruned)
      (fun _ _ => False) fun _ => False := by
  have hcall : Computes s.disk (call seams.native : Prog (Site V P) (Thrown String) Unit) (.done ()) := computes_call hnative
  obtain ⟨n, hn⟩ := hcall s rfl
  have hrun : Spec (changeTree seams.toSeams [.pruned directory] (removeDirectory directory)) s
      (fun _ s' => removeDirectory directory s.disk = .ok s'.disk)
      (fun e s' => ∃ detail, e = .error detail ∧ removeDirectory directory s.disk = .error detail ∧ s'.disk = s.disk)
      fun _ => False := by
    refine spec_bind.mpr ?_
    unfold Spec
    rw [hn]
    show Spec _ { s with calls := n } _ _ _
    refine spec_bind.mpr (Prog.spec_get.mpr ?_)
    cases hremove : removeDirectory directory s.disk with
    | ok disk' => exact rfl
    | error detail => exact ⟨detail, rfl, rfl, rfl⟩
  refine spec_bind.mpr (spec_result (hrun.mono (fun _ s' h => .inl ⟨_, h, rfl, rfl⟩) (fun e s' h => ?_) fun _ h => h))
  obtain ⟨detail, rfl, hremove, hdisk⟩ := h
  exact ⟨fun d hd => .inr ⟨⟨detail, hremove⟩, hdisk, rfl⟩, fun m hm => nomatch hm⟩

theorem foldEach_map {σ ε α β γ : Type} (f : γ → β → Prog σ ε γ) (g : α → β) (l : List α) (c : γ) :
    Prog.foldEach f c (l.map g) = Prog.foldEach (fun c a => f c (g a)) c l := by
  induction l generalizing c with
  | nil => rfl
  | cons a l ih =>
    show f c (g a) >>= _ = f c (g a) >>= _
    exact congrArg _ (funext ih)

/-- What the removals did so far: of the directories tried, the hollow ones went. -/
structure Removed (disk : Disk V) (kind : Path → Prop) (tried : List Path) (pruned : Nat) (s : Site V P) : Prop where
  counted : ∃ removed : List Path, pruned = removed.length ∧ removed.Nodup ∧
    ∀ path, path ∈ removed ↔ path ∈ tried ∧ disk.Hollow kind path
  emptied : disk.Emptied kind tried s.disk

/-- **One removal.** -/
theorem Removed.step (hnative : ∀ n, seams.native n = .ok ()) {kind : Path → Prop} {tried : List Path}
    {pruned : Nat} {s : Site V P} (hroot : disk.find root = some (found, .dir))
    (hdir : ∀ p, kind p → disk.Has p .dir) (hkind : kind (found ++ relative))
    (hchildren : ∀ a, kind (found ++ relative ++ [a]) → found ++ relative ++ [a] ∈ tried)
    (hfresh : found ++ relative ∉ tried) (h : Removed disk kind tried pruned s) :
    Spec (pruneDirectory seams pruned (root ++ relative) : Prog (Site V P) (Thrown ε) _) s
      (fun pruned' s' => Removed disk kind (tried ++ [found ++ relative]) pruned' s') (fun _ _ => False)
      fun _ => False := by
  obtain ⟨removed, hcount, hnodup, hremoved⟩ := h.counted
  have hstands : s.disk.Has (found ++ relative) .dir :=
    (h.emptied _ _).mpr ⟨hdir _ hkind, fun hgone => hfresh hgone.1⟩
  have hfold : (root ++ relative).map V.fold = (found ++ relative).map V.fold := by
    rw [List.map_append, List.map_append, PathTree.fold_of_find hroot]
  have hfind : s.disk.find (root ++ relative) = some (found ++ relative, .dir) := by
    rw [PathTree.find_congr hfold, hstands.find]
  refine (spec_pruneDirectory hnative pruned (root ++ relative) s).mono (fun pruned' s' hpruned => ?_)
    (fun _ _ h => h) fun _ h => h
  rcases h.emptied.step hdir hkind hchildren with ⟨hollow, t', he, hemptied⟩ | ⟨hollow, he, hemptied⟩
  · have hremove : removeDirectory (root ++ relative) s.disk = .ok t' := by
      simp only [removeDirectory, hfind, he]
    rcases hpruned with ⟨t, ht, hs', rfl⟩ | ⟨⟨detail, ht⟩, -, -⟩
    · rw [hremove] at ht
      cases ht
      refine ⟨⟨removed ++ [found ++ relative], by simp [hcount], ?_, fun path => ?_⟩, hs' ▸ hemptied⟩
      · refine List.nodup_append.mpr ⟨hnodup, List.nodup_singleton _, ?_⟩
        rintro p hp q hq rfl
        rw [List.mem_singleton] at hq
        subst hq
        exact hfresh ((hremoved _).mp hp).1
      · rw [List.mem_append, List.mem_append, List.mem_singleton, hremoved]
        constructor
        · rintro (⟨hp, hp'⟩ | rfl)
          · exact ⟨.inl hp, hp'⟩
          · exact ⟨.inr rfl, hollow⟩
        · rintro ⟨hp | rfl, hp'⟩
          · exact .inl ⟨hp, hp'⟩
          · exact .inr rfl
    · rw [hremove] at ht
      cases ht
  · have hremove : removeDirectory (root ++ relative) s.disk = .error "The directory is not empty." := by
      simp only [removeDirectory, hfind, he]
    rcases hpruned with ⟨t, ht, -, -⟩ | ⟨-, hs', rfl⟩
    · rw [hremove] at ht
      cases ht
    · refine ⟨⟨removed, hcount, hnodup, fun path => ?_⟩, hs' ▸ hemptied⟩
      rw [hremoved, List.mem_append, List.mem_singleton]
      refine and_congr_left fun hp => ⟨.inl, fun hp' => hp'.resolve_right ?_⟩
      rintro rfl
      exact hollow hp

/-- What may be pruned where the root is. -/
theorem prunablePath_iff (hroot : disk.find root = some (found, .dir)) {path : Path} :
    PrunablePath hidden disk root path ↔
      ∃ relative, path = found ++ relative ∧ PrunableDirectory hidden disk root found relative := by
  constructor
  · rintro ⟨found', relative, hfound, hpath, h⟩
    rw [hroot] at hfound
    cases hfound
    exact ⟨relative, hpath, h⟩
  · rintro ⟨relative, hpath, h⟩
    exact ⟨found, relative, hroot, hpath, h⟩

/-- A directory below the root whose whole subtree is directories that may be pruned. -/
def EmptySkeleton (hidden : Path → Bool) (disk : Disk V) (root path : Path) : Prop :=
  PrunablePath hidden disk root path ∧
    ∀ below node, disk.Has (path ++ below) node → PrunablePath hidden disk root (path ++ below)

theorem spec_pruneAll (hnative : ∀ n, seams.native n = .ok ()) (hroot : disk.find root = some (found, .dir))
    {all : List Path} (hnodup : all.Nodup) (hall : ∀ r, r ∈ all ↔ PrunableDirectory hidden disk root found r)
    {s : Site V P} (hs : s.disk = disk) :
    Spec (Prog.foldEach (pruneDirectory seams) 0 (longestFirst (all.map (root ++ ·))) : Prog (Site V P) (Thrown ε) _) s
      (fun pruned s' => Removed disk (PrunablePath hidden disk root) (all.map (found ++ ·)) pruned s')
      (fun _ _ => False) fun _ => False := by
  have hperm : (longestFirst (all.map (root ++ ·))).Perm (all.map (root ++ ·)) := List.perm_insertionSort _ _
  obtain ⟨sorted, hsorted⟩ : ∃ sorted : List Path, longestFirst (all.map (root ++ ·)) = sorted.map (root ++ ·) := by
    refine ⟨(longestFirst (all.map (root ++ ·))).map (List.drop root.length), ?_⟩
    rw [List.map_map]
    refine (List.map_id _).symm.trans (List.map_congr_left fun path hpath => ?_)
    obtain ⟨r, -, rfl⟩ := List.mem_map.mp (hperm.mem_iff.mp hpath)
    simp
  have hinj : Function.Injective (root ++ · : Path → Path) := fun p q h => List.append_cancel_left h
  have hinj' : Function.Injective (found ++ · : Path → Path) := fun p q h => List.append_cancel_left h
  have hsame : sorted.Perm all := (List.map_perm_map_iff hinj).mp (hsorted ▸ hperm)
  have hdir : ∀ p, PrunablePath hidden disk root p → disk.Has p .dir := by
    rintro p ⟨found', relative, -, rfl, h⟩
    exact h.dir
  rw [hsorted, foldEach_map]
  have hloop := Spec.foldEach (C := fun _ => False) (E := fun _ _ => False)
    (f := fun pruned r => (pruneDirectory seams pruned (root ++ r) : Prog (Site V P) (Thrown ε) _))
    (I := fun before after pruned s' => before ++ after = sorted ∧
      Removed disk (PrunablePath hidden disk root) (before.map (found ++ ·)) pruned s')
    (fun before r after pruned s' h => ?_) [] sorted (c := 0) (s := s) ⟨rfl, ⟨[], rfl, List.nodup_nil, by simp⟩, ?_⟩
  · refine hloop.mono (fun pruned s' h => ?_) (fun _ _ h => h) fun _ h => h
    have hmem : ∀ path, path ∈ sorted.map (found ++ ·) ↔ path ∈ all.map (found ++ ·) :=
      fun path => (hsame.map _).mem_iff
    obtain ⟨⟨removed, hcount, hremoved, hiff⟩, hemptied⟩ := h.2
    refine ⟨⟨removed, hcount, hremoved, fun path => ?_⟩, fun q n => ?_⟩
    · rw [hiff, List.nil_append, hmem]
    · rw [hemptied, List.nil_append, hmem]
  · obtain ⟨hsplit, hremoved⟩ := h
    have hr : PrunableDirectory hidden disk root found r :=
      (hall r).mp (hsame.mem_iff.mp (by rw [← hsplit]; simp))
    have hsortedNodup : sorted.Nodup := hsame.nodup_iff.mpr hnodup
    refine (hremoved.step hnative hroot hdir ((prunablePath_iff hroot).mpr ⟨r, rfl, hr⟩) (fun a ha => ?_) ?_).mono
      (fun pruned' s'' h => ⟨by rw [← hsplit]; simp, by simpa using h⟩) (fun _ _ h => h) fun _ h => h
    · obtain ⟨relative, hrelative, ha⟩ := (prunablePath_iff hroot).mp ha
      rw [List.append_assoc, List.append_cancel_left_eq] at hrelative
      subst hrelative
      have hparts : longestFirst (all.map (root ++ ·)) =
          before.map (root ++ ·) ++ (root ++ r) :: after.map (root ++ ·) := by
        rw [hsorted, ← hsplit, List.map_append, List.map_cons]
      have hmem := precedes_parent hparts (fun h => hr.below (List.append_eq_nil_iff.mp h).2)
        (a := a) (by rw [List.append_assoc]; exact List.mem_map_of_mem ((hall _).mpr ha))
      rw [List.append_assoc] at hmem ⊢
      obtain ⟨q, hq, heq⟩ := List.mem_map.mp hmem
      exact List.mem_map.mpr ⟨q, hq, congrArg _ (hinj heq)⟩
    · intro hmem
      obtain ⟨q, hq, heq⟩ := List.mem_map.mp hmem
      have hqr : q = r := hinj' heq
      subst hqr
      rw [← hsplit] at hsortedNodup
      exact (List.nodup_append.mp hsortedNodup).2.2 q hq q List.mem_cons_self rfl
  · rw [hs]
    exact PathTree.Emptied.refl disk _

/-- **Pruning removes exactly the empty skeletons.** -/
theorem deleteEmptyDirectories_exact (hnative : ∀ n, seams.native n = .ok ())
    (hhidden : ∀ n path, seams.hidden n path = hidden path) (root : Path) (s : Site V P) :
    ∃ (removed : List Path) (s' : Site V P),
      (deleteEmptyDirectories seams root : Prog (Site V P) (Thrown ε) _) s = (.done removed.length, s') ∧
      removed.Nodup ∧ (∀ path, path ∈ removed ↔ EmptySkeleton hidden s.disk root path) ∧
      (∀ path node, s'.disk.Has path node ↔ s.disk.Has path node ∧ path ∉ removed) ∧
      ∀ path node above node', s.disk.Has path node → ¬PrunablePath hidden s.disk root path → above <+: path →
        s.disk.Has above node' → s'.disk.Has above node' := by
  -- What is below what stays, stays.
  have hkeeps : ∀ {removed : List Path} {s' : Site V P},
      (∀ path, path ∈ removed ↔ EmptySkeleton hidden s.disk root path) →
      (∀ path node, s'.disk.Has path node ↔ s.disk.Has path node ∧ path ∉ removed) →
      ∀ path node above node', s.disk.Has path node → ¬PrunablePath hidden s.disk root path → above <+: path →
        s.disk.Has above node' → s'.disk.Has above node' := by
    rintro removed s' hremoved hhas _ node above node' hnode hstays ⟨below, rfl⟩ habove
    exact (hhas above node').mpr ⟨habove, fun hgone => hstays (((hremoved above).mp hgone).2 below node hnode)⟩
  have hroot : (∃ found, s.disk.find root = some (found, .dir)) ∨ ∀ found, s.disk.find root ≠ some (found, .dir) := by
    by_cases h : ∃ found, s.disk.find root = some (found, .dir)
    · exact .inl h
    · exact .inr fun found hfound => h ⟨found, hfound⟩
  rcases hroot with ⟨found, hroot⟩ | hroot
  · obtain ⟨all, hnodup, hall, hwalk⟩ := computes_visitRoot (P := P) (ε := ε) hnative hhidden hroot
    obtain ⟨n, hn⟩ := hwalk s rfl
    have hprune := spec_pruneAll (P := P) (ε := ε) hnative hroot hnodup hall (s := { s with calls := n }) rfl
    have hrun : (deleteEmptyDirectories seams root : Prog (Site V P) (Thrown ε) _) s =
        Prog.foldEach (pruneDirectory seams) 0 (longestFirst (all.map (root ++ ·))) { s with calls := n } := by
      show Prog.andThen (visitFrom seams root (s.disk.entries.length + 2) ⟨[], [root]⟩) _ s = _
      unfold Prog.andThen
      rw [hn]
    obtain ⟨pruned, s', hdone, hremoved⟩ := hprune.returns
    obtain ⟨⟨removed, rfl, hdistinct, hiff⟩, hemptied⟩ := hremoved
    have hskeleton : ∀ path, path ∈ removed ↔ EmptySkeleton hidden s.disk root path := by
      intro path
      rw [hiff]
      constructor
      · rintro ⟨hpath, hollow⟩
        obtain ⟨r, hr, rfl⟩ := List.mem_map.mp hpath
        exact ⟨(prunablePath_iff hroot).mpr ⟨r, rfl, (hall r).mp hr⟩, hollow.2⟩
      · rintro ⟨hpath, hbelow⟩
        obtain ⟨r, rfl, hr⟩ := (prunablePath_iff hroot).mp hpath
        exact ⟨List.mem_map_of_mem ((hall r).mpr hr), hr.dir, hbelow⟩
    have hhas : ∀ path node, s'.disk.Has path node ↔ s.disk.Has path node ∧ path ∉ removed := by
      intro path node
      rw [hemptied, hiff]
    exact ⟨removed, s', hrun.trans hdone, hdistinct, hskeleton, hhas, hkeeps hskeleton hhas⟩
  · -- No directory stands at the root: nothing is read, and nothing is below it.
    have hread : ∃ detail, readDirectory root s.disk = .error detail := by
      unfold readDirectory
      split
      · next q hq => exact absurd hq (hroot q)
      · exact ⟨_, rfl⟩
    obtain ⟨detail, hread⟩ := hread
    have hvisit : Computes s.disk (visitDirectory seams root root ⟨[], []⟩ : Prog (Site V P) (Thrown ε) _)
        (.done ⟨[], []⟩) := by
      refine (computes_inspectTree hnative _).bind ?_
      rw [hread]
      exact computes_pure _
    have hwalk : Computes s.disk (visitFrom seams root (s.disk.entries.length + 2) ⟨[], [root]⟩ :
        Prog (Site V P) (Thrown ε) _) (.done []) := hvisit.bind (computes_pure _)
    obtain ⟨n, hn⟩ := hwalk s rfl
    have hnone : ∀ path, path ∈ ([] : List Path) ↔ EmptySkeleton hidden s.disk root path := by
      intro path
      refine iff_of_false List.not_mem_nil ?_
      rintro ⟨⟨found, -, hfound, -⟩, -⟩
      exact hroot found hfound
    have hhas : ∀ path node, s.disk.Has path node ↔ s.disk.Has path node ∧ path ∉ ([] : List Path) := by simp
    refine ⟨[], { s with calls := n }, ?_, List.nodup_nil, hnone, hhas, hkeeps hnone hhas⟩
    show Prog.andThen (visitFrom seams root (s.disk.entries.length + 2) ⟨[], [root]⟩) _ s = _
    unfold Prog.andThen
    rw [hn]
    rfl

/-- A Mod Root with a file in one directory, and a directory with nothing but another in it. -/
def skeletonDisk : Disk asciiVolume where
  entries := [(["m".toList].map OsStr.ofText, .dir), (["m".toList, "a".toList].map OsStr.ofText, .dir),
    (["m".toList, "a".toList, "b".toList].map OsStr.ofText, .dir),
    (["m".toList, "c".toList].map OsStr.ofText, .dir),
    (["m".toList, "c".toList, "f".toList].map OsStr.ofText, .leaf (.file [1] 1))]
  rooted := by decide
  named := by decide
  distinct := by decide
  closed := by decide

/-- Nothing is refused, and nothing is hidden. -/
def allowing : FinalizationSeams where
  listEntries _ _ := .ok []
  extractEntry _ _ _ := .ok []
  release _ := none
  pack _ := .ok []
  recheck _ _ _ := none
  native _ := .ok ()
  stamp _ := 0
  stage _ := .ok ()
  publish _ := .released
  follow _ _ := none
  hidden _ _ := false
  cancelled _ := false
  check _ _ := none
  evidence _ := .ok ()

theorem deleteEmptyDirectories_exact_sample : ∃ (removed : List Path) (s' : Site asciiVolume Unit),
    (deleteEmptyDirectories allowing (["m".toList].map OsStr.ofText) : Prog (Site asciiVolume Unit) (Thrown Empty) _)
      ⟨skeletonDisk, [], (), 0, []⟩ = (.done removed.length, s') ∧ removed.Nodup ∧
    (∀ path, path ∈ removed ↔ EmptySkeleton (fun _ => false) skeletonDisk (["m".toList].map OsStr.ofText) path) ∧
    ∀ path node, s'.disk.Has path node ↔ skeletonDisk.Has path node ∧ path ∉ removed := by
  obtain ⟨removed, s', hrun, hnodup, hremoved, hhas, -⟩ := deleteEmptyDirectories_exact (ε := Empty)
    (show ∀ n, allowing.native n = .ok () from fun _ => rfl) (show ∀ n path, allowing.hidden n path = false from
      fun _ _ => rfl) (["m".toList].map OsStr.ofText) ⟨skeletonDisk, [], (), 0, []⟩
  exact ⟨removed, s', hrun, hnodup, hremoved, hhas⟩

end Cao.Finalize
