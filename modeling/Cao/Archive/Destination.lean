import Cao.Archive.Extract

/-!
# Merge destinations

What `prepare_merge_target` finds and makes on the way to a destination.

* **`matchingChild_eq`**: the entries of a directory whose names compare equal decide the match;
* `Above`, `Grown`: the directories above a destination, and a tree that gained only such;
* **`spec_prepareMergeTarget`**: nothing but missing parents is created, and the target found is the
  destination in another casing.
-/

namespace Cao

open Prog (Along Spec spec_bind)

variable {table : UpcaseTable}

/-! ## The match in a directory -/

/-- A name that compares equal. -/
def sameName (table : UpcaseTable) (name entry : OsStr) : Bool :=
  (compareOrdinalIgnoreCase table entry name).isEq

theorem sameName_iff {name entry : OsStr} :
    sameName table name entry = true ↔ ordinalKey table entry = ordinalKey table name :=
  compareOrdinalIgnoreCase_isEq

/-- After a match, every other entry must differ. -/
theorem foldlM_matchEntry_some {directory p : Path} {name : OsStr} (names : List OsStr) :
    (names.map Except.ok).foldlM (matchEntry table directory name) (some p) =
      if names.filter (sameName table name) = [] then .ok (some p) else .error ambiguousCasing := by
  induction names with
  | nil => rfl
  | cons a names ih =>
    rw [List.map_cons, List.foldlM_cons]
    by_cases h : sameName table name a = true
    · have hstep : matchEntry table directory name (some p) (.ok a) = .error ambiguousCasing := by
        unfold sameName at h
        simp [matchEntry, h]
      rw [hstep, List.filter_cons_of_pos h]
      rfl
    · have hstep : matchEntry table directory name (some p) (.ok a) = .ok (some p) := by
        unfold sameName at h
        simp [matchEntry, h]
      rw [hstep, List.filter_cons_of_neg h]
      exact ih

theorem foldlM_matchEntry_none {directory : Path} {name : OsStr} (names : List OsStr) :
    (names.map Except.ok).foldlM (matchEntry table directory name) none =
      match names.filter (sameName table name) with
      | [] => .ok none
      | [a] => .ok (some (directory ++ [a]))
      | _ => .error ambiguousCasing := by
  induction names with
  | nil => rfl
  | cons a names ih =>
    rw [List.map_cons, List.foldlM_cons]
    by_cases h : sameName table name a = true
    · have hstep : matchEntry table directory name none (.ok a) = .ok (some (directory ++ [a])) := by
        unfold sameName at h
        simp [matchEntry, h]
      rw [hstep, List.filter_cons_of_pos h]
      refine (foldlM_matchEntry_some names).trans ?_
      cases names.filter (sameName table name) <;> rfl
    · have hstep : matchEntry table directory name none (.ok a) = .ok none := by
        unfold sameName at h
        simp [matchEntry, h]
      rw [hstep, List.filter_cons_of_neg h]
      exact ih

/-- **The entries whose names compare equal decide the match.** -/
theorem matchingChild_eq {view : FileView} {directory : Path} {name : OsStr} {names : List OsStr}
    (h : view.readDir directory = .ok (names.map .ok)) : matchingChild view table directory name =
      match names.filter (sameName table name) with
      | [] => .ok none
      | [a] => .ok (some (directory ++ [a]))
      | _ => .error ambiguousCasing := by
  unfold matchingChild
  rw [h]
  exact foldlM_matchEntry_none names

/-! ## The match in a tree -/

variable {K : Type} [DecidableEq K] {V : Volume K} {disk : Disk V}

/-- The names in a directory of the tree. -/
def childNames (disk : Disk V) (directory : Path) : List OsStr := (disk.children directory).map Prod.fst

omit [DecidableEq K] in
theorem mem_childNames {directory : Path} {a : OsStr} :
    a ∈ childNames disk directory ↔ ∃ n, disk.Has (directory ++ [a]) n := by
  simp only [childNames, List.mem_map, Prod.exists, exists_and_right, exists_eq_right]
  exact exists_congr fun n => PathTree.mem_children

/-- A directory stands at exactly this path. -/
theorem find_of_isDir {directory : Path} (h : disk.IsDir directory) :
    disk.find directory = some (directory, .dir) := by
  rcases h with rfl | h
  · rfl
  · exact h.find

theorem readDir_treeView {directory : Path} (h : disk.IsDir directory) :
    (treeView disk).readDir directory = .ok ((childNames disk directory).map .ok) := by
  simp [treeView, find_of_isDir h, childNames]

/-- What a match in a directory of the tree tells. -/
theorem matchingChild_tree {directory : Path} {name : OsStr} {found : Option Path}
    (hd : disk.IsDir directory) (h : matchingChild (treeView disk) table directory name = .ok found) :
    (∃ a n, found = some (directory ++ [a]) ∧ disk.Has (directory ++ [a]) n ∧
        ordinalKey table a = ordinalKey table name) ∨
      found = none ∧ ∀ a n, disk.Has (directory ++ [a]) n → ordinalKey table a ≠ ordinalKey table name := by
  rw [matchingChild_eq (readDir_treeView hd)] at h
  split at h
  · next hf =>
    cases h
    refine .inr ⟨rfl, fun a n ha hk => ?_⟩
    have : a ∈ (childNames disk directory).filter (sameName table name) :=
      List.mem_filter.mpr ⟨mem_childNames.mpr ⟨n, ha⟩, sameName_iff.mpr hk⟩
    rw [hf] at this
    cases this
  · next a hf =>
    cases h
    have ha : a ∈ (childNames disk directory).filter (sameName table name) := by rw [hf]; simp
    obtain ⟨hm, hk⟩ := List.mem_filter.mp ha
    obtain ⟨n, hn⟩ := mem_childNames.mp hm
    exact .inl ⟨a, n, rfl, hn, sameName_iff.mp hk⟩
  · cases h

/-- A directory that can be listed and stands exactly there, or nothing is matched in it. -/
theorem isDir_of_matchingChild {directory : Path} {name : OsStr} {found : Option Path} {n : Node Leaf}
    (hd : disk.find directory = some (directory, n))
    (h : matchingChild (treeView disk) table directory name = .ok found) : disk.IsDir directory := by
  cases n with
  | dir => exact PathTree.isDir_of_find hd
  | leaf b => simp [matchingChild, treeView, hd] at h

/-! ## What a destination needs -/

/-- A directory above a destination, in any casing. -/
def Above (table : UpcaseTable) (destination p : Path) : Prop :=
  p.map (ordinalKey table) <+: destination.map (ordinalKey table) ∧ p.length < destination.length

/-- A tree that gained directories in `made` only. -/
structure Grown (made : Path → Prop) (disk disk' : Disk V) : Prop where
  kept : ∀ p n, disk.Has p n → disk'.Has p n
  fresh : ∀ p n, disk'.Has p n → disk.Has p n ∨ n = .dir ∧ made p

variable {made made' : Path → Prop} {disk' disk'' : Disk V}

omit [DecidableEq K] in
theorem Grown.refl (disk : Disk V) : Grown made disk disk := ⟨fun _ _ h => h, fun _ _ h => .inl h⟩

omit [DecidableEq K] in
theorem Grown.trans (h : Grown made disk disk') (h' : Grown made disk' disk'') : Grown made disk disk'' where
  kept p n hp := h'.kept p n (h.kept p n hp)
  fresh p n hp := (h'.fresh p n hp).elim (h.fresh p n) .inr

omit [DecidableEq K] in
theorem Grown.mono (h : Grown made disk disk') (hm : ∀ p, made p → made' p) : Grown made' disk disk' where
  kept := h.kept
  fresh p n hp := (h.fresh p n hp).imp_right fun h => ⟨h.1, hm p h.2⟩

omit [DecidableEq K] in
/-- **No file is gained, lost or changed.** -/
theorem Grown.leaf_iff (h : Grown made disk disk') {p : Path} {b : Leaf} :
    disk'.Has p (.leaf b) ↔ disk.Has p (.leaf b) :=
  ⟨fun hp => (h.fresh p _ hp).resolve_right (by simp), h.kept p _⟩

/-- Creating a directory in one that stands exactly there. -/
theorem grown_makeDirectory {directory : Path} {a : OsStr} (hd : disk.IsDir directory)
    (h : makeDirectory (directory ++ [a]) disk = .ok disk') (hm : made (directory ++ [a])) :
    Grown made disk disk' ∧ disk'.Has (directory ++ [a]) .dir := by
  unfold makeDirectory createEntry at h
  cases hc : disk.create (directory ++ [a]) .dir with
  | none => simp [hc] at h
  | some e =>
    obtain ⟨q, d⟩ := e
    simp only [hc] at h
    cases h
    obtain ⟨hiff, hq0, -, -, -, p, hp, hqp, hql⟩ := PathTree.create_eq_some hc
    rw [List.dropLast_concat, find_of_isDir hd, Option.some.injEq, Prod.mk.injEq] at hp
    have hq : q = directory ++ [a] := by
      rw [← List.dropLast_append_getLast hq0, hqp, ← hp.1]
      rw [List.getLast?_eq_some_getLast hq0, List.getLast?_concat, Option.some.injEq] at hql
      rw [hql]
    subst hq
    refine ⟨⟨fun p n hp => (hiff p n).mpr (.inl hp), fun p n hp => ?_⟩, (hiff _ _).mpr (.inr ⟨rfl, rfl⟩)⟩
    rcases (hiff p n).mp hp with hp | ⟨rfl, rfl⟩
    · exact .inl hp
    · exact .inr ⟨rfl, hm⟩

/-! ## Preparing a destination -/

/-- The tree gained directories in `made`, and nothing else of an attempt moved. -/
structure Prepared {P : Type} (made : Path → Prop) (s s' : Site V P) : Prop where
  disk : Grown made s.disk s'.disk
  staged : s'.staged = s.staged
  progress : s'.progress = s.progress
  log : s'.log = s.log

variable {P : Type} {s s' s'' : Site V P}

omit [DecidableEq K] in
theorem Prepared.refl (s : Site V P) : Prepared made s s := ⟨.refl _, rfl, rfl, rfl⟩

omit [DecidableEq K] in
theorem Prepared.trans (h : Prepared made s s') (h' : Prepared made s' s'') : Prepared made s s'' :=
  ⟨h.disk.trans h'.disk, h'.staged.trans h.staged, h'.progress.trans h.progress, h'.log.trans h.log⟩

omit [DecidableEq K] in
theorem Idle.prepared (h : Idle s s') : Prepared made s s' := by
  rw [h]
  exact ⟨.refl _, rfl, rfl, rfl⟩

variable {seams : Seams} {root destination : Path} {site : Site V ExtractionProgress}

theorem along_pinMergeParent (path : Path) :
    Along Idle (pinMergeParent seams path : Prog (Site V ExtractionProgress) _ Unit) fun _ => True := by
  refine (along_inspectTree _).bind fun node _ => (along_call _).bind fun _ _ => ?_
  cases node with
  | dir => exact Prog.along_pure trivial
  | leaf b => exact Prog.along_fail

/-- From a directory that stands exactly there, the rest of a destination. -/
theorem spec_prepareParts (current parts : Path) {s : Site V ExtractionProgress} {n : Node Leaf}
    (hc : s.disk.find current = some (current, n))
    (hk : (current ++ parts).map (ordinalKey table) = destination.map (ordinalKey table)) :
    Spec (prepareParts seams table current parts) s
      (fun target s' => Prepared (Above table destination) s s' ∧
        target.map (ordinalKey table) = destination.map (ordinalKey table))
      (fun _ s' => Prepared (Above table destination) s s') fun _ => False := by
  induction parts generalizing current n s with
  | nil => exact ⟨.refl s, by simpa using hk⟩
  | cons part parts ih =>
    refine spec_bind.mpr (spec_inspectTree.mono (fun found s₁ h₁ => ?_) (fun _ _ h => h.prepared) fun _ h => h)
    obtain ⟨h₁, hfound⟩ := h₁
    have hd : s.disk.IsDir current := isDir_of_matchingChild hc hfound
    have hd₁ : s₁.disk.IsDir current := h₁.disk ▸ hd
    have hp₁ : Prepared (Above table destination) s s₁ := h₁.prepared
    -- The name it goes on with, found or not, compares equal to the part asked for.
    obtain ⟨a, ha, hka⟩ : ∃ a, found.getD (current ++ [part]) = current ++ [a] ∧
        ordinalKey table a = ordinalKey table part := by
      rcases matchingChild_tree hd hfound with ⟨a, n, rfl, -, hka⟩ | ⟨rfl, -⟩
      · exact ⟨a, rfl, hka⟩
      · exact ⟨part, rfl, rfl⟩
    have hk' : ((current ++ [a]) ++ parts).map (ordinalKey table) = destination.map (ordinalKey table) := by
      rw [← hk]
      simp [hka]
    simp only [ha]
    by_cases hlast : parts = []
    · subst hlast
      rw [if_pos rfl]
      split_ifs
      · exact hp₁
      · exact ⟨hp₁, by simpa using hk'⟩
    rw [if_neg hlast]
    -- From a parent that stands exactly there the loop goes on.
    have hrest : ∀ s₂ : Site V ExtractionProgress, Prepared (Above table destination) s s₂ →
        (∃ n, s₂.disk.find (current ++ [a]) = some (current ++ [a], n)) →
        Spec (do
          let metadata ← inspectTree seams fun disk => (treeView disk).symlinkMetadata (current ++ [a])
          if (!metadata.isDir || metadata.isSymlink || metadata.isReparsePoint) = true then
            failWith "Archive destination parent is not an ordinary directory."
          else do
            pinMergeParent seams (current ++ [a])
            prepareParts seams table (current ++ [a]) parts) s₂
          (fun target s' => Prepared (Above table destination) s s' ∧
            target.map (ordinalKey table) = destination.map (ordinalKey table))
          (fun _ s' => Prepared (Above table destination) s s') fun _ => False := by
      rintro s₂ hp₂ ⟨m, hm⟩
      refine spec_bind.mpr (spec_inspectTree.mono (fun metadata s₃ h₃ => ?_)
        (fun _ _ h => hp₂.trans h.prepared) fun _ h => h)
      obtain ⟨h₃, -⟩ := h₃
      have hp₃ := hp₂.trans h₃.prepared
      split_ifs
      · exact hp₃
      · refine spec_bind.mpr ((along_pinMergeParent _ s₃).mono (fun _ s₄ h₄ => ?_)
          (fun _ _ h => hp₃.trans h.prepared) fun _ h => h)
        have hp₄ := hp₃.trans h₄.1.prepared
        have hm₄ : s₄.disk.find (current ++ [a]) = some (current ++ [a], m) := by
          rw [h₄.1.disk, h₃.disk, hm]
        exact (ih _ hm₄ hk').mono (fun _ _ h => ⟨hp₄.trans h.1, h.2⟩) (fun _ _ h => hp₄.trans h) fun _ h => h
    rcases matchingChild_tree hd hfound with ⟨b, m, rfl, hm, -⟩ | ⟨rfl, -⟩
    · obtain rfl : b = a := by simpa using ha
      have hfind : s₁.disk.find (current ++ [b]) = some (current ++ [b], m) := h₁.disk ▸ hm.find
      exact hrest s₁ hp₁ ⟨m, hfind⟩
    · refine spec_bind.mpr (spec_changeTree.mono (fun _ s₂ h₂ => ?_) (fun _ _ h => hp₁.trans h.prepared)
        fun _ h => h)
      obtain ⟨hdisk, hstaged, hprogress, hlog⟩ := h₂
      have hmade : Above table destination (current ++ [a]) := by
        have hl := congrArg List.length hk'
        have hpos := List.length_pos_of_ne_nil hlast
        simp only [List.length_map, List.length_append, List.length_singleton] at hl
        refine ⟨?_, by simp; omega⟩
        rw [← hk']
        exact (List.prefix_append (current ++ [a]) parts).map _
      obtain ⟨hgrown, hhas⟩ := grown_makeDirectory hd₁ hdisk hmade
      exact hrest s₂ (hp₁.trans ⟨hgrown, hstaged, hprogress, by simpa using hlog⟩) ⟨_, hhas.find⟩

/-- **A destination is prepared by creating missing parents only.** -/
theorem spec_prepareMergeTarget {s : Site V ExtractionProgress} {n : Node Leaf}
    (hr : s.disk.find root = some (root, n)) :
    Spec (prepareMergeTarget seams table root destination) s
      (fun target s' => Prepared (Above table destination) s s' ∧
        target.map (ordinalKey table) = destination.map (ordinalKey table))
      (fun _ s' => Prepared (Above table destination) s s') fun _ => False := by
  unfold prepareMergeTarget
  cases hp : containedParts root destination with
  | none => exact Prepared.refl s
  | some parts =>
    obtain ⟨rfl, -, -⟩ := containedParts_eq_some.mp hp
    exact spec_prepareParts root parts hr rfl

end Cao
