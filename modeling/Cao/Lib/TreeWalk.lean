import Cao.Lib.PathTree

/-!
# Walks of a tree

A walk reads a directory at a time from a list of those still to read, and adds the directories it finds there.
No directory to read is below another, so each is read once: what is still unread bounds the walk.

* `Apart`, **`Apart.step`**: the directories to read, none below another;
* `unread`, **`unread_step`**: what is at or below them, which every directory read makes less;
* `Surveyed`, **`Surveyed.step`**, `Surveyed.done`: a walk finds every directory of a kind, each once;
* `Hollow`, `Emptied`, **`Emptied.step`**: the removal of directories, those in one before it.
-/

namespace PathTree

variable {N K β : Type} {naming : Naming N K} {t : PathTree naming β}

/-! ## Directories apart -/

/-- No path is another, or below another. -/
def Apart (paths : List (List N)) : Prop := paths.Pairwise fun p q => ¬p <+: q ∧ ¬q <+: p

theorem apart_singleton (p : List N) : Apart [p] := List.pairwise_singleton _ p

/-- **A directory makes way for directories in it.** -/
theorem Apart.step {p : List N} {paths : List (List N)} {names : List N} (h : Apart (p :: paths)) (hn : names.Nodup) :
    Apart (names.map (fun a => p ++ [a]) ++ paths) := by
  obtain ⟨hp, hrest⟩ := List.pairwise_cons.mp h
  refine List.pairwise_append.mpr ⟨?_, hrest, ?_⟩
  · refine List.pairwise_map.mpr (hn.imp fun {a b} hab => ?_)
    have hsame : ∀ a b, p ++ [a] <+: p ++ [b] → a = b := fun a b h => by
      rw [List.prefix_append_right_inj] at h
      exact (List.cons_prefix_cons.mp h).1
    exact ⟨fun h => hab (hsame a b h), fun h => hab (hsame b a h).symm⟩
  · intro q hq r hr
    obtain ⟨a, -, rfl⟩ := List.mem_map.mp hq
    have hapart := hp r hr
    refine ⟨fun h => hapart.1 ((List.prefix_append p [a]).trans h), fun h => ?_⟩
    rcases List.prefix_concat_iff.mp h with rfl | h
    · exact hapart.1 (List.prefix_append p [a])
    · exact hapart.2 h

/-! ## What is unread -/

variable [DecidableEq N]

/-- At or below one of some paths. -/
def underAny (paths : List (List N)) (p : List N) : Bool := paths.any fun q => q.isPrefixOf p

theorem underAny_iff {paths : List (List N)} {p : List N} : underAny paths p = true ↔ ∃ q ∈ paths, q <+: p := by
  simp [underAny]

/-- The entries at or below the directories still to read. -/
def unread (t : PathTree naming β) (pending : List (List N)) : Nat := t.entries.countP fun e => underAny pending e.1

theorem unread_le (pending : List (List N)) : t.unread pending ≤ t.entries.length := List.countP_le_length

/-- Fewer of two conditions, the second met by one entry more. -/
theorem countP_lt_countP {α : Type} {p q : α → Bool} {l : List α} {a : α} (h : ∀ b ∈ l, p b = true → q b = true)
    (ha : a ∈ l) (hp : p a = false) (hq : q a = true) : l.countP p < l.countP q := by
  obtain ⟨before, after, rfl⟩ := List.append_of_mem ha
  have hbefore : before.countP p ≤ before.countP q :=
    List.countP_mono_left fun b hb => h b (List.mem_append_left _ hb)
  have hafter : after.countP p ≤ after.countP q :=
    List.countP_mono_left fun b hb => h b (List.mem_append_right _ (List.mem_cons_of_mem _ hb))
  simp only [List.countP_append, List.countP_cons, hp, hq]
  simp only [Bool.false_eq_true, if_false, if_true]
  omega

/-- What is below the directories found in `p`, and below the others, is below `p` or the others. -/
theorem underAny_step {p q : List N} {paths : List (List N)} {names : List N}
    (h : underAny (names.map (fun a => p ++ [a]) ++ paths) q = true) : underAny (p :: paths) q = true := by
  obtain ⟨r, hr, hq⟩ := underAny_iff.mp h
  rcases List.mem_append.mp hr with hr | hr
  · obtain ⟨a, -, rfl⟩ := List.mem_map.mp hr
    exact underAny_iff.mpr ⟨p, List.mem_cons_self, (List.prefix_append p [a]).trans hq⟩
  · exact underAny_iff.mpr ⟨r, List.mem_cons_of_mem _ hr, hq⟩

/-- **Reading a directory leaves less unread.** -/
theorem unread_step {p : List N} {n : Node β} {paths : List (List N)} (hp : t.Has p n) (h : Apart (p :: paths))
    (names : List N) : t.unread (names.map (fun a => p ++ [a]) ++ paths) < t.unread (p :: paths) := by
  refine countP_lt_countP (fun e _ he => underAny_step he) hp ?_ (underAny_iff.mpr ⟨p, List.mem_cons_self, List.prefix_rfl⟩)
  rw [Bool.eq_false_iff]
  intro hunder
  obtain ⟨q, hq, hqp⟩ := underAny_iff.mp hunder
  rcases List.mem_append.mp hq with hq | hq
  · obtain ⟨a, -, rfl⟩ := List.mem_map.mp hq
    have hlength := hqp.length_le
    rw [List.length_append, List.length_singleton] at hlength
    exact absurd hlength (Nat.not_succ_le_self _)
  · exact ((List.pairwise_cons.mp h).1 q hq).2 hqp

/-- The names in a directory differ. -/
theorem nodup_children (t : PathTree naming β) (p : List N) : ((t.children p).map Prod.fst).Nodup := by
  have hpaths : (((t.children p).map Prod.fst).map fun a => p ++ [a]).Nodup := by
    have hsub : (((t.children p).map Prod.fst).map fun a => p ++ [a]).Sublist (t.entries.map Prod.fst) := by
      unfold children
      induction t.entries with
      | nil => simp
      | cons e entries ih =>
        rw [List.filterMap_cons, List.map_cons]
        by_cases hd : e.1.dropLast = p
        · rw [if_pos hd]
          cases hl : e.1.getLast? with
          | none => exact ih.trans (List.sublist_cons_self _ _)
          | some a =>
            have he : p ++ [a] = e.1 := by
              rw [← hd]
              exact List.dropLast_append_getLast? a hl
            simp only [Option.map_some, List.map_cons, he]
            exact ih.cons_cons _
        · rw [if_neg hd]
          exact ih.trans (List.sublist_cons_self _ _)
    refine List.Nodup.sublist hsub ?_
    have hdistinct := t.distinct
    have hmap : (t.entries.map fun e => e.1.map naming.fold) = (t.entries.map Prod.fst).map (List.map naming.fold) := by
      simp
    rw [hmap] at hdistinct
    exact List.Nodup.of_map _ hdistinct
  exact List.Nodup.of_map _ hpaths

/-! ## A walk for the directories of a kind -/

section

omit [DecidableEq N]

variable {kind : List N → Prop} {seen pending rest : List (List N)} {p : List N}

theorem Apart.append_left {paths : List (List N)} (h : Apart paths) (p : List N) : Apart (paths.map (p ++ ·)) :=
  List.pairwise_map.mpr (h.imp fun {q r} hqr => by
    rw [List.prefix_append_right_inj, List.prefix_append_right_inj]
    exact hqr)

/-- A walk found the paths `seen` of a kind, each once, and what it did not find is below a path still to read. -/
structure Surveyed (kind : List N → Prop) (seen pending : List (List N)) : Prop where
  sound : ∀ r ∈ seen, kind r
  nodup : seen.Nodup
  apart : Apart pending
  covers : ∀ r, kind r → r ∈ seen ∨ ∃ q ∈ pending, q <+: r ∧ q ≠ r
  fresh : ∀ r ∈ seen, ∀ q ∈ pending, q <+: r → q = r

theorem surveyed_root (hroot : ¬kind []) : Surveyed kind [] [[]] where
  sound := by simp
  nodup := List.nodup_nil
  apart := apart_singleton []
  covers r hr := .inr ⟨[], List.mem_singleton_self _, List.nil_prefix, by rintro rfl; exact hroot hr⟩
  fresh := by simp

/-- **Reading a directory finds those of the kind in it.** -/
theorem Surveyed.step (hkind : ∀ q a r, kind (q ++ a :: r) → kind (q ++ [a])) {names : List N}
    (h : Surveyed kind seen (p :: rest)) (hnodup : names.Nodup) (hnames : ∀ a, a ∈ names ↔ kind (p ++ [a])) :
    Surveyed kind (seen ++ names.map fun a => p ++ [a]) ((names.map fun a => p ++ [a]).reverse ++ rest) where
  sound r hr := by
    rcases List.mem_append.mp hr with hr | hr
    · exact h.sound r hr
    · obtain ⟨a, ha, rfl⟩ := List.mem_map.mp hr
      exact (hnames a).mp ha
  nodup := by
    refine List.nodup_append.mpr ⟨h.nodup, ?_, ?_⟩
    · exact hnodup.map fun a b hab => List.cons.inj (List.append_cancel_left hab) |>.1
    · rintro r hr r' hr' rfl
      obtain ⟨a, -, rfl⟩ := List.mem_map.mp hr'
      have hsame := h.fresh _ hr p List.mem_cons_self (List.prefix_append _ _)
      simp at hsame
  apart := by
    have hstep := h.apart.step (List.nodup_reverse.mpr hnodup)
    rwa [List.map_reverse] at hstep
  covers r hr := by
    rcases h.covers r hr with hr' | ⟨q, hq, hbelow, hne⟩
    · exact .inl (List.mem_append_left _ hr')
    · rcases List.mem_cons.mp hq with rfl | hq
      · obtain ⟨t, rfl⟩ := hbelow
        cases t with
        | nil => simp at hne
        | cons a t =>
          have ha : a ∈ names := (hnames a).mpr (hkind q a t hr)
          have hmem : q ++ [a] ∈ names.map fun a => q ++ [a] := List.mem_map_of_mem ha
          by_cases ht : t = []
          · subst ht
            exact .inl (List.mem_append_right _ hmem)
          · refine .inr ⟨q ++ [a], List.mem_append_left _ (List.mem_reverse.mpr hmem), ⟨t, by simp⟩, ?_⟩
            intro he
            exact ht (by simpa using he)
      · exact .inr ⟨q, List.mem_append_right _ hq, hbelow, hne⟩
  fresh r hr q hq hbelow := by
    rcases List.mem_append.mp hr with hr | hr <;> rcases List.mem_append.mp hq with hq | hq
    · -- What was found before is not below a directory found now.
      obtain ⟨a, -, rfl⟩ := List.mem_map.mp (List.mem_reverse.mp hq)
      have hsame := h.fresh r hr p List.mem_cons_self ((List.prefix_append p [a]).trans hbelow)
      subst hsame
      have hlength := hbelow.length_le
      rw [List.length_append, List.length_singleton] at hlength
      exact absurd hlength (Nat.not_succ_le_self _)
    · exact h.fresh r hr q (List.mem_cons_of_mem _ hq) hbelow
    · obtain ⟨a, -, rfl⟩ := List.mem_map.mp hr
      obtain ⟨b, -, rfl⟩ := List.mem_map.mp (List.mem_reverse.mp hq)
      exact hbelow.eq_of_length (by simp)
    · obtain ⟨a, -, rfl⟩ := List.mem_map.mp hr
      have hapart := (List.pairwise_cons.mp h.apart).1 q hq
      rcases List.prefix_concat_iff.mp hbelow with rfl | hbelow
      · rfl
      · exact absurd hbelow hapart.2

/-- **A walk with nothing left to read found all of the kind.** -/
theorem Surveyed.done (h : Surveyed kind seen []) (r : List N) : r ∈ seen ↔ kind r :=
  ⟨h.sound r, fun hr => (h.covers r hr).resolve_right (by simp)⟩

end

/-! ## Removing directories -/

section

variable {kind : List N → Prop} {t' : PathTree naming β} {before : List (List N)} {p q : List N} {n : Node β}

/-- A directory of a kind, with nothing but directories of the kind below it. -/
def Hollow (t : PathTree naming β) (kind : List N → Prop) (p : List N) : Prop :=
  t.Has p .dir ∧ ∀ q n, t.Has (p ++ q) n → kind (p ++ q)

omit [DecidableEq N] in
/-- What is in a hollow directory is hollow. -/
theorem Hollow.child {a : N} (hdir : ∀ p, kind p → t.Has p .dir) (h : t.Hollow kind p) (ha : t.Has (p ++ [a]) n) :
    t.Hollow kind (p ++ [a]) := by
  refine ⟨hdir _ (h.2 [a] n ha), fun q m hq => ?_⟩
  rw [List.append_assoc] at hq ⊢
  exact h.2 _ m hq

omit [DecidableEq N] in
/-- A directory of the kind is hollow where everything in it is. -/
theorem Hollow.of_children (hdir : ∀ p, kind p → t.Has p .dir) (hp : kind p)
    (h : ∀ a n, t.Has (p ++ [a]) n → t.Hollow kind (p ++ [a])) : t.Hollow kind p := by
  refine ⟨hdir p hp, fun q n hq => ?_⟩
  cases q with
  | nil => rwa [List.append_nil]
  | cons a q =>
    rw [List.append_cons] at hq ⊢
    by_cases h0 : q = []
    · subst h0
      exact (h a n (by simpa using hq)).2 [] n hq
    · have habove := hq.above h0
      exact (h a .dir (habove.resolve_left (by simp))).2 q n hq

/-- Of the directories `before`, the hollow ones are gone, and nothing else is. -/
def Emptied (t : PathTree naming β) (kind : List N → Prop) (before : List (List N)) (t' : PathTree naming β) : Prop :=
  ∀ q n, t'.Has q n ↔ t.Has q n ∧ ¬(q ∈ before ∧ t.Hollow kind q)

omit [DecidableEq N] in
theorem Emptied.refl (t : PathTree naming β) (kind : List N → Prop) : t.Emptied kind [] t := fun q n => by simp

omit [DecidableEq N] in
/-- What is not hollow is passed over. -/
theorem Emptied.skip (h : t.Emptied kind before t') (hp : ¬t.Hollow kind p) : t.Emptied kind (before ++ [p]) t' := by
  intro q n
  rw [h q n, List.mem_append, List.mem_singleton]
  refine and_congr_right fun _ => not_congr (and_congr_left fun hq => ⟨.inl, fun hq' => hq'.resolve_right ?_⟩)
  rintro rfl
  exact hp hq

/-- **A directory whose own directories went before it is removed exactly if it is hollow.** -/
theorem Emptied.step (hdir : ∀ p, kind p → t.Has p .dir) (h : t.Emptied kind before t') (hp : kind p)
    (hchildren : ∀ a, kind (p ++ [a]) → p ++ [a] ∈ before) :
    (t.Hollow kind p ∧ ∃ t'', t'.erase p = some t'' ∧ t.Emptied kind (before ++ [p]) t'') ∨
      (¬t.Hollow kind p ∧ t'.erase p = none ∧ t.Emptied kind (before ++ [p]) t') := by
  by_cases hollow : t.Hollow kind p
  · refine .inl ⟨hollow, ?_⟩
    cases he : t'.erase p with
    | none =>
      obtain ⟨q, m, hq, hparent⟩ := erase_eq_none.mp he
      obtain ⟨hq, hkept⟩ := (h q m).mp hq
      obtain ⟨a, rfl⟩ : ∃ a, q = p ++ [a] := by
        refine ⟨q.getLast hq.ne_nil, ?_⟩
        rw [← hparent, List.dropLast_append_getLast]
      exact absurd ⟨hchildren a (hollow.2 [a] m hq), hollow.child hdir hq⟩ hkept
    | some t'' =>
      refine ⟨t'', rfl, fun q n => ?_⟩
      rw [has_erase he, h q n, List.mem_append, List.mem_singleton]
      constructor
      · rintro ⟨⟨hq, hkept⟩, hne⟩
        exact ⟨hq, fun hgone => hkept ⟨hgone.1.resolve_right hne, hgone.2⟩⟩
      · rintro ⟨hq, hkept⟩
        refine ⟨⟨hq, fun hgone => hkept ⟨.inl hgone.1, hgone.2⟩⟩, ?_⟩
        rintro rfl
        exact hkept ⟨.inr rfl, hollow⟩
  · refine .inr ⟨hollow, ?_, h.skip hollow⟩
    refine erase_eq_none.mpr ?_
    by_contra hnone
    -- With nothing left in it, everything that was in it was hollow.
    refine hollow (.of_children hdir hp fun a n ha => ?_)
    by_contra hchild
    exact hnone ⟨p ++ [a], n, (h _ n).mpr ⟨ha, fun hgone => hchild hgone.2⟩, by simp⟩

end

end PathTree
