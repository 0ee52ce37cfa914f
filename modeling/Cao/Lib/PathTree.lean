import Mathlib.Data.List.Nodup
import Mathlib.Data.List.Infix
import Mathlib.Tactic.Common

/-!
# Directory trees by path

A directory tree as its entries, each under its path below the root. A naming says which names may
stand in it and which of them are one name: a directory holds no two names with one fold, so a lookup
finds an entry whatever its spelling. Every entry stands in a directory.

* `Naming`, `PathTree`: the entries with those facts; `Has`, `IsDir`, `find`, `children`;
* `create`, `erase`, `update`: the operations, each keeping them;
* **`has_create`**, **`has_erase`**, **`has_update`**: what each leaves.
-/

/-- What stands at a path: a directory, or something else. -/
inductive Node (β : Type)
  | dir
  | leaf (value : β)
  deriving DecidableEq, Repr

/-- Which names may stand in a directory, and the fold that compares them. -/
structure Naming (N K : Type) where
  fold : N → K
  valid : N → Bool

variable {N K β : Type}

/-- A directory tree over names `N`, with leaves `β`. -/
structure PathTree (naming : Naming N K) (β : Type) where
  entries : List (List N × Node β)
  rooted : ∀ e ∈ entries, e.1 ≠ []
  named : ∀ e ∈ entries, ∀ a ∈ e.1, naming.valid a = true
  distinct : (entries.map fun e => e.1.map naming.fold).Nodup
  closed : ∀ e ∈ entries, e.1.dropLast ≠ [] → (e.1.dropLast, Node.dir) ∈ entries

namespace PathTree

variable {naming : Naming N K} {t t' : PathTree naming β} {p q r : List N} {n m : Node β}

/-- The tree of an empty root. -/
def empty : PathTree naming β := ⟨[], by simp, by simp, by simp, by simp⟩

/-- `n` stands at exactly `p`. -/
def Has (t : PathTree naming β) (p : List N) (n : Node β) : Prop := (p, n) ∈ t.entries

/-- A directory stands at exactly `p`; the root is one. -/
def IsDir (t : PathTree naming β) (p : List N) : Prop := p = [] ∨ t.Has p .dir

theorem Has.ne_nil (h : t.Has p n) : p ≠ [] := t.rooted _ h

theorem Has.valid (h : t.Has p n) : ∀ a ∈ p, naming.valid a = true := t.named _ h

theorem Has.parent (h : t.Has p n) : t.IsDir p.dropLast := by
  by_cases hp : p.dropLast = []
  · exact .inl hp
  · exact .inr (t.closed _ h hp)

/-- **No two entries share a folded path.** -/
theorem Has.unique (h : t.Has p n) (h' : t.Has q m) (he : p.map naming.fold = q.map naming.fold) :
    p = q ∧ n = m := by
  have := List.inj_on_of_nodup_map t.distinct h h' he
  exact ⟨congrArg Prod.fst this, congrArg Prod.snd this⟩

theorem Has.node_unique (h : t.Has p n) (h' : t.Has p m) : n = m := (h.unique h' rfl).2

variable [DecidableEq K]

/-- The entry `p` names, whatever its spelling. -/
def find (t : PathTree naming β) (p : List N) : Option (List N × Node β) :=
  if p = [] then some ([], .dir) else t.entries.find? fun e => decide (e.1.map naming.fold = p.map naming.fold)

@[simp] theorem find_root : t.find [] = some ([], .dir) := rfl

/-- **A lookup finds the entry with the path's fold.** -/
theorem find_eq_some (hp : p ≠ []) :
    t.find p = some (q, n) ↔ t.Has q n ∧ q.map naming.fold = p.map naming.fold := by
  unfold find
  rw [if_neg hp]
  constructor
  · intro h
    exact ⟨List.mem_of_find?_eq_some h, by simpa using List.find?_some h⟩
  · rintro ⟨h, he⟩
    cases hf : t.entries.find? fun e => decide (e.1.map naming.fold = p.map naming.fold) with
    | none => exact absurd (decide_eq_true he) (List.find?_eq_none.mp hf _ h)
    | some e =>
      have hm : t.Has e.1 e.2 := List.mem_of_find?_eq_some hf
      have hd : e.1.map naming.fold = p.map naming.fold := by simpa using List.find?_some hf
      obtain ⟨h1, h2⟩ := hm.unique h (hd.trans he.symm)
      rw [← h1, ← h2]

theorem find_eq_none (hp : p ≠ []) :
    t.find p = none ↔ ∀ q n, t.Has q n → q.map naming.fold ≠ p.map naming.fold := by
  constructor
  · intro h q n hq he
    rw [(find_eq_some hp).mpr ⟨hq, he⟩] at h
    cases h
  · intro h
    cases hf : t.find p with
    | none => rfl
    | some e =>
      obtain ⟨q, n⟩ := e
      obtain ⟨hq, he⟩ := (find_eq_some hp).mp hf
      exact absurd he (h _ _ hq)

theorem Has.find (h : t.Has p n) : t.find p = some (p, n) := (find_eq_some h.ne_nil).mpr ⟨h, rfl⟩

theorem isDir_of_find (h : t.find p = some (q, .dir)) : t.IsDir q := by
  by_cases hp : p = []
  · subst hp
    rw [find_root, Option.some.injEq, Prod.mk.injEq] at h
    exact .inl h.1.symm
  · exact .inr ((find_eq_some hp).mp h).1

/-- A lookup depends on the path's fold only. -/
theorem find_congr (h : p.map naming.fold = q.map naming.fold) : t.find p = t.find q := by
  unfold find
  by_cases hp : p = []
  · subst hp
    have hq : q = [] := List.map_eq_nil_iff.mp h.symm
    rw [hq]
  · have hq : q ≠ [] := by
      rintro rfl
      exact hp (List.map_eq_nil_iff.mp h)
    rw [if_neg hp, if_neg hq, h]

theorem fold_of_find (h : t.find p = some (q, n)) : q.map naming.fold = p.map naming.fold := by
  by_cases hp : p = []
  · subst hp
    rw [find_root, Option.some.injEq, Prod.mk.injEq] at h
    rw [← h.1]
  · exact ((find_eq_some hp).mp h).2

/-- What stood is still found where more stands. -/
theorem find_mono {t' : PathTree naming β} (hkept : ∀ p n, t.Has p n → t'.Has p n) (h : t.find p = some (q, n)) :
    t'.find p = some (q, n) := by
  by_cases hp : p = []
  · subst hp
    exact h
  · obtain ⟨hhas, hfold⟩ := (find_eq_some hp).mp h
    exact (find_eq_some hp).mpr ⟨hkept q n hhas, hfold⟩

omit [DecidableEq K] in
/-- What stands below a path stands in directories down from it. -/
theorem Has.above (h : t.Has (p ++ q) n) (hq : q ≠ []) : t.IsDir p := by
  induction q using List.reverseRecOn generalizing n with
  | nil => exact absurd rfl hq
  | append_singleton q a ih =>
    have hd := h.parent
    rw [← List.append_assoc, List.dropLast_concat] at hd
    by_cases h0 : q = []
    · rwa [h0, List.append_nil] at hd
    · rcases hd with hd | hd
      · exact absurd (List.append_eq_nil_iff.mp hd).2 h0
      · exact ih hd h0

/-- A directory is found down from directories. -/
theorem find_above (h : t.find (p ++ q) = some (r, .dir)) : ∃ above, t.find p = some (above, .dir) := by
  by_cases hp : p = []
  · exact ⟨[], by rw [hp, find_root]⟩
  have hpq : p ++ q ≠ [] := fun he => hp (List.append_eq_nil_iff.mp he).1
  obtain ⟨hr, hfold⟩ := (find_eq_some hpq).mp h
  rw [List.map_append, List.map_eq_append_iff] at hfold
  obtain ⟨a, b, rfl, ha, -⟩ := hfold
  have ha0 : a ≠ [] := by
    rintro rfl
    exact hp (List.map_eq_nil_iff.mp ha.symm)
  refine ⟨a, (find_eq_some hp).mpr ⟨?_, ha⟩⟩
  by_cases hb : b = []
  · rwa [hb, List.append_nil] at hr
  · exact (hr.above hb).resolve_left ha0

/-- Nothing stands below a path where nothing stands. -/
theorem find_append_eq_none (h : t.find p = none) (q : List N) : t.find (p ++ q) = none := by
  have hp : p ≠ [] := by rintro rfl; cases h
  have hpq : p ++ q ≠ [] := fun he => hp (List.append_eq_nil_iff.mp he).1
  rw [find_eq_none hpq]
  intro r m hr he
  rw [List.map_append, List.map_eq_append_iff] at he
  obtain ⟨a, b, rfl, ha, hb⟩ := he
  by_cases h0 : b = []
  · subst h0
    rw [List.append_nil] at hr
    exact (find_eq_none hp).mp h _ _ hr ha
  · rcases hr.above h0 with rfl | hd
    · exact hp (List.map_eq_nil_iff.mp ha.symm)
    · exact (find_eq_none hp).mp h _ _ hd ha

/-- Create `n` as the name `a` in the directory at `q`. -/
def place (t : PathTree naming β) (q : List N) (a : N) (n : Node β) (hq : t.IsDir q)
    (ha : naming.valid a = true)
    (free : ∀ e ∈ t.entries, e.1.map naming.fold ≠ (q ++ [a]).map naming.fold) : PathTree naming β where
  entries := t.entries ++ [(q ++ [a], n)]
  rooted := by
    simp only [List.mem_append, List.mem_singleton]
    rintro e (he | rfl)
    · exact t.rooted e he
    · simp
  named := by
    simp only [List.mem_append, List.mem_singleton]
    rintro e (he | rfl) b hb
    · exact t.named e he b hb
    · rcases List.mem_append.mp hb with hb | hb
      · rcases hq with rfl | hq
        · cases hb
        · exact hq.valid b hb
      · rw [List.mem_singleton.mp hb, ha]
  distinct := by
    rw [List.map_append, List.map_singleton, List.nodup_append]
    refine ⟨t.distinct, by simp, ?_⟩
    rintro a ha b hb rfl
    obtain ⟨e, he, rfl⟩ := List.mem_map.mp ha
    exact free e he (List.mem_singleton.mp hb)
  closed := by
    simp only [List.mem_append, List.mem_singleton]
    rintro e (he | rfl) hd
    · exact .inl (t.closed e he hd)
    · rw [List.dropLast_concat] at hd ⊢
      exact .inl (hq.resolve_left hd)

/-- Create `n` at `p`, in the directory `p`'s parent names, unless `p` is occupied; with the path it
got. -/
def create (t : PathTree naming β) (p : List N) (n : Node β) : Option (List N × PathTree naming β) :=
  match hl : p.getLast? with
  | none => none
  | some a =>
    match hd : t.find p.dropLast with
    | some (q, .dir) =>
      if hf : t.find p = none ∧ naming.valid a = true then
        some (q ++ [a], t.place q a n (isDir_of_find hd) hf.2 (by
          have hp : p ≠ [] := by rintro rfl; cases hl
          have hpa : p.dropLast ++ [a] = p := by
            rw [List.getLast?_eq_some_getLast hp, Option.some.injEq] at hl
            rw [← hl, List.dropLast_append_getLast]
          have he : (q ++ [a]).map naming.fold = p.map naming.fold := by
            rw [List.map_append, fold_of_find hd, ← List.map_append, hpa]
          rw [he]
          exact fun e he => (find_eq_none hp).mp hf.1 _ _ he))
      else none
    | _ => none

/-- **Creation adds one entry**, where the path was free. -/
theorem create_eq_some (h : t.create p n = some (q, t')) :
    (∀ r m, t'.Has r m ↔ t.Has r m ∨ r = q ∧ m = n) ∧ q ≠ [] ∧ t.IsDir q.dropLast ∧
      q.map naming.fold = p.map naming.fold ∧ t.find p = none ∧
      ∃ d, t.find p.dropLast = some (d, .dir) ∧ q.dropLast = d ∧ q.getLast? = p.getLast? := by
  unfold create at h
  split at h
  · cases h
  · next a hl =>
    split at h
    · next d hd =>
      split_ifs at h with hf
      cases h
      have hp : p ≠ [] := by rintro rfl; cases hl
      have hpa : p.dropLast ++ [a] = p := by
        rw [List.getLast?_eq_some_getLast hp, Option.some.injEq] at hl
        rw [← hl, List.dropLast_append_getLast]
      refine ⟨fun r m => ?_, by simp, by simpa using isDir_of_find hd, ?_, hf.1, d, hd, by simp,
        by simp [hl]⟩
      · simp [Has, place]
      · rw [List.map_append, fold_of_find hd, ← List.map_append, hpa]
    · cases h

theorem has_create (h : t.create p n = some (q, t')) : t'.Has r m ↔ t.Has r m ∨ r = q ∧ m = n :=
  (create_eq_some h).1 r m

variable [DecidableEq N]

/-- The names in the directory `p` and what stands there. -/
def children (t : PathTree naming β) (p : List N) : List (N × Node β) :=
  t.entries.filterMap fun e => if e.1.dropLast = p then e.1.getLast?.map (·, e.2) else none

omit [DecidableEq K] in
theorem mem_children {a : N} : (a, n) ∈ t.children p ↔ t.Has (p ++ [a]) n := by
  unfold children
  rw [List.mem_filterMap]
  constructor
  · rintro ⟨e, he, h⟩
    split_ifs at h with hd
    obtain ⟨b, hb, hab⟩ := Option.map_eq_some_iff.mp h
    obtain ⟨rfl, rfl⟩ := Prod.mk.inj hab
    have hne := t.rooted e he
    have hl : e.1.getLast hne = b := by
      rw [List.getLast?_eq_some_getLast hne] at hb
      exact Option.some.inj hb
    have hp := List.dropLast_append_getLast hne
    rw [hd, hl] at hp
    rw [hp]
    exact he
  · intro h
    exact ⟨_, h, by simp⟩

/-- `p` is an empty directory, or no directory. -/
def childless (t : PathTree naming β) (p : List N) : Bool := t.entries.all fun e => e.1.dropLast ≠ p

omit [DecidableEq K] in
theorem childless_iff : t.childless p = true ↔ ∀ q m, t.Has q m → q.dropLast ≠ p := by
  simp [childless, Has]

omit [DecidableEq K] in
/-- What is no directory holds nothing. -/
theorem Has.childless {b : β} (h : t.Has p (.leaf b)) : t.childless p = true := by
  rw [childless_iff]
  rintro q m hq rfl
  rcases hq.parent with h0 | hd
  · exact h.ne_nil h0
  · cases h.node_unique hd

/-- Remove what stands at `p`, unless it holds something. -/
def erase (t : PathTree naming β) (p : List N) : Option (PathTree naming β) :=
  if h : t.childless p = true then some {
    entries := t.entries.filter fun e => decide (e.1 ≠ p)
    rooted := fun e he => t.rooted e (List.mem_filter.mp he).1
    named := fun e he => t.named e (List.mem_filter.mp he).1
    distinct := t.distinct.sublist (List.filter_sublist.map _)
    closed := fun e he hd => by
      obtain ⟨hm, -⟩ := List.mem_filter.mp he
      exact List.mem_filter.mpr ⟨t.closed e hm hd, decide_eq_true (childless_iff.mp h _ _ hm)⟩ }
  else none

omit [DecidableEq K] in
/-- **Removal takes one entry.** -/
theorem has_erase (h : t.erase p = some t') : t'.Has q m ↔ t.Has q m ∧ q ≠ p := by
  unfold erase at h
  split_ifs at h
  cases h
  simp [Has]

/-- A lookup finds what was not removed. -/
theorem find_erase (h : t.erase p = some t') (hp : p ≠ []) :
    t'.find q = some (r, n) ↔ t.find q = some (r, n) ∧ r ≠ p := by
  by_cases hq : q = []
  · subst hq
    rw [find_root, find_root]
    constructor
    · intro hr
      rw [Option.some.injEq, Prod.mk.injEq] at hr
      exact ⟨by rw [← hr.1, ← hr.2], fun he => hp (by rw [← he, ← hr.1])⟩
    · exact fun hr => hr.1
  · rw [find_eq_some hq, find_eq_some hq, has_erase h]
    constructor
    · rintro ⟨⟨hr, hne⟩, hfold⟩
      exact ⟨⟨hr, hfold⟩, hne⟩
    · rintro ⟨⟨hr, hfold⟩, hne⟩
      exact ⟨⟨hr, hne⟩, hfold⟩

omit [DecidableEq K] in
theorem erase_eq_none : t.erase p = none ↔ ∃ q m, t.Has q m ∧ q.dropLast = p := by
  unfold erase
  split_ifs with h
  · simp only [false_iff, not_exists, not_and]
    exact childless_iff.mp h
  · simp only [true_iff]
    rw [childless_iff] at h
    push Not at h
    exact h

omit [DecidableEq K] in
theorem erase_leaf {b : β} (h : t.Has p (.leaf b)) : ∃ t', t.erase p = some t' := by
  unfold erase
  rw [dif_pos h.childless]
  exact ⟨_, rfl⟩

/-- A leaf, replaced at `p`. -/
def updated (p : List N) (b : β) (e : List N × Node β) : List N × Node β :=
  match e with
  | (q, .leaf c) => (q, .leaf (if q = p then b else c))
  | e => e

@[simp] theorem updated_fst (p : List N) (b : β) (e : List N × Node β) : (updated p b e).1 = e.1 := by
  obtain ⟨q, _ | c⟩ := e <;> rfl

/-- Replace the leaf at `p`. -/
def update (t : PathTree naming β) (p : List N) (b : β) : PathTree naming β where
  entries := t.entries.map (updated p b)
  rooted := by
    simp only [List.mem_map]
    rintro _ ⟨e, he, rfl⟩
    rw [updated_fst]
    exact t.rooted e he
  named := by
    simp only [List.mem_map]
    rintro _ ⟨e, he, rfl⟩
    rw [updated_fst]
    exact t.named e he
  distinct := by
    rw [List.map_map]
    convert t.distinct using 2
    funext e
    rw [Function.comp_apply, updated_fst]
  closed := by
    simp only [List.mem_map]
    rintro _ ⟨e, he, rfl⟩ hd
    rw [updated_fst] at hd ⊢
    exact ⟨_, t.closed e he hd, rfl⟩

omit [DecidableEq K] in
theorem has_update_dir {b : β} : (t.update p b).Has q .dir ↔ t.Has q .dir := by
  simp only [Has, update, List.mem_map]
  constructor
  · rintro ⟨⟨r, _ | c⟩, hr, he⟩
    · cases he; exact hr
    · cases he
  · exact fun h => ⟨_, h, rfl⟩

omit [DecidableEq K] in
/-- **An update changes the leaf at `p` only.** -/
theorem has_update {b c : β} : (t.update p b).Has q (.leaf c) ↔
    ∃ c', t.Has q (.leaf c') ∧ c = if q = p then b else c' := by
  simp only [Has, update, List.mem_map]
  constructor
  · rintro ⟨⟨r, _ | c'⟩, hr, he⟩
    · cases he
    · simp only [updated, Prod.mk.injEq, Node.leaf.injEq] at he
      obtain ⟨rfl, rfl⟩ := he
      exact ⟨c', hr, rfl⟩
  · rintro ⟨c', hc, rfl⟩
    exact ⟨_, hc, rfl⟩

end PathTree
