import Cao.Archive.Preflight
import Mathlib.Data.List.Forall2

/-!
# Planned outputs beneath one another

* `IsAncestor`: one game path is a proper ancestor of another, whatever their spellings;
* **`hasGamePathAncestor_iff`**: the test of two paths;
* **`conflicts_iff`**: the ancestors of a path and one place of the ordered set hold every conflict;
* `SameName`, `ProperAncestor`, **`isAncestor_iff_properAncestor`**: ancestors, component by component;
* **`conflictsWithPlanned_exact`**: the probe against every planned path.
-/

namespace Cao

variable {table : UpcaseTable} {a b p : Text}

/-- `a` is a proper ancestor of `p`. -/
def IsAncestor (table : UpcaseTable) (a p : Text) : Prop :=
  ∃ rest, gamePathKey table p = gamePathKey table a ++ separatorKey table :: rest

theorem mem_beforeSlashes {s x : Text} : x ∈ beforeSlashes s ↔ ∃ y, s = x ++ '/' :: y := by
  induction s generalizing x with
  | nil => simp [beforeSlashes]
  | cons c s ih =>
    rw [beforeSlashes, List.mem_append, List.mem_map]
    cases x with
    | nil =>
      simp only [List.nil_append, List.cons.injEq, List.cons_ne_nil, and_false, exists_false, or_false]
      by_cases hc : c = '/' <;> simp [hc]
    | cons d x =>
      have hd : [] ≠ d :: x := by simp
      simp only [List.cons_append, List.cons.injEq]
      constructor
      · rintro (h | ⟨x', hx', hdc, rfl⟩)
        · split_ifs at h
          · rw [List.mem_singleton] at h
            exact absurd h.symm hd
          · cases h
        · obtain ⟨y, rfl⟩ := ih.mp hx'
          exact ⟨y, hdc, rfl⟩
      · rintro ⟨y, rfl, hs⟩
        exact .inr ⟨x, ih.mpr ⟨y, hs⟩, rfl, rfl⟩

/-- **The ancestors of a path stand before its separators.** -/
theorem isAncestor_iff : IsAncestor table a p ↔
    ∃ x ∈ beforeSlashes p, gamePathKey table x = gamePathKey table a := by
  constructor
  · rintro ⟨rest, h⟩
    obtain ⟨x, y, rfl, hx, -⟩ := gamePathKey_split h
    exact ⟨x, mem_beforeSlashes.mpr ⟨y, rfl⟩, hx⟩
  · rintro ⟨x, hx, h⟩
    obtain ⟨y, rfl⟩ := mem_beforeSlashes.mp hx
    exact ⟨gamePathKey table y, by rw [gamePathKey_append, gamePathKey_slash, h]⟩

theorem hasGamePathAncestor_iff : hasGamePathAncestor table p a = true ↔ IsAncestor table a p := by
  rw [isAncestor_iff]
  simp only [hasGamePathAncestor, List.any_eq_true, compareOrdinalIgnoreCase_isEq]
  rfl

variable {planned : OrdSet (gamePathKey table)}

theorem any_contains_iff : ((beforeSlashes p).any planned.contains) = true ↔
    ∃ e ∈ planned.entries, IsAncestor table e.1 p := by
  simp only [List.any_eq_true, OrdMap.contains_iff, isAncestor_iff]
  constructor
  · rintro ⟨x, hx, e, he, hk⟩
    exact ⟨e, he, x, hx, hk.symm⟩
  · rintro ⟨e, he, x, hx, hk⟩
    exact ⟨x, hx, e, he, hk.symm⟩

/-- The first planned output at or after `p/` is beneath `p` whenever any is. -/
theorem from_any_iff : ((planned.from? (p ++ ['/'])).any fun child => hasGamePathAncestor table child.1 p) = true ↔
    ∃ e ∈ planned.entries, IsAncestor table p e.1 := by
  have hkey : gamePathKey table (p ++ ['/']) = gamePathKey table p ++ [separatorKey table] := by
    rw [gamePathKey_append, gamePathKey_slash, gamePathKey_nil]
  constructor
  · intro h
    cases hf : planned.from? (p ++ ['/']) with
    | none =>
      rw [hf] at h
      cases h
    | some child =>
      rw [hf, Option.any_some, hasGamePathAncestor_iff] at h
      exact ⟨child, (OrdMap.from?_eq_some.mp hf).1, h⟩
  · rintro ⟨e, he, rest, hr⟩
    have hbelow : gamePathKey table e.1 = gamePathKey table (p ++ ['/']) ++ rest := by
      rw [hr, hkey, List.append_assoc, List.singleton_append]
    have hafter : gamePathKey table (p ++ ['/']) ≤ gamePathKey table e.1 := by
      rw [hbelow]
      exact le_append _ _
    cases hf : planned.from? (p ++ ['/']) with
    | none => exact absurd hafter (OrdMap.from?_eq_none.mp hf e he)
    | some child =>
      obtain ⟨-, hle, hmin⟩ := OrdMap.from?_eq_some.mp hf
      have hbetween := hmin e he hafter
      rw [hbelow] at hbetween
      obtain ⟨rest', hr'⟩ := prefix_of_le hle hbetween
      rw [Option.any_some, hasGamePathAncestor_iff]
      refine ⟨rest', ?_⟩
      rw [← hr', hkey, List.append_assoc, List.singleton_append]

/-- **The probe finds every conflict.** -/
theorem conflicts_iff : conflictsWithPlanned planned p = true ↔
    ∃ e ∈ planned.entries, IsAncestor table e.1 p ∨ IsAncestor table p e.1 := by
  rw [conflictsWithPlanned, Bool.or_eq_true, any_contains_iff, from_any_iff]
  constructor
  · rintro (⟨e, he, h⟩ | ⟨e, he, h⟩)
    · exact ⟨e, he, .inl h⟩
    · exact ⟨e, he, .inr h⟩
  · rintro ⟨e, he, h | h⟩
    · exact .inl ⟨e, he, h⟩
    · exact .inr ⟨e, he, h⟩

/-! ## Component by component -/

/-- Two components a case-insensitive volume takes for one. -/
def SameName (table : UpcaseTable) (a b : Text) : Prop :=
  (compareOrdinalIgnoreCase table (OsStr.ofText a) (OsStr.ofText b)).isEq

/-- The components of `a` begin those of `p`, which has more. -/
def ProperAncestor (table : UpcaseTable) (a p : Text) : Prop :=
  ∃ above below, p.splitOn '/' = above ++ below ∧ below ≠ [] ∧ List.Forall₂ (SameName table) (a.splitOn '/') above

section Split

variable {α : Type} {s : α}

/-- What is split begins with the parts of another list, and has more, exactly where that list and a separator begin it. -/
theorem splitOn_eq_append_iff [BEq α] [LawfulBEq α] {a p : List α} :
    (∃ below, below ≠ [] ∧ p.splitOn s = a.splitOn s ++ below) ↔ ∃ rest, p = a ++ s :: rest := by
  constructor
  · rintro ⟨below, hbelow, h⟩
    refine ⟨[s].intercalate below, ?_⟩
    calc p = [s].intercalate (p.splitOn s) := (List.intercalate_splitOn s).symm
      _ = [s].intercalate (a.splitOn s) ++ s :: [s].intercalate below := by
        rw [h, intercalate_append (List.splitOn_ne_nil s a) hbelow]
      _ = a ++ s :: [s].intercalate below := by rw [List.intercalate_splitOn]
  · rintro ⟨rest, rfl⟩
    exact ⟨rest.splitOn s, List.splitOn_ne_nil s rest, List.splitOn_append_cons_self a rest⟩

end Split

/-- The components of a key are the keys of the components. -/
theorem splitOn_key (p : Text) :
    (gamePathKey table p).splitOn (separatorKey table) = (p.splitOn '/').map (gamePathKey table) := by
  have h := @splitOn_gamePathKey table (p.splitOn '/') (List.splitOn_ne_nil '/' p) fun _ hpart =>
    notMem_of_mem_splitOn hpart
  rwa [List.intercalate_splitOn] at h

theorem forall₂_sameName_iff {l l' : List Text} :
    List.Forall₂ (SameName table) l l' ↔ l.map (gamePathKey table) = l'.map (gamePathKey table) := by
  have hsame : SameName table = fun a b => gamePathKey table a = gamePathKey table b := by
    funext a b
    exact propext compareOrdinalIgnoreCase_isEq
  rw [hsame, ← List.forall₂_map_right_iff, ← List.forall₂_map_left_iff, List.forall₂_eq_eq_eq]

/-- **Ancestors by their keys are ancestors component by component.** -/
theorem isAncestor_iff_properAncestor : IsAncestor table a p ↔ ProperAncestor table a p := by
  unfold IsAncestor ProperAncestor
  rw [← splitOn_eq_append_iff, splitOn_key, splitOn_key]
  constructor
  · rintro ⟨below, hbelow, h⟩
    obtain ⟨above, rest, hsplit, habove, rfl⟩ := List.map_eq_append_iff.mp h
    refine ⟨above, rest, hsplit, ?_, forall₂_sameName_iff.mpr habove.symm⟩
    rintro rfl
    exact hbelow rfl
  · rintro ⟨above, below, hsplit, hbelow, habove⟩
    refine ⟨below.map (gamePathKey table), by simpa using hbelow, ?_⟩
    rw [hsplit, List.map_append, forall₂_sameName_iff.mp habove]

/-- **The probe is exact**: the new path's ancestors and one place of the ordered set decide whether some planned path is
a proper ancestor or a proper descendant of it, whatever sorts between a directory and its children. -/
theorem conflictsWithPlanned_exact (planned : OrdSet (gamePathKey table)) (gamePath : Text) :
    conflictsWithPlanned planned gamePath = true ↔
      ∃ e ∈ planned.entries, ProperAncestor table e.1 gamePath ∨ ProperAncestor table gamePath e.1 := by
  rw [conflicts_iff]
  simp only [isAncestor_iff_properAncestor]

-- `a-b` sorts between `a` and what is beneath it
example : conflictsWithPlanned
    ((OrdMap.empty.insert "a-b".toList).insert "A/c".toList : OrdSet (gamePathKey asciiUpcase)) "a".toList = true := by
  decide +kernel

end Cao
