import Cao.Text
import Cao.Lib.OrdMap
import Mathlib.Data.List.Lex
import Mathlib.Data.List.Infix
import Mathlib.Order.Compare

/-!
# Ordinal comparison

Names compared as a case-insensitive Windows volume compares them: unit by unit through the system's
upper-case table, with no expansion (`cao_winfs::compare_ordinal_ignore_case`).

* `encodeWide`, `UpcaseTable`, `ordinalKey`: a name as the upper-case units it is compared by;
* `gamePathKey`, **`gamePathKey_split`**: a separator in a path's key is a separator of the path;
* **`prefix_of_le`**: the extensions of a key are contiguous in the order.
-/

namespace Cao

/-! ## UTF-16 -/

/-- The UTF-16 units of a code point. -/
def CodePoint.units : CodePoint → List Nat
  | .char c =>
    if c.toNat < 0x10000 then [c.toNat]
    else [0xD800 + (c.toNat - 0x10000) / 0x400, 0xDC00 + (c.toNat - 0x10000) % 0x400]
  | .lone surrogate => [surrogate.toNat]

/-- `OsStr::encode_wide`. -/
def encodeWide (n : OsStr) : List Nat := n.flatMap CodePoint.units

@[simp] theorem encodeWide_nil : encodeWide [] = [] := rfl

@[simp] theorem encodeWide_cons (p : CodePoint) (n : OsStr) : encodeWide (p :: n) = p.units ++ encodeWide n := rfl

@[simp] theorem encodeWide_append (m n : OsStr) : encodeWide (m ++ n) = encodeWide m ++ encodeWide n :=
  List.flatMap_append

/-- A unit that stands for no character alone. -/
def IsSurrogate (u : Nat) : Prop := 0xD800 ≤ u ∧ u < 0xE000

theorem units_ne_nil (p : CodePoint) : p.units ≠ [] := by
  cases p with
  | char c => simp only [CodePoint.units]; split_ifs <;> simp
  | lone u => simp [CodePoint.units]

/-- A character below `0x10000` that is no surrogate is its own unit. -/
theorem units_ascii {c : Char} (h : c.toNat < 0x80) : (CodePoint.char c).units = [c.toNat] := by
  simp only [CodePoint.units]
  rw [if_pos (by omega)]

/-! ## The upper-case table -/

/-- The system's upper-case table. Separators and surrogates have no case: no other unit is compared
as one of them. -/
structure UpcaseTable where
  upper : Nat → Nat
  caseless : ∀ u, u = '/'.toNat ∨ u = '\\'.toNat ∨ IsSurrogate u → ∀ v, upper v = upper u → v = u

/-- The table that changes the case of ASCII letters only. -/
def asciiUpcase : UpcaseTable where
  upper u := if 97 ≤ u ∧ u ≤ 122 then u - 32 else u
  caseless := by
    intro u hu v h
    have hs : '/'.toNat = 47 := rfl
    have hb : '\\'.toNat = 92 := rfl
    unfold IsSurrogate at hu
    split_ifs at h <;> omega

variable {table : UpcaseTable}

/-- What a name is compared by. -/
def ordinalKey (table : UpcaseTable) (n : OsStr) : List Nat := (encodeWide n).map table.upper

/-- `compare_ordinal_ignore_case`. -/
def compareOrdinalIgnoreCase (table : UpcaseTable) (left right : OsStr) : Ordering :=
  cmp (ordinalKey table left) (ordinalKey table right)

theorem compareOrdinalIgnoreCase_isEq {left right : OsStr} :
    (compareOrdinalIgnoreCase table left right).isEq = true ↔ ordinalKey table left = ordinalKey table right := by
  rw [compareOrdinalIgnoreCase, cmp, cmpUsing]
  rcases lt_trichotomy (ordinalKey table left) (ordinalKey table right) with h | h | h
  · simp [if_pos h, h.ne]
  · simp [h]
  · simp [if_neg h.not_gt, if_pos h, h.ne']

@[simp] theorem ordinalKey_nil : ordinalKey table [] = [] := rfl

@[simp] theorem ordinalKey_append (m n : OsStr) :
    ordinalKey table (m ++ n) = ordinalKey table m ++ ordinalKey table n := by
  simp [ordinalKey]

theorem ordinalKey_cons (p : CodePoint) (n : OsStr) :
    ordinalKey table (p :: n) = p.units.map table.upper ++ ordinalKey table n := by
  simp [ordinalKey]

/-- The key of a separator. -/
def separatorKey (table : UpcaseTable) : Nat := table.upper '/'.toNat

theorem ordinalKey_slash (n : OsStr) :
    ordinalKey table (.char '/' :: n) = separatorKey table :: ordinalKey table n := by
  rw [ordinalKey_cons, units_ascii (by decide)]
  rfl

/-- Only a slash has the separator's key among its units' keys. -/
theorem slash_of_mem_units {c : Char} (h : separatorKey table ∈ (CodePoint.char c).units.map table.upper) :
    c = '/' := by
  obtain ⟨u, hu, he⟩ := List.mem_map.mp h
  have hslash := table.caseless _ (.inl rfl) u he
  have hlt : '/'.toNat = 47 := rfl
  simp only [CodePoint.units] at hu
  split_ifs at hu with hc
  · rw [List.mem_singleton] at hu
    exact Char.ext (UInt32.toNat_inj.mp (hu.symm.trans hslash))
  · simp only [List.mem_cons, List.not_mem_nil, or_false] at hu
    omega

/-! ## Game paths -/

/-- What a game path is compared by. -/
def gamePathKey (table : UpcaseTable) (path : Text) : List Nat := ordinalKey table (OsStr.ofText path)

@[simp] theorem gamePathKey_nil : gamePathKey table [] = [] := rfl

@[simp] theorem gamePathKey_append (s t : Text) :
    gamePathKey table (s ++ t) = gamePathKey table s ++ gamePathKey table t := by
  simp [gamePathKey, OsStr.ofText]

theorem gamePathKey_cons (c : Char) (s : Text) :
    gamePathKey table (c :: s) = (CodePoint.char c).units.map table.upper ++ gamePathKey table s := by
  simp [gamePathKey, OsStr.ofText, ordinalKey_cons]

theorem gamePathKey_slash (s : Text) :
    gamePathKey table ('/' :: s) = separatorKey table :: gamePathKey table s := ordinalKey_slash _

/-- **A separator in a key is a separator of the path**, and parts it. -/
theorem gamePathKey_split {s : Text} {a b : List Nat} (h : gamePathKey table s = a ++ separatorKey table :: b) :
    ∃ x y, s = x ++ '/' :: y ∧ gamePathKey table x = a ∧ gamePathKey table y = b := by
  induction s generalizing a with
  | nil => simp at h
  | cons c s ih =>
    by_cases hc : c = '/'
    · subst hc
      rw [gamePathKey_slash] at h
      cases a with
      | nil =>
        simp only [List.nil_append, List.cons.injEq, true_and] at h
        exact ⟨[], s, rfl, rfl, h⟩
      | cons u a =>
        simp only [List.cons_append, List.cons.injEq] at h
        obtain ⟨x, y, rfl, hx, hy⟩ := ih h.2
        refine ⟨'/' :: x, y, rfl, ?_, hy⟩
        rw [gamePathKey_slash, hx, h.1]
    · rw [gamePathKey_cons] at h
      have hfront : ∃ a', a = (CodePoint.char c).units.map table.upper ++ a' ∧
          gamePathKey table s = a' ++ separatorKey table :: b := by
        rcases List.append_eq_append_iff.mp h with ⟨l, h1, h2⟩ | ⟨l, h1, h2⟩
        · exact ⟨l, h1, h2⟩
        · cases l with
          | nil =>
            rw [List.append_nil] at h1
            exact ⟨[], by rw [h1, List.append_nil], by simpa using h2.symm⟩
          | cons u l =>
            simp only [List.cons_append, List.cons.injEq] at h2
            have hmem : separatorKey table ∈ (CodePoint.char c).units.map table.upper := by
              rw [h1, h2.1]
              simp
            exact absurd (slash_of_mem_units hmem) hc
      obtain ⟨a', rfl, hs⟩ := hfront
      obtain ⟨x, y, rfl, hx, hy⟩ := ih hs
      refine ⟨c :: x, y, rfl, ?_, hy⟩
      rw [gamePathKey_cons, hx]

/-- **The extensions of a key are contiguous**: what lies between a key and one of them is another. -/
theorem prefix_of_le {a x y : List Nat} (h : a ≤ x) (h' : x ≤ a ++ y) : a <+: x := by
  induction a generalizing x with
  | nil => exact List.nil_prefix
  | cons u a ih =>
    cases x with
    | nil => exact absurd h (not_le.mpr (List.nil_lt_cons u a))
    | cons v x =>
      rw [List.cons_append] at h'
      rcases lt_trichotomy u v with huv | rfl | huv
      · exact absurd h' (not_le.mpr (List.cons_lt_cons_iff.mpr (.inl huv)))
      · have hax : a ≤ x := by
          refine not_lt.mp fun hlt => absurd h (not_le.mpr (List.cons_lt_cons_iff.mpr (.inr ⟨rfl, hlt⟩)))
        have hxy : x ≤ a ++ y := by
          refine not_lt.mp fun hlt => absurd h' (not_le.mpr (List.cons_lt_cons_iff.mpr (.inr ⟨rfl, hlt⟩)))
        exact List.cons_prefix_cons.mpr ⟨rfl, ih hax hxy⟩
      · exact absurd h (not_le.mpr (List.cons_lt_cons_iff.mpr (.inl huv)))

/-- A key is at or before its extensions. -/
theorem le_append (a y : List Nat) : a ≤ a ++ y := by
  induction a with
  | nil => exact not_lt.mp (List.not_lt_nil _)
  | cons u a ih =>
    refine not_lt.mp fun hlt => ?_
    rcases List.cons_lt_cons_iff.mp hlt with h | ⟨-, h⟩
    · exact lt_irrefl _ h
    · exact absurd ih (not_le.mpr h)

end Cao
