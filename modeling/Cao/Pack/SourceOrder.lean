import Cao.Pack.Data
import Mathlib.Data.List.Perm.Basic

/-!
# Sources in any order

The sort that `SplitArchives::split` begins with (`data.rs`) leaves nothing of the order in which the sources came.

* `WellFormed`: a name as the system holds it, with no two units that would be read as one character;
* **`encodeWide_injective`**: such names are told apart by their units;
* **`split_perm`**: sources with distinct paths are split alike, in whatever order they come.
-/

namespace Cao.Pack

/-! ## Names and their units -/

/-- The first half of a character beyond `0xFFFF`. -/
def isHigh (u : Nat) : Bool := 0xD800 ≤ u && u < 0xDC00

/-- The second half of one. -/
def isLow (u : Nat) : Bool := 0xDC00 ≤ u && u < 0xE000

/-- Two code points that a name cannot hold one after the other: together they are a character. -/
def pairUp : CodePoint → CodePoint → Bool
  | .lone u, .lone v => isHigh u.toNat && isLow v.toNat
  | _, _ => false

/-- WTF-8: a unit that stands alone is a surrogate, and no half of a character precedes the other. -/
def WellFormed : OsStr → Prop
  | [] => True
  | p :: name => (∀ u, p = .lone u → IsSurrogate u.toNat) ∧ (∀ q ∈ name.head?, pairUp p q = false) ∧ WellFormed name

/-- A character is no surrogate. -/
theorem char_not_surrogate (c : Char) : c.toNat < 0xD800 ∨ 0xE000 ≤ c.toNat := by
  rcases c.valid with h | h
  · exact .inl h
  · exact .inr (Nat.succ_le_of_lt h.1)

theorem char_lt (c : Char) : c.toNat < 0x110000 := by
  rcases c.valid with h | h
  · exact Nat.lt_trans h (by decide)
  · exact h.2

/-- A name that begins with a second half begins with it alone. -/
theorem lone_of_low {name : OsStr} {v : Nat} {rest : List Nat} (h : encodeWide name = v :: rest) (hv : isLow v = true) :
    ∃ u, name.head? = some (.lone u) ∧ u.toNat = v := by
  unfold isLow at hv
  rw [Bool.and_eq_true, decide_eq_true_eq, decide_eq_true_eq] at hv
  cases name with
  | nil => cases h
  | cons p name =>
    rw [encodeWide_cons] at h
    cases p with
    | lone u => exact ⟨u, rfl, (List.cons.inj h).1⟩
    | char c =>
      exfalso
      have hc := char_not_surrogate c
      have hlt := char_lt c
      unfold CodePoint.units at h
      dsimp only at h
      split_ifs at h with hbmp
      · have := (List.cons.inj h).1
        omega
      · have := (List.cons.inj h).1
        omega

/-- Names that agree in their units agree in their first code point. -/
theorem head_injective {p q : CodePoint} {m n : OsStr} (hm : WellFormed (p :: m)) (hn : WellFormed (q :: n))
    (h : encodeWide (p :: m) = encodeWide (q :: n)) : p = q := by
  -- A character beyond `0xFFFF` against a first half alone: its second half would follow alone.
  have hpair : ∀ {c : Char} {u : UInt16} {m n : OsStr}, WellFormed (.lone u :: n) → ¬c.toNat < 0x10000 →
      encodeWide (.char c :: m) ≠ encodeWide (.lone u :: n) := by
    intro c u m n hn hbmp h
    have hlt := char_lt c
    rw [encodeWide_cons, encodeWide_cons] at h
    unfold CodePoint.units at h
    dsimp only at h
    rw [if_neg hbmp] at h
    obtain ⟨hhigh, hrest⟩ := List.cons.inj h
    have hlow : isLow (0xDC00 + (c.toNat - 0x10000) % 0x400) = true := by
      unfold isLow
      rw [Bool.and_eq_true, decide_eq_true_eq, decide_eq_true_eq]
      omega
    obtain ⟨v, hv, hval⟩ := lone_of_low hrest.symm hlow
    have hnot := hn.2.1 (.lone v) hv
    unfold pairUp at hnot
    dsimp only at hnot
    rw [hval, hlow, Bool.and_true] at hnot
    unfold isHigh at hnot
    rw [Bool.and_eq_false_iff, decide_eq_false_iff_not, decide_eq_false_iff_not] at hnot
    omega
  cases p with
  | lone u =>
    cases q with
    | lone v =>
      rw [encodeWide_cons, encodeWide_cons] at h
      rw [UInt16.toNat_inj.mp (List.cons.inj h).1]
    | char d =>
      exfalso
      by_cases hbmp : d.toNat < 0x10000
      · have hd := char_not_surrogate d
        have hu := hm.1 u rfl
        unfold IsSurrogate at hu
        rw [encodeWide_cons, encodeWide_cons] at h
        unfold CodePoint.units at h
        dsimp only at h
        rw [if_pos hbmp] at h
        have := (List.cons.inj h).1
        omega
      · exact hpair hm hbmp h.symm
  | char c =>
    cases q with
    | lone v =>
      exfalso
      by_cases hbmp : c.toNat < 0x10000
      · have hc := char_not_surrogate c
        have hv := hn.1 v rfl
        unfold IsSurrogate at hv
        rw [encodeWide_cons, encodeWide_cons] at h
        unfold CodePoint.units at h
        dsimp only at h
        rw [if_pos hbmp] at h
        have := (List.cons.inj h).1
        omega
      · exact hpair hn hbmp h
    | char d =>
      have hsame : c.toNat = d.toNat := by
        have hc := char_not_surrogate c
        have hd := char_not_surrogate d
        have hclt := char_lt c
        have hdlt := char_lt d
        rw [encodeWide_cons, encodeWide_cons] at h
        unfold CodePoint.units at h
        dsimp only at h
        split_ifs at h with hcb hdb hdb
        · exact (List.cons.inj h).1
        · have := (List.cons.inj h).1
          omega
        · have := (List.cons.inj h).1
          omega
        · have hhigh := (List.cons.inj h).1
          have hlow := (List.cons.inj (List.cons.inj h).2).1
          omega
      rw [Char.toNat_inj.mp hsame]

/-- **Names are told apart by their units.** -/
theorem encodeWide_injective {m n : OsStr} (hm : WellFormed m) (hn : WellFormed n) (h : encodeWide m = encodeWide n) :
    m = n := by
  induction m generalizing n with
  | nil =>
    cases n with
    | nil => rfl
    | cons q n => exact absurd (List.append_eq_nil_iff.mp h.symm).1 (units_ne_nil q)
  | cons p m ih =>
    cases n with
    | nil => exact absurd (List.append_eq_nil_iff.mp h).1 (units_ne_nil p)
    | cons q n =>
      have hpq := head_injective hm hn h
      subst hpq
      rw [encodeWide_cons, encodeWide_cons, List.append_cancel_left_eq] at h
      rw [ih hm.2.2 hn.2.2 h]

/-! ## The sort -/

namespace SplitArchives

theorem msvcSortKey_injective {p q : Path} (hp : ∀ name ∈ p, WellFormed name) (hq : ∀ name ∈ q, WellFormed name)
    (h : msvcSortKey p = msvcSortKey q) : p = q := by
  induction p generalizing q with
  | nil =>
    cases q with
    | nil => rfl
    | cons name q => cases h
  | cons name p ih =>
    cases q with
    | nil => cases h
    | cons name' q =>
      obtain ⟨hname, hrest⟩ := List.cons.inj h
      rw [encodeWide_injective (hp _ List.mem_cons_self) (hq _ List.mem_cons_self) hname,
        ih (fun n hn => hp n (List.mem_cons_of_mem _ hn)) (fun n hn => hq n (List.mem_cons_of_mem _ hn)) hrest]

/-- **Sources with distinct paths are sorted into one order.** -/
theorem sortSources_perm {sources sources' : List PackSource} (hperm : sources.Perm sources')
    (hformed : ∀ source ∈ sources, ∀ name ∈ source.path, WellFormed name)
    (hdistinct : (sources.map PackSource.path).Nodup) : sortSources sources = sortSources sources' := by
  unfold sortSources
  refine @List.Perm.eq_of_pairwise _ (fun a b => msvcSortKey a.path ≤ msvcSortKey b.path) _ _ ?_ ?_ ?_
    ((List.mergeSort_perm _ _).trans (hperm.trans (List.mergeSort_perm _ _).symm))
  · intro a b ha hb hab hba
    rw [List.mem_mergeSort] at ha hb
    have hb := hperm.mem_iff.mpr hb
    have hpath : a.path = b.path := msvcSortKey_injective (hformed a ha) (hformed b hb) (le_antisymm hab hba)
    exact List.inj_on_of_nodup_map hdistinct ha hb hpath
  all_goals
    refine (List.pairwise_mergeSort ?_ ?_ _).imp fun h => of_decide_eq_true h
    · intro a b c hab hbc
      rw [decide_eq_true_eq] at hab hbc ⊢
      exact le_trans hab hbc
    · intro a b
      rw [Bool.or_eq_true, decide_eq_true_eq, decide_eq_true_eq]
      exact le_total _ _

/-- **They are split alike.** -/
theorem split_perm (checks : OverflowChecks) (root : Path) (settings : Settings) {sources sources' : List PackSource}
    (hperm : sources.Perm sources') (hformed : ∀ source ∈ sources, ∀ name ∈ source.path, WellFormed name)
    (hdistinct : (sources.map PackSource.path).Nodup) :
    split checks root sources settings = split checks root sources' settings := by
  unfold split
  rw [sortSources_perm hperm hformed hdistinct]

end SplitArchives

end Cao.Pack
