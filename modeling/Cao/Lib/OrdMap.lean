import Mathlib.Algebra.GroupWithZero.Nat
import Mathlib.Order.Lattice
import Mathlib.Data.List.Nodup
import Mathlib.Order.Basic
import Mathlib.Tactic.Common

/-!
# Ordered maps

A map in strictly ascending order of its keys, as a B-tree iterates. Keys are compared by what an order
function makes of them; of keys it takes for one, the first inserted stays.

* `OrdMap order β`: the entries, ascending; `get?`, `contains`, `upsert`, `insert`, `from?`;
* **`mem_upsert`**, **`get?_upsert`**: what an insertion leaves;
* `get?_insertMissing`: what an insertion leaves that changes no key it finds;
* **`from?_eq_some`**: the first entry at or after a key.
-/

variable {κ ω β : Type} [LinearOrder ω]

/-- A map from keys `κ`, compared by `order`, to `β`. -/
structure OrdMap (order : κ → ω) (β : Type) where
  entries : List (κ × β)
  ascending : entries.Pairwise fun a b => order a.1 < order b.1

/-- A set of keys. -/
abbrev OrdSet (order : κ → ω) := OrdMap order Unit

namespace OrdMap

variable {order : κ → ω} {m : OrdMap order β} {k k' : κ} {v v' : β} {g : Option β → β}

/-- The empty map. -/
def empty : OrdMap order β := ⟨[], .nil⟩

/-- The entry of a key, with the key as it was first inserted. -/
def get? (m : OrdMap order β) (k : κ) : Option (κ × β) :=
  m.entries.find? fun e => decide (order e.1 = order k)

/-- Whether a key is in the map. -/
def contains (m : OrdMap order β) (k : κ) : Bool := (m.get? k).isSome

/-- The first entry at or after a key. -/
def from? (m : OrdMap order β) (k : κ) : Option (κ × β) :=
  m.entries.find? fun e => decide (order k ≤ order e.1)

/-- Update the entry of `k`, or insert one, in place. -/
def upsertList (order : κ → ω) (k : κ) (g : Option β → β) : List (κ × β) → List (κ × β)
  | [] => [(k, g none)]
  | e :: es =>
    if order k < order e.1 then (k, g none) :: e :: es
    else if order e.1 < order k then e :: upsertList order k g es
    else (e.1, g (some e.2)) :: es

/-- Two entries of one key are one entry. -/
theorem eq_of_order {a b : κ × β} (ha : a ∈ m.entries) (hb : b ∈ m.entries)
    (h : order a.1 = order b.1) : a = b := by
  have hn : (m.entries.map fun e => order e.1).Nodup :=
    List.pairwise_map.mpr (m.ascending.imp fun h => h.ne)
  exact List.inj_on_of_nodup_map hn ha hb h

/-- **A lookup finds the entry of its key.** -/
theorem get?_eq_some {e : κ × β} : m.get? k = some e ↔ e ∈ m.entries ∧ order e.1 = order k := by
  constructor
  · intro h
    exact ⟨List.mem_of_find?_eq_some h, by simpa using List.find?_some h⟩
  · rintro ⟨he, hk⟩
    cases hf : m.get? k with
    | none => exact absurd (decide_eq_true hk) (List.find?_eq_none.mp hf e he)
    | some e' =>
      have he' : e' ∈ m.entries := List.mem_of_find?_eq_some hf
      have hk' : order e'.1 = order k := by simpa using List.find?_some hf
      rw [eq_of_order he' he (hk'.trans hk.symm)]

theorem get?_eq_none : m.get? k = none ↔ ∀ e ∈ m.entries, order e.1 ≠ order k := by
  simp [get?]

theorem contains_iff : m.contains k = true ↔ ∃ e ∈ m.entries, order e.1 = order k := by
  simp [contains, get?]

theorem contains_congr (h : order k = order k') : m.contains k = m.contains k' := by
  simp only [contains, get?, h]

/-- **The first entry at or after a key** precedes every other such entry. -/
theorem from?_eq_some {e : κ × β} : m.from? k = some e ↔
    e ∈ m.entries ∧ order k ≤ order e.1 ∧ ∀ e' ∈ m.entries, order k ≤ order e'.1 → order e.1 ≤ order e'.1 := by
  obtain ⟨es, hes⟩ := m
  simp only [from?]
  induction es with
  | nil => simp
  | cons a es ih =>
    obtain ⟨ha, hes⟩ := List.pairwise_cons.mp hes
    simp only [List.find?_cons]
    by_cases h : order k ≤ order a.1
    · rw [decide_eq_true h]
      simp only [Option.some.injEq]
      constructor
      · rintro rfl
        refine ⟨List.mem_cons_self, h, ?_⟩
        intro e' he' _
        rcases List.mem_cons.mp he' with rfl | he'
        · exact le_rfl
        · exact (ha _ he').le
      · rintro ⟨he, -, hmin⟩
        rcases List.mem_cons.mp he with rfl | he
        · rfl
        · exact absurd (hmin a List.mem_cons_self h) (ha _ he).not_ge
    · rw [decide_eq_false h]
      simp only [ih hes, List.mem_cons, forall_eq_or_imp]
      constructor
      · rintro ⟨he, hk, hmin⟩
        exact ⟨.inr he, hk, fun hka => absurd hka h, hmin⟩
      · rintro ⟨rfl | he, hk, -, hmin⟩
        · exact absurd hk h
        · exact ⟨he, hk, hmin⟩

theorem from?_eq_none : m.from? k = none ↔ ∀ e ∈ m.entries, ¬ order k ≤ order e.1 := by
  simp [from?]

/-! ## Insertion -/

theorem order_of_mem_upsertList {e : κ × β} {es : List (κ × β)} (h : e ∈ upsertList order k g es) :
    order e.1 = order k ∨ e ∈ es := by
  induction es with
  | nil =>
    rw [upsertList, List.mem_singleton] at h
    rw [h]
    exact .inl rfl
  | cons a es ih =>
    rw [upsertList] at h
    split_ifs at h with h1 h2
    · rcases List.mem_cons.mp h with rfl | h
      · exact .inl rfl
      · exact .inr h
    · rcases List.mem_cons.mp h with rfl | h
      · exact .inr List.mem_cons_self
      · exact (ih h).imp_right (List.mem_cons_of_mem _)
    · rcases List.mem_cons.mp h with rfl | h
      · exact .inl (le_antisymm (not_lt.mp h1) (not_lt.mp h2))
      · exact .inr (List.mem_cons_of_mem _ h)

theorem upsertList_ascending {es : List (κ × β)} (h : es.Pairwise fun a b => order a.1 < order b.1) :
    (upsertList order k g es).Pairwise fun a b => order a.1 < order b.1 := by
  induction es with
  | nil => simp [upsertList]
  | cons a es ih =>
    obtain ⟨ha, hes⟩ := List.pairwise_cons.mp h
    rw [upsertList]
    split_ifs with h1 h2
    · refine List.pairwise_cons.mpr ⟨?_, h⟩
      intro b hb
      rcases List.mem_cons.mp hb with rfl | hb
      · exact h1
      · exact h1.trans (ha b hb)
    · refine List.pairwise_cons.mpr ⟨?_, ih hes⟩
      intro b hb
      rcases order_of_mem_upsertList hb with hb | hb
      · rw [hb]
        exact h2
      · exact ha b hb
    · exact List.pairwise_cons.mpr ⟨ha, hes⟩

/-- Update the value of `k`, or insert one. -/
def upsert (m : OrdMap order β) (k : κ) (g : Option β → β) : OrdMap order β :=
  ⟨upsertList order k g m.entries, upsertList_ascending m.ascending⟩

/-- Insert a key; one already there stays. -/
def insert (m : OrdSet order) (k : κ) : OrdSet order := m.upsert k fun _ => ()

/-- **What an insertion leaves**: the other keys' entries, and the key's own. -/
theorem mem_upsert {e : κ × β} : e ∈ (m.upsert k g).entries ↔
    e ∈ m.entries ∧ order e.1 ≠ order k ∨
      e = match m.get? k with
        | some e' => (e'.1, g (some e'.2))
        | none => (k, g none) := by
  obtain ⟨es, hes⟩ := m
  simp only [upsert, get?]
  induction es with
  | nil => simp [upsertList]
  | cons a es ih =>
    obtain ⟨ha, hes⟩ := List.pairwise_cons.mp hes
    rw [upsertList]
    split_ifs with h1 h2
    · have hnone : (a :: es).find? (fun e => decide (order e.1 = order k)) = none := by
        rw [List.find?_eq_none]
        intro b hb
        rcases List.mem_cons.mp hb with rfl | hb
        · simpa using h1.ne'
        · simpa using (h1.trans (ha b hb)).ne'
      rw [hnone, List.mem_cons]
      constructor
      · rintro (rfl | he)
        · exact .inr rfl
        · exact .inl ⟨he, by simpa using List.find?_eq_none.mp hnone e he⟩
      · rintro (⟨he, -⟩ | rfl)
        · exact .inr he
        · exact .inl rfl
    · rw [List.mem_cons, ih hes, List.find?_cons, decide_eq_false h2.ne]
      constructor
      · rintro (rfl | ⟨he, hk⟩ | he)
        · exact .inl ⟨List.mem_cons_self, h2.ne⟩
        · exact .inl ⟨List.mem_cons_of_mem _ he, hk⟩
        · exact .inr he
      · rintro (⟨he, hk⟩ | he)
        · rcases List.mem_cons.mp he with rfl | he
          · exact .inl rfl
          · exact .inr (.inl ⟨he, hk⟩)
        · exact .inr (.inr he)
    · have heq : order a.1 = order k := le_antisymm (not_lt.mp h1) (not_lt.mp h2)
      rw [List.mem_cons, List.find?_cons, decide_eq_true heq]
      constructor
      · rintro (rfl | he)
        · exact .inr rfl
        · refine .inl ⟨List.mem_cons_of_mem _ he, ?_⟩
          rw [← heq]
          exact (ha e he).ne'
      · rintro (⟨he, hk⟩ | rfl)
        · rcases List.mem_cons.mp he with rfl | he
          · exact absurd heq hk
          · exact .inr he
        · exact .inl rfl

/-- **A sum over the entries after an insertion**: the key's own entry counts anew. -/
theorem sum_upsert (f : κ × β → Nat) : ((m.upsert k g).entries.map f).sum + ((m.get? k).map f).getD 0 =
    (m.entries.map f).sum + f (match m.get? k with
      | some e => (e.1, g (some e.2))
      | none => (k, g none)) := by
  obtain ⟨es, hes⟩ := m
  simp only [upsert, get?]
  induction es with
  | nil => simp [upsertList]
  | cons a es ih =>
    obtain ⟨ha, hes⟩ := List.pairwise_cons.mp hes
    rw [upsertList]
    split_ifs with h1 h2
    · have hnone : (a :: es).find? (fun e => decide (order e.1 = order k)) = none := by
        rw [List.find?_eq_none]
        intro b hb
        rcases List.mem_cons.mp hb with rfl | hb
        · simpa using h1.ne'
        · simpa using (h1.trans (ha b hb)).ne'
      rw [hnone]
      simp [Nat.add_comm]
    · have ih := ih hes
      rw [List.find?_cons, decide_eq_false h2.ne]
      simp only [List.map_cons, List.sum_cons]
      omega
    · have heq : order a.1 = order k := le_antisymm (not_lt.mp h1) (not_lt.mp h2)
      rw [List.find?_cons, decide_eq_true heq]
      simp only [List.map_cons, List.sum_cons, Option.map_some, Option.getD_some]
      omega

/-- **A lookup after an insertion.** -/
theorem get?_upsert : (m.upsert k g).get? k' =
    if order k' = order k then some (match m.get? k with
      | some e => (e.1, g (some e.2))
      | none => (k, g none))
    else m.get? k' := by
  split_ifs with h
  · rw [get?_eq_some, mem_upsert]
    refine ⟨.inr rfl, ?_⟩
    rw [h]
    cases hg : m.get? k with
    | none => rfl
    | some e => exact (get?_eq_some.mp hg).2
  · cases hg : m.get? k' with
    | none =>
      rw [get?_eq_none] at hg ⊢
      intro e he hk
      rcases mem_upsert.mp he with ⟨he, -⟩ | rfl
      · exact hg e he hk
      · apply h
        rw [← hk]
        cases hk' : m.get? k with
        | none => rfl
        | some e => exact (get?_eq_some.mp hk').2
    | some e =>
      obtain ⟨he, hk⟩ := get?_eq_some.mp hg
      exact get?_eq_some.mpr ⟨mem_upsert.mpr (.inl ⟨he, fun hh => h (hk.symm.trans hh)⟩), hk⟩

theorem get?_congr (h : order k = order k') : m.get? k = m.get? k' := by
  simp only [get?, h]

/-- **A lookup after an insertion that leaves a key it finds**: the first value of a key stays. -/
theorem get?_insertMissing (m : OrdMap order β) (k k' : κ) (v : β) :
    (if (m.get? k).isNone then m.upsert k fun _ => v else m).get? k' =
      (m.get? k').or (if order k' = order k then some (k, v) else none) := by
  by_cases h : order k' = order k
  · have hget : m.get? k' = m.get? k := get?_congr h
    rw [if_pos h, hget]
    cases hk : m.get? k with
    | none =>
      rw [if_pos Option.isNone_none, get?_upsert, if_pos h, hk]
      rfl
    | some e =>
      rw [if_neg (by simp), hget, hk]
      rfl
  · rw [if_neg h, Option.or_none]
    split_ifs
    · rw [get?_upsert, if_neg h]
    · rfl

@[simp] theorem contains_empty : (empty : OrdMap order β).contains k = false := rfl

@[simp] theorem get?_empty : (empty : OrdMap order β).get? k = none := rfl

theorem contains_insert {m : OrdSet order} :
    (m.insert k).contains k' = true ↔ order k' = order k ∨ m.contains k' = true := by
  unfold contains insert
  rw [get?_upsert]
  split_ifs with h
  · simp [h]
  · simp [h]

end OrdMap
