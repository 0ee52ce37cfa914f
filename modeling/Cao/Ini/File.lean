import Cao.Ini.Value
import Mathlib.Logic.Function.Basic

/-!
# The settings of a file

Keys in file order, found by their lowercase through an index (`cao_profiles::ini`).

* `IniFile`, `Indexed`: the entries and the index over them, which every operation keeps exact;
* `insert`, `set`, `remove`, `get`, `value`: `IniFile`'s operations;
* `put`, `drop`, `find`: what they are on the entries alone (**`entries_insert`**, **`entries_remove`**,
  **`get_eq_find`**).
-/

namespace Cao.Ini

/-- One key in file order, with the spelling it was first read or set with. -/
structure Entry where
  key : Text
  value : Value

/-- The two lines that are rejected. -/
inductive FormatErrorKind
  | unclosedSection
  | missingEquals
  deriving DecidableEq, Repr

/-- A line that cannot be read. -/
structure FormatError where
  line : Nat
  kind : FormatErrorKind
  deriving DecidableEq, Repr

variable (tables : CaseTables)

/-- An index that finds each entry by the lowercase of its key, and nothing else. -/
def Indexed (entries : List Entry) (index : Text → Option Nat) : Prop :=
  ∀ key (i : Nat), index key = some i ↔ ∃ entry, entries[i]? = some entry ∧ toLowercase tables entry.key = key

/-- The settings of one file. -/
structure IniFile where
  entries : List Entry
  index : Text → Option Nat
  formatError : Option FormatError
  indexed : Indexed tables entries index

variable {tables} {entries : List Entry} {index : Text → Option Nat}

namespace Indexed

theorem unique (h : Indexed tables entries index) {i j : Nat} {e f : Entry} (he : entries[i]? = some e)
    (hf : entries[j]? = some f) (hkey : toLowercase tables e.key = toLowercase tables f.key) : i = j := by
  have hi := (h _ i).mpr ⟨e, he, rfl⟩
  have hj := (h _ j).mpr ⟨f, hf, hkey.symm⟩
  rw [hi] at hj
  exact Option.some.inj hj

theorem empty : Indexed tables [] fun _ => none := by
  intro key i
  simp

theorem modify (h : Indexed tables entries index) (i : Nat) (value : Value) :
    Indexed tables (entries.modify i fun e => { e with value }) index := by
  intro key j
  rw [h key j, List.getElem?_modify]
  by_cases hij : i = j
  · subst hij
    cases entries[i]? <;> simp
  · simp [hij]

theorem push (h : Indexed tables entries index) {key : Text} (value : Value) (hnew : index (toLowercase tables key) = none) :
    Indexed tables (entries ++ [⟨key, value⟩])
      (Function.update index (toLowercase tables key) (some entries.length)) := by
  intro wanted j
  by_cases hkey : wanted = toLowercase tables key
  · subst hkey
    rw [Function.update_self]
    constructor
    · intro hj
      cases hj
      exact ⟨⟨key, value⟩, by simp, rfl⟩
    · rintro ⟨e, he, hlower⟩
      by_cases hj : j < entries.length
      · rw [List.getElem?_append_left hj] at he
        have := (h _ j).mpr ⟨e, he, hlower⟩
        rw [hnew] at this
        cases this
      · have hlast : j = entries.length := by
          have := (List.getElem?_eq_some_iff.mp he).1
          rw [List.length_append, List.length_singleton] at this
          omega
        rw [hlast]
  · rw [Function.update_of_ne hkey, h wanted j]
    constructor
    · rintro ⟨e, he, hlower⟩
      exact ⟨e, by rw [List.getElem?_append_left (List.getElem?_eq_some_iff.mp he).1, he], hlower⟩
    · rintro ⟨e, he, hlower⟩
      by_cases hj : j < entries.length
      · rw [List.getElem?_append_left hj] at he
        exact ⟨e, he, hlower⟩
      · rw [List.getElem?_append_right (by omega)] at he
        have := List.mem_of_getElem? he
        rw [List.mem_singleton] at this
        subst this
        exact absurd hlower.symm hkey

theorem erase (h : Indexed tables entries index) {key : Text} {i : Nat} (hi : index key = some i) :
    Indexed tables (entries.eraseIdx i)
      (fun wanted => (Function.update index key none wanted).map fun j => if i < j then j - 1 else j) := by
  obtain ⟨removed, hremoved, hlower⟩ := (h key i).mp hi
  intro wanted j
  have hshift : (∃ e, (entries.eraseIdx i)[j]? = some e ∧ toLowercase tables e.key = wanted) ↔
      ∃ k e, entries[k]? = some e ∧ toLowercase tables e.key = wanted ∧ k ≠ i ∧ (if i < k then k - 1 else k) = j := by
    rw [List.getElem?_eraseIdx]
    split_ifs with hji
    · constructor
      · rintro ⟨e, he, hw⟩
        exact ⟨j, e, he, hw, by omega, by rw [if_neg (by omega)]⟩
      · rintro ⟨k, e, he, hw, hki, hk⟩
        split_ifs at hk with hik
        · omega
        · exact ⟨e, hk ▸ he, hw⟩
    · constructor
      · rintro ⟨e, he, hw⟩
        exact ⟨j + 1, e, he, hw, by omega, by rw [if_pos (by omega)]; omega⟩
      · rintro ⟨k, e, he, hw, hki, hk⟩
        split_ifs at hk with hik
        · have : k = j + 1 := by omega
          exact ⟨e, this ▸ he, hw⟩
        · omega
  rw [hshift, Option.map_eq_some_iff]
  constructor
  · rintro ⟨k, hk, hj⟩
    by_cases hwanted : wanted = key
    · rw [hwanted, Function.update_self] at hk
      cases hk
    · rw [Function.update_of_ne hwanted] at hk
      obtain ⟨e, he, hw⟩ := (h wanted k).mp hk
      refine ⟨k, e, he, hw, ?_, hj⟩
      rintro rfl
      rw [hremoved] at he
      cases he
      exact hwanted (hw ▸ hlower)
  · rintro ⟨k, e, he, hw, hki, hj⟩
    refine ⟨k, ?_, hj⟩
    have hwanted : wanted ≠ key := by
      rintro rfl
      exact hki (h.unique he hremoved (hw.trans hlower.symm))
    rw [Function.update_of_ne hwanted]
    exact (h wanted k).mpr ⟨e, he, hw⟩

end Indexed

namespace IniFile

variable (ini : IniFile tables)

/-- `IniFile::new`. -/
def new (tables : CaseTables) : IniFile tables := ⟨[], fun _ => none, none, Indexed.empty⟩

/-- `keys`. -/
def keys : List Text := ini.entries.map Entry.key

/-- `get`. -/
def get (key : Text) : Option Value :=
  (ini.index (toLowercase tables key)).bind fun i => ini.entries[i]?.map Entry.value

/-- `value`: the value of a key, ignoring case. -/
def value (key : Text) : Value := (ini.get key).getD .invalid

/-- `insert`: a key that is there keeps its spelling and place and takes the new value. -/
def insert (key : Text) (value : Value) : IniFile tables :=
  match hindex : ini.index (toLowercase tables key) with
  | some i =>
    { ini with
      entries := ini.entries.modify i fun e => { e with value }
      indexed := ini.indexed.modify i value }
  | none =>
    { ini with
      entries := ini.entries ++ [⟨key, value⟩]
      index := Function.update ini.index (toLowercase tables key) (some ini.entries.length)
      indexed := ini.indexed.push value hindex }

/-- `set`. -/
def set (key : Text) (value : Value) : IniFile tables := ini.insert key value

/-- `remove`: the entries after the removed one each move up one place. -/
def remove (key : Text) : IniFile tables :=
  match hindex : ini.index (toLowercase tables key) with
  | none => ini
  | some removed =>
    { ini with
      entries := ini.entries.eraseIdx removed
      index := fun wanted =>
        (Function.update ini.index (toLowercase tables key) none wanted).map fun i => if removed < i then i - 1 else i
      indexed := ini.indexed.erase hindex }

/-- `record_error`: keeps the first format error. -/
def recordError (line : Nat) (kind : FormatErrorKind) : IniFile tables :=
  if ini.formatError = none then { ini with formatError := some ⟨line, kind⟩ } else ini

end IniFile

/-! ## The entries alone -/

variable (tables)

/-- Whether an entry is found under a key. -/
def Entry.named (key : Text) (e : Entry) : Bool := toLowercase tables e.key == toLowercase tables key

/-- The value under a key. -/
def find (entries : List Entry) (key : Text) : Option Value := (entries.find? (Entry.named tables key)).map Entry.value

/-- Entries with a value put under a key. -/
def put (entries : List Entry) (key : Text) (value : Value) : List Entry :=
  if entries.any (Entry.named tables key) then
    entries.map fun e => if e.named tables key then { e with value } else e
  else entries ++ [⟨key, value⟩]

/-- Entries without the one under a key. -/
def drop (entries : List Entry) (key : Text) : List Entry := entries.filter fun e => !e.named tables key

/-- Keys that no two entries share. -/
def Distinct (entries : List Entry) : Prop := (entries.map fun e => toLowercase tables e.key).Nodup

variable {tables}

theorem Indexed.distinct (h : Indexed tables entries index) : Distinct tables entries := by
  refine List.nodup_iff_getElem?_ne_getElem?.mpr fun i j hij hj heq => ?_
  rw [List.length_map] at hj
  rw [List.getElem?_map, List.getElem?_map, List.getElem?_eq_getElem hj,
    List.getElem?_eq_getElem (Nat.lt_trans hij hj)] at heq
  have := h.unique (List.getElem?_eq_getElem (Nat.lt_trans hij hj)) (List.getElem?_eq_getElem hj)
    (Option.some.inj heq)
  omega

theorem IniFile.distinct (ini : IniFile tables) : Distinct tables ini.entries := ini.indexed.distinct

/-- Where a key is not in the index it is no entry's. -/
theorem Indexed.any_eq_false (h : Indexed tables entries index) {key : Text} (hkey : index (toLowercase tables key) = none) :
    entries.any (Entry.named tables key) = false := by
  rw [List.any_eq_false]
  intro e he
  obtain ⟨i, hi⟩ := List.getElem?_of_mem he
  intro hnamed
  have := (h _ i).mpr ⟨e, hi, by simpa [Entry.named] using hnamed⟩
  rw [hkey] at this
  cases this

/-- Where a key is in the index, its entry is the one that is found. -/
theorem Indexed.named_iff (h : Indexed tables entries index) {key : Text} {i : Nat}
    (hkey : index (toLowercase tables key) = some i) {j : Nat} {e : Entry} (he : entries[j]? = some e) :
    e.named tables key = true ↔ j = i := by
  obtain ⟨f, hf, hlower⟩ := (h _ i).mp hkey
  unfold Entry.named
  rw [beq_iff_eq]
  constructor
  · exact fun hnamed => h.unique he hf (hnamed.trans hlower.symm)
  · rintro rfl
    rw [hf] at he
    cases he
    exact hlower

namespace IniFile

variable (ini : IniFile tables) (key : Text) (v : Value)

/-- **`insert` puts a value under a key.** -/
theorem entries_insert : (ini.insert key v).entries = put tables ini.entries key v := by
  unfold insert put
  split
  · next i hindex =>
    obtain ⟨f, hf, hlower⟩ := (ini.indexed _ i).mp hindex
    have hany : ini.entries.any (Entry.named tables key) = true :=
      List.any_eq_true.mpr ⟨f, List.mem_of_getElem? hf, by simpa [Entry.named] using hlower⟩
    rw [if_pos hany]
    refine List.ext_getElem? fun j => ?_
    rw [List.getElem?_modify, List.getElem?_map]
    cases hj : ini.entries[j]? with
    | none => simp
    | some e =>
      have hnamed := ini.indexed.named_iff hindex hj
      by_cases hij : i = j
      · rw [Option.map_eq_map, Option.map_some, Option.map_some, if_pos hij, if_pos (hnamed.mpr hij.symm)]
      · rw [Option.map_eq_map, Option.map_some, Option.map_some, if_neg hij, if_neg (fun h => hij (hnamed.mp h).symm)]
  · next hindex =>
    rw [ini.indexed.any_eq_false hindex]
    rfl

/-- **`remove` takes the entry under a key out.** -/
theorem entries_remove : (ini.remove key).entries = drop tables ini.entries key := by
  unfold remove drop
  split
  · next hindex =>
    refine (List.filter_eq_self.mpr fun e he => ?_).symm
    have := List.any_eq_false.mp (ini.indexed.any_eq_false hindex) e he
    simpa using this
  · next i hindex =>
    obtain ⟨f, hf, hlower⟩ := (ini.indexed _ i).mp hindex
    have hlt := (List.getElem?_eq_some_iff.mp hf).1
    show ini.entries.eraseIdx i = _
    have hsplit : ini.entries = ini.entries.take i ++ ini.entries.drop i := (List.take_append_drop i _).symm
    have hcons : ini.entries.drop i = f :: ini.entries.drop (i + 1) := by
      rw [List.drop_eq_getElem_cons hlt]
      congr 1
      exact (List.getElem?_eq_some_iff.mp hf).2
    have hbefore : (ini.entries.take i).filter (fun e => !e.named tables key) = ini.entries.take i := by
      refine List.filter_eq_self.mpr fun e he => ?_
      obtain ⟨j, hj⟩ := List.getElem?_of_mem he
      rw [List.getElem?_take] at hj
      split_ifs at hj with hji
      have := ini.indexed.named_iff hindex hj
      have hne : e.named tables key ≠ true := fun h => absurd (this.mp h) (by omega)
      simpa using hne
    have hafter : (ini.entries.drop (i + 1)).filter (fun e => !e.named tables key) = ini.entries.drop (i + 1) := by
      refine List.filter_eq_self.mpr fun e he => ?_
      obtain ⟨j, hj⟩ := List.getElem?_of_mem he
      rw [List.getElem?_drop] at hj
      have := ini.indexed.named_iff hindex hj
      have hne : e.named tables key ≠ true := fun h => absurd (this.mp h) (by omega)
      simpa using hne
    have hself : f.named tables key = true := (ini.indexed.named_iff hindex hf).mpr rfl
    conv_rhs => rw [hsplit, hcons, List.filter_append, hbefore, List.filter_cons_of_neg (by simp [hself]), hafter]
    exact List.eraseIdx_eq_take_drop_succ ini.entries i

/-- **`get` finds the value under a key.** -/
theorem get_eq_find : ini.get key = find tables ini.entries key := by
  unfold get find
  cases hindex : ini.index (toLowercase tables key) with
  | none =>
    have hany := ini.indexed.any_eq_false hindex
    have hnone : ini.entries.find? (Entry.named tables key) = none :=
      List.find?_eq_none.mpr fun e he => by simpa using List.any_eq_false.mp hany e he
    rw [hnone]
    rfl
  | some i =>
    obtain ⟨f, hf, hlower⟩ := (ini.indexed _ i).mp hindex
    have hfound : (ini.entries.find? (Entry.named tables key)) = some f := by
      cases hfind : ini.entries.find? (Entry.named tables key) with
      | none => exact absurd ((ini.indexed.named_iff hindex hf).mpr rfl) (List.find?_eq_none.mp hfind f (List.mem_of_getElem? hf))
      | some e =>
        obtain ⟨j, hj⟩ := List.getElem?_of_mem (List.mem_of_find?_eq_some hfind)
        have hji := (ini.indexed.named_iff hindex hj).mp (List.find?_some hfind)
        rw [← hj, hji, hf]
    rw [hfound, Option.bind_some, hf]

@[simp] theorem entries_set : (ini.set key v).entries = put tables ini.entries key v := ini.entries_insert key v

@[simp] theorem formatError_insert : (ini.insert key v).formatError = ini.formatError := by
  unfold insert
  split <;> rfl

@[simp] theorem entries_recordError (line : Nat) (kind : FormatErrorKind) :
    (ini.recordError line kind).entries = ini.entries := by
  unfold recordError
  split_ifs <;> rfl

theorem formatError_recordError (line : Nat) (kind : FormatErrorKind) :
    (ini.recordError line kind).formatError ≠ none := by
  unfold recordError
  split_ifs with h
  · exact Option.some_ne_none _
  · exact h

end IniFile

end Cao.Ini
