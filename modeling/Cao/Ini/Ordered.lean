import Cao.Ini.Read

/-!
# Settings as an ordered map

A run of parses, sets and removes (`cao_profiles::ini`), as a map whose keys are compared by their lowercase and kept in the
order that they came in.

* `find_put`, `find_drop`, `others_put`, `keys_put`: what one edit does to the entries alone;
* `Operation`, `run`: a run, from no settings on; `history`, `lastSet`: the edits since the last parse, and the last of a key;
* **`get_run`**: a lookup returns the last value set;
* **`run_orderedMap`**: a run leaves an ordered map, whatever came before.
-/

namespace Cao.Ini

variable {tables : CaseTables}

/-! ## One edit of the entries -/

section Edits

variable {entries : List Entry} {key wanted : Text} {v : Value}

theorem named_congr (h : toLowercase tables key = toLowercase tables wanted) (e : Entry) :
    e.named tables key = e.named tables wanted := by
  unfold Entry.named
  rw [h]

/-- What is found under the key that a value is put under, and under the others. -/
theorem find_put : find tables (put tables entries key v) wanted =
    if toLowercase tables wanted = toLowercase tables key then some v else find tables entries wanted := by
  have hnamed : ∀ e : Entry, e.named tables key = true → ({ e with value := v } : Entry).named tables key = true := fun _ h => h
  unfold find put
  by_cases hkey : toLowercase tables wanted = toLowercase tables key
  · rw [if_pos hkey, show Entry.named tables wanted = Entry.named tables key from funext (named_congr hkey)]
    by_cases hany : entries.any (Entry.named tables key) = true
    · rw [if_pos hany]
      clear hkey
      induction entries with
      | nil => cases hany
      | cons e entries ih =>
        rw [List.map_cons]
        by_cases he : e.named tables key = true
        · rw [if_pos he, List.find?_cons_of_pos (hnamed e he)]
          rfl
        · rw [List.any_cons, Bool.or_eq_true] at hany
          rw [if_neg he, List.find?_cons_of_neg he]
          exact ih (hany.resolve_left he)
    · have hnone : entries.find? (Entry.named tables key) = none :=
        List.find?_eq_none.mpr fun e he hname => hany (List.any_eq_true.mpr ⟨e, he, hname⟩)
      have hnew : (⟨key, v⟩ : Entry).named tables key = true := beq_self_eq_true _
      rw [if_neg hany, List.find?_append, hnone, Option.none_or, List.find?_cons_of_pos hnew]
      rfl
  · have hother : ∀ e : Entry, e.named tables key = true → e.named tables wanted = false := by
      intro e he
      unfold Entry.named at he ⊢
      rw [beq_iff_eq] at he
      rw [he, beq_eq_false_iff_ne]
      exact Ne.symm hkey
    rw [if_neg hkey]
    by_cases hany : entries.any (Entry.named tables key) = true
    · rw [if_pos hany]
      clear hany
      induction entries with
      | nil => rfl
      | cons e entries ih =>
        rw [List.map_cons]
        by_cases he : e.named tables key = true
        · have hskip := hother e he
          have hskip' : ({ e with value := v } : Entry).named tables wanted = false := hskip
          rw [if_pos he, List.find?_cons_of_neg (by rw [hskip']; exact Bool.false_ne_true),
            List.find?_cons_of_neg (by rw [hskip]; exact Bool.false_ne_true), ih]
        · rw [if_neg he]
          by_cases hw : e.named tables wanted = true
          · rw [List.find?_cons_of_pos hw, List.find?_cons_of_pos hw]
          · rw [List.find?_cons_of_neg hw, List.find?_cons_of_neg hw, ih]
    · have hnew : (⟨key, v⟩ : Entry).named tables wanted = false := hother ⟨key, v⟩ (beq_self_eq_true _)
      rw [if_neg hany, List.find?_append, List.find?_cons_of_neg (by rw [hnew]; exact Bool.false_ne_true), List.find?_nil,
        Option.or_none]

/-- What is found under the key that is taken out, and under the others. -/
theorem find_drop : find tables (drop tables entries key) wanted =
    if toLowercase tables wanted = toLowercase tables key then none else find tables entries wanted := by
  unfold find drop
  rw [List.find?_filter]
  by_cases hkey : toLowercase tables wanted = toLowercase tables key
  · rw [if_pos hkey, show Entry.named tables wanted = Entry.named tables key from funext (named_congr hkey)]
    rw [List.find?_eq_none.mpr fun e _ => by simp]
    rfl
  · rw [if_neg hkey]
    refine congrArg (fun p => (entries.find? p).map Entry.value) (funext fun e => ?_)
    unfold Entry.named
    by_cases he : toLowercase tables e.key = toLowercase tables wanted
    · simp [he, hkey]
    · simp [he]

/-- **The entries under other keys keep their values, their spellings and their order.** -/
theorem others_put : (put tables entries key v).filter (fun e => !e.named tables key) =
    entries.filter fun e => !e.named tables key := by
  unfold put
  split_ifs with hany
  · clear hany
    induction entries with
    | nil => rfl
    | cons e entries ih =>
      rw [List.map_cons]
      by_cases he : e.named tables key = true
      · have hnamed : ({ e with value := v } : Entry).named tables key = true := he
        rw [if_pos he, List.filter_cons_of_neg (by simp [hnamed]), List.filter_cons_of_neg (by simp [he]), ih]
      · rw [if_neg he, List.filter_cons_of_pos (by simpa using he), List.filter_cons_of_pos (by simpa using he), ih]
  · rw [List.filter_append, List.filter_cons_of_neg (by simp [Entry.named])]
    simp

/-- **A key that is there keeps its spelling and its place**, and any other goes last. -/
theorem keys_put : (put tables entries key v).map Entry.key =
    if entries.any (Entry.named tables key) then entries.map Entry.key else entries.map Entry.key ++ [key] := by
  unfold put
  split_ifs with hany
  · rw [List.map_map]
    refine List.map_congr_left fun e _ => ?_
    show (if e.named tables key then _ else e).key = e.key
    split_ifs <;> rfl
  · rw [List.map_append]
    rfl

end Edits

/-! ## A run -/

namespace IniFile

variable (ini : IniFile tables)

/-- `contains`. -/
def contains (key : Text) : Bool := (ini.index (toLowercase tables key)).isSome

theorem contains_eq_any (key : Text) : ini.contains key = ini.entries.any (Entry.named tables key) := by
  unfold contains
  cases hindex : ini.index (toLowercase tables key) with
  | none => exact (ini.indexed.any_eq_false hindex).symm
  | some i =>
    obtain ⟨e, he, hlower⟩ := (ini.indexed _ i).mp hindex
    exact (List.any_eq_true.mpr ⟨e, List.mem_of_getElem? he, by simpa [Entry.named] using hlower⟩).symm

theorem get_insert (key wanted : Text) (v : Value) : (ini.insert key v).get wanted =
    if toLowercase tables wanted = toLowercase tables key then some v else ini.get wanted := by
  rw [get_eq_find, entries_insert, find_put, get_eq_find]

theorem get_remove (key wanted : Text) : (ini.remove key).get wanted =
    if toLowercase tables wanted = toLowercase tables key then none else ini.get wanted := by
  rw [get_eq_find, entries_remove, find_drop, get_eq_find]

theorem get_recordError (line : Nat) (kind : FormatErrorKind) (wanted : Text) :
    (ini.recordError line kind).get wanted = ini.get wanted := by
  rw [get_eq_find, entries_recordError, get_eq_find]

end IniFile

/-- An operation on the settings. -/
inductive Operation
  | parse (data : Bytes)
  | set (key : Text) (value : Value)
  | remove (key : Text)

/-- What an operation makes of the settings. -/
def IniFile.perform (ini : IniFile tables) : Operation → IniFile tables
  | .parse data => Ini.parse tables data
  | .set key value => ini.set key value
  | .remove key => ini.remove key

variable (tables)

/-- A run of operations, from no settings on. -/
def run (operations : List Operation) : IniFile tables := operations.foldl IniFile.perform (IniFile.new tables)

/-- An edit of one key: the value that it is given, or none where it is removed. -/
abbrev Edit := Text × Option Value

/-- The assignments of a file are edits. -/
def Record.edit : Record → Option Edit
  | .error _ _ => none
  | .assign key value => some (key, some value)

/-- The edits that an operation leaves in force: a parse begins anew. -/
def edited (before : List Edit) : Operation → List Edit
  | .parse data => (records tables data).filterMap Record.edit
  | .set key value => before ++ [(key, some value)]
  | .remove key => before ++ [(key, none)]

/-- The edits of a run since its last parse, with that parse's own. -/
def history (operations : List Operation) : List Edit := operations.foldl (edited tables) []

/-- What the last edit of a key, in any case, gave it. -/
def lastSet (edits : List Edit) (key : Text) : Option Value :=
  (edits.reverse.find? fun edit => toLowercase tables edit.1 == toLowercase tables key).bind Prod.snd

variable {tables}

theorem lastSet_concat (edits : List Edit) (edit : Edit) (key : Text) : lastSet tables (edits ++ [edit]) key =
    if toLowercase tables key = toLowercase tables edit.1 then edit.2 else lastSet tables edits key := by
  unfold lastSet
  rw [List.reverse_append, List.reverse_singleton, List.singleton_append, List.find?_cons]
  by_cases hkey : toLowercase tables key = toLowercase tables edit.1
  · rw [if_pos hkey, hkey, beq_self_eq_true]
    rfl
  · rw [if_neg hkey, beq_eq_false_iff_ne.mpr (Ne.symm hkey)]

/-- What is read of a file is what its lines last assigned. -/
theorem get_parse (data : Bytes) (key : Text) :
    (parse tables data).get key = lastSet tables ((records tables data).filterMap Record.edit) key := by
  unfold parse
  rw [readWith_eq_foldl]
  induction records tables data using List.reverseRecOn with
  | nil => rfl
  | append_singleton read record ih =>
    rw [List.foldl_append, List.filterMap_append]
    cases record with
    | error line kind =>
      rw [show [Record.error line kind].filterMap Record.edit = [] from rfl, List.append_nil]
      exact (IniFile.get_recordError _ line kind key).trans ih
    | assign name v =>
      rw [show [Record.assign name v].filterMap Record.edit = [(name, some v)] from rfl, lastSet_concat]
      refine (IniFile.get_insert _ name key v).trans ?_
      rw [ih]

/-- **A lookup returns the last value set for the key, in any case.** -/
theorem get_run (operations : List Operation) (key : Text) :
    (run tables operations).get key = lastSet tables (history tables operations) key := by
  unfold run history
  induction operations using List.reverseRecOn with
  | nil => rfl
  | append_singleton operations operation ih =>
    rw [List.foldl_append, List.foldl_append]
    cases operation with
    | parse data => exact get_parse data key
    | set name v =>
      refine (IniFile.get_insert _ name key v).trans ?_
      rw [ih]
      exact (lastSet_concat _ (name, some v) key).symm
    | remove name =>
      refine (IniFile.get_remove _ name key).trans ?_
      rw [ih]
      exact (lastSet_concat _ (name, none) key).symm

/-- **Settings are an ordered map** after any run: the index finds each entry by its lowercase key and nothing else, no two
entries share one, a lookup returns the last value set, and each further operation leaves every other key's value, spelling
and order. -/
theorem run_orderedMap (tables : CaseTables) (operations : List Operation) :
    let ini := run tables operations
    (∀ key, (∃ i, ini.index key = some i) ↔ ∃ entry ∈ ini.entries, toLowercase tables entry.key = key) ∧
      (∀ key (i : Nat), ini.index key = some i →
        ∃ entry, ini.entries[i]? = some entry ∧ toLowercase tables entry.key = key) ∧
      ini.entries.Pairwise (fun a b => toLowercase tables a.key ≠ toLowercase tables b.key) ∧
      (∀ key, ini.get key = lastSet tables (history tables operations) key) ∧
      (∀ key v, (ini.set key v).keys = if ini.contains key then ini.keys else ini.keys ++ [key]) ∧
      (∀ key v, (ini.set key v).entries.filter (fun entry => !entry.named tables key) =
        ini.entries.filter fun entry => !entry.named tables key) ∧
      (∀ key, (ini.remove key).entries = ini.entries.filter fun entry => !entry.named tables key) ∧
      (∀ key v wanted, toLowercase tables wanted ≠ toLowercase tables key →
        (ini.set key v).get wanted = ini.get wanted ∧ (ini.remove key).get wanted = ini.get wanted) := by
  intro ini
  refine ⟨fun key => ?_, fun key i => (ini.indexed key i).mp, ?_, get_run operations, fun key v => ?_, fun key v => ?_,
    ini.entries_remove, fun key v wanted hne => ⟨?_, ?_⟩⟩
  · constructor
    · rintro ⟨i, hi⟩
      obtain ⟨entry, hentry, hlower⟩ := (ini.indexed key i).mp hi
      exact ⟨entry, List.mem_of_getElem? hentry, hlower⟩
    · rintro ⟨entry, hmem, hlower⟩
      obtain ⟨i, hi⟩ := List.getElem?_of_mem hmem
      exact ⟨i, (ini.indexed key i).mpr ⟨entry, hi, hlower⟩⟩
  · exact List.pairwise_map.mp ini.distinct
  · unfold IniFile.keys
    rw [IniFile.entries_set, keys_put, ini.contains_eq_any]
  · rw [IniFile.entries_set, others_put]
  · exact (ini.get_insert key wanted v).trans (if_neg hne)
  · exact (ini.get_remove key wanted).trans (if_neg hne)

end Cao.Ini
