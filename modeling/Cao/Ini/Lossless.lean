import Cao.Ini.Ordered
import Cao.Ini.Saved

/-!
# A saved file is loaded again

Settings through a load, a save and a load again (`cao_profiles::ini`).

* **`written_parse`**, `formatError_parse`, **`entries_of_distinct`**: what is parsed, by the records of its lines;
* `KeptKey`, **`saved_entries`**, **`get_saved`**: what is read back of settings whose keys a save keeps;
* `Lossless`, **`load_save_load_iff`**: a load, save and load loses nothing exactly where every key is one of them;
* `Value.Built`, **`set_saved`**: a value that is set is read back, but for the form of text that holds NUL.
-/

namespace Cao.Ini

variable {tables : CaseTables}

/-! ## What is parsed can be written -/

/-- A record whose value a file can hold. -/
def Record.Written : Record → Prop
  | .error _ _ => True
  | .assign _ v => v.Written

theorem written_readLine {data : Bytes} {utf8 : Bool} {s : Reader (List Record)} (hs : ∀ record ∈ s.out, record.Written)
    (line : Line) (rest : Bytes) :
    ∀ record ∈ (s.readLine tables (fun out record => out ++ [record]) data utf8 line rest).out, record.Written := by
  have hpush : ∀ record : Record, record.Written → ∀ r ∈ s.out ++ [record], r.Written := by
    intro record hrecord r hr
    rw [List.mem_append, List.mem_singleton] at hr
    obtain hr | rfl := hr
    · exact hs r hr
    · exact hrecord
  unfold Reader.readLine
  by_cases hsection : line.text.head? = some (byte '[')
  · rw [if_pos hsection]
    dsimp only
    split_ifs
    · exact hs
    · exact hpush _ trivial
  · rw [if_neg hsection]
    cases line.equals with
    | none =>
      dsimp only
      split_ifs
      · exact hs
      · exact hpush _ trivial
    | some equals => exact hpush _ (written_readValue _ _)

theorem written_records (tables : CaseTables) (data : Bytes) : ∀ record ∈ records tables data, record.Written := by
  have hrun : ∀ (utf8 : Bool) (s : Reader (List Record)), (∀ record ∈ s.out, record.Written) →
      ∀ record ∈ recorded tables data utf8 s, record.Written := by
    intro utf8 s hs
    refine @Loop.run_invariant _ _ (Reader.loop tables (fun out record => out ++ [record]) data utf8)
      (fun s => ∀ record ∈ s.out, record.Written) (fun out => ∀ record ∈ out, record.Written)
      (fun s s' hs hnext => ?_) (fun s out hs hdone => ?_) s hs
    · have hstep : s.step tables (fun out record => out ++ [record]) data utf8 = .next s' := hnext
      unfold Reader.step at hstep
      split at hstep
      · cases hstep
      · cases hstep
        exact written_readLine hs _ _
    · have hstep : s.step tables (fun out record => out ++ [record]) data utf8 = .done out := hdone
      unfold Reader.step at hstep
      split at hstep
      · cases hstep
        exact hs
      · cases hstep
  unfold records readWith
  split_ifs
  · exact hrun true _ fun _ h => by cases h
  · exact hrun _ _ fun _ h => by cases h

/-! ## Settings made of records -/

/-- The entry of a key among those under its lowercase. -/
theorem mem_put {entries : List Entry} {key : Text} {v : Value} {e : Entry} (h : e ∈ put tables entries key v) :
    (e.value = v ∨ e ∈ entries) ∧ (e.key = key ∨ ∃ e' ∈ entries, e'.key = e.key) := by
  unfold put at h
  split_ifs at h
  · obtain ⟨e', he', rfl⟩ := List.mem_map.mp h
    split_ifs
    · exact ⟨.inl rfl, .inr ⟨e', he', rfl⟩⟩
    · exact ⟨.inr he', .inr ⟨e', he', rfl⟩⟩
  · rw [List.mem_append, List.mem_singleton] at h
    obtain h | rfl := h
    · exact ⟨.inr h, .inr ⟨e, h, rfl⟩⟩
    · exact ⟨.inl rfl, .inl rfl⟩

theorem entries_record (ini : IniFile tables) (record : Record) : (ini.record record).entries =
    match record with
    | .error _ _ => ini.entries
    | .assign key v => put tables ini.entries key v := by
  cases record with
  | error line kind => exact ini.entries_recordError line kind
  | assign key v => exact ini.entries_insert key v

/-- Every entry is some record's: its key one's, and its value one's. -/
theorem mem_parse {data : Bytes} {e : Entry} (h : e ∈ (parse tables data).entries) :
    (∃ key, .assign key e.value ∈ records tables data) ∧ ∃ v, .assign e.key v ∈ records tables data := by
  unfold parse at h
  rw [readWith_eq_foldl] at h
  generalize records tables data = read at h ⊢
  induction read using List.reverseRecOn generalizing e with
  | nil => cases h
  | append_singleton read record ih =>
    have hearlier : ∀ e ∈ (read.foldl IniFile.record (IniFile.new tables)).entries,
        (∃ key, .assign key e.value ∈ read ++ [record]) ∧ ∃ v, .assign e.key v ∈ read ++ [record] := by
      intro e he
      obtain ⟨⟨key, hkey⟩, v, hv⟩ := ih he
      exact ⟨⟨key, List.mem_append_left _ hkey⟩, v, List.mem_append_left _ hv⟩
    rw [List.foldl_append, List.foldl_cons, List.foldl_nil, entries_record] at h
    cases record with
    | error line kind => exact hearlier e h
    | assign key v =>
      have hlast : (Record.assign key v) ∈ read ++ [Record.assign key v] := List.mem_append_right _ List.mem_cons_self
      obtain ⟨hvalue, hkey⟩ := mem_put h
      refine ⟨?_, ?_⟩
      · obtain hvalue | he := hvalue
        · exact ⟨key, hvalue ▸ hlast⟩
        · exact (hearlier e he).1
      · obtain hkey | ⟨e', he', heq⟩ := hkey
        · exact ⟨v, hkey ▸ hlast⟩
        · exact heq ▸ (hearlier e' he').2

/-- **What is parsed can be written.** -/
theorem written_parse {data : Bytes} {e : Entry} (h : e ∈ (parse tables data).entries) : e.value.Written := by
  obtain ⟨⟨key, hkey⟩, -⟩ := mem_parse h
  exact written_records tables data _ hkey

/-- A file has a format error where one of its lines records one. -/
theorem formatError_parse (data : Bytes) : (parse tables data).formatError = none ↔
    ∀ line kind, .error line kind ∉ records tables data := by
  unfold parse
  rw [readWith_eq_foldl]
  induction records tables data using List.reverseRecOn with
  | nil => simp [IniFile.new]
  | append_singleton read record ih =>
    rw [List.foldl_append, List.foldl_cons, List.foldl_nil]
    cases record with
    | error line kind =>
      have herror : ((read.foldl IniFile.record (IniFile.new tables)).recordError line kind).formatError ≠ none :=
        IniFile.formatError_recordError _ line kind
      refine iff_of_false herror fun h => h line kind (List.mem_append_right _ List.mem_cons_self)
    | assign key v =>
      have hsame : ((read.foldl IniFile.record (IniFile.new tables)).insert key v).formatError =
          (read.foldl IniFile.record (IniFile.new tables)).formatError := IniFile.formatError_insert _ key v
      show ((read.foldl IniFile.record (IniFile.new tables)).insert key v).formatError = none ↔ _
      rw [hsame, ih]
      simp

/-- What an entry assigns. -/
def Entry.record (e : Entry) : Record := .assign e.key e.value

/-- **Keys that differ are all kept, in order.** -/
theorem entries_of_distinct {data : Bytes} {entries : List Entry} (hrecords : records tables data = entries.map Entry.record)
    (hdistinct : Distinct tables entries) : (parse tables data).entries = entries := by
  unfold parse
  rw [readWith_eq_foldl, hrecords]
  clear hrecords
  induction entries using List.reverseRecOn with
  | nil => rfl
  | append_singleton entries e ih =>
    unfold Distinct at hdistinct ih
    rw [List.map_append, List.nodup_append] at hdistinct
    rw [List.map_append, List.foldl_append]
    show (((entries.map Entry.record).foldl IniFile.record (IniFile.new tables)).insert e.key e.value).entries = _
    rw [IniFile.entries_insert, ih hdistinct.1]
    have hnew : entries.any (Entry.named tables e.key) ≠ true := by
      intro hany
      obtain ⟨e', he', hnamed⟩ := List.any_eq_true.mp hany
      unfold Entry.named at hnamed
      exact hdistinct.2.2 _ (List.mem_map_of_mem he') _ (List.mem_singleton_self _) (by simpa using hnamed)
    unfold put
    rw [if_neg hnew]

/-! ## What is found -/

theorem Distinct.eq_of_lower {entries : List Entry} (h : Distinct tables entries) {e e' : Entry} (he : e ∈ entries)
    (he' : e' ∈ entries) (hkey : toLowercase tables e.key = toLowercase tables e'.key) : e = e' :=
  List.inj_on_of_nodup_map h he he' hkey

theorem find_eq_some {entries : List Entry} (h : Distinct tables entries) {key : Text} {v : Value} :
    find tables entries key = some v ↔ ∃ e ∈ entries, toLowercase tables e.key = toLowercase tables key ∧ e.value = v := by
  unfold find
  rw [Option.map_eq_some_iff]
  constructor
  · rintro ⟨e, he, hv⟩
    exact ⟨e, List.mem_of_find?_eq_some he, by simpa [Entry.named] using List.find?_some he, hv⟩
  · rintro ⟨e, he, hkey, hv⟩
    refine ⟨e, ?_, hv⟩
    have hsome : (entries.find? (Entry.named tables key)).isSome = true := by
      rw [List.find?_isSome]
      exact ⟨e, he, by simpa [Entry.named] using hkey⟩
    obtain ⟨e', hfind⟩ := Option.isSome_iff_exists.mp hsome
    have hkey' : toLowercase tables e'.key = toLowercase tables key := by simpa [Entry.named] using List.find?_some hfind
    rw [hfind, h.eq_of_lower (List.mem_of_find?_eq_some hfind) he (hkey'.trans hkey.symm)]

/-! ## Keys that a save keeps -/

/-- **A key that a save keeps**: it begins with no `/`, and its name ends in an even number of them. -/
structure KeptKey (key : Text) : Prop where
  lead : key.head? ≠ some '/'
  closed : ¬OpenName (nameOf key)

theorem keptKey_of_kept {key : Text} (h : KeptKey key) : keptKey key = key := if_neg h.lead

/-- What is read back of an entry. -/
structure SameEntry (tables : CaseTables) (e e' : Entry) : Prop where
  key : toLowercase tables e'.key = toLowercase tables (keptKey e.key)
  value : e.value.Written → e'.value = e.value.kept

theorem assigned_of_readBack {entries : List Entry} {read : List Record} (h : List.Forall₂ (ReadBack tables) entries read)
    (hclosed : ∀ e ∈ entries, ¬OpenName (nameOf e.key)) :
    ∃ entries', read = entries'.map Entry.record ∧ List.Forall₂ (SameEntry tables) entries entries' := by
  induction h with
  | nil => exact ⟨[], rfl, .nil⟩
  | @cons e record entries read hback _ ih =>
    obtain ⟨entries', rfl, hsame⟩ := ih fun e' he' => hclosed e' (List.mem_cons_of_mem _ he')
    cases hback with
    | @assign key v _ hkey hvalue => exact ⟨⟨key, v⟩ :: entries', rfl, .cons ⟨hkey, hvalue⟩ hsame⟩
    | error hopen => exact absurd hopen (hclosed e List.mem_cons_self)

/-- **What is read back of settings whose keys a save keeps**: each entry, in the order of its section. -/
theorem saved_entries (ini : IniFile tables) (hkept : ∀ e ∈ ini.entries, KeptKey e.key) :
    (parse tables (serialize ini)).formatError = none ∧
      List.Forall₂ (SameEntry tables) (grouped ini.entries) (parse tables (serialize ini)).entries ∧
      (parse tables (serialize ini)).keys.map (toLowercase tables) =
        (grouped ini.entries).map fun e => toLowercase tables e.key := by
  have hgrouped : ∀ e ∈ grouped ini.entries, KeptKey e.key := fun e he =>
    hkept e ((grouped_perm ini.entries).mem_iff.mp he)
  obtain ⟨entries', hrecords, hsame⟩ := assigned_of_readBack (records_serialize ini) fun e he => (hgrouped e he).closed
  have hlower : ∀ {es es' : List Entry}, List.Forall₂ (SameEntry tables) es es' → (∀ e ∈ es, KeptKey e.key) →
      es'.map (fun e => toLowercase tables e.key) = es.map fun e => toLowercase tables e.key := by
    intro es es' h
    induction h with
    | nil => exact fun _ => rfl
    | @cons e e' es es' he _ ih =>
      intro hkeys
      rw [List.map_cons, List.map_cons, ih fun e he => hkeys e (List.mem_cons_of_mem _ he), he.key,
        keptKey_of_kept (hkeys e List.mem_cons_self)]
  have hlower := hlower hsame hgrouped
  have hdistinct : Distinct tables entries' := by
    unfold Distinct
    rw [hlower]
    exact ((grouped_perm ini.entries).map _).nodup_iff.mpr ini.distinct
  have hentries := entries_of_distinct hrecords hdistinct
  refine ⟨?_, ?_, ?_⟩
  · rw [formatError_parse, hrecords]
    intro line kind herror
    obtain ⟨e, -, he⟩ := List.mem_map.mp herror
    cases he
  · rw [hentries]
    exact hsame
  · unfold IniFile.keys
    rw [hentries, List.map_map]
    exact hlower

/-- **What is found again under a key.** -/
theorem get_saved (ini : IniFile tables) (hkept : ∀ e ∈ ini.entries, KeptKey e.key) (key : Text) :
    (∀ v, v.Written → ini.get key = some v → (parse tables (serialize ini)).get key = some v.kept) ∧
      (ini.get key = none → (parse tables (serialize ini)).get key = none) := by
  obtain ⟨-, hsame, -⟩ := saved_entries ini hkept
  have hmem : ∀ e, e ∈ grouped ini.entries ↔ e ∈ ini.entries := fun e => (grouped_perm ini.entries).mem_iff
  constructor
  · intro v hwritten hget
    rw [IniFile.get_eq_find, find_eq_some ini.distinct] at hget
    obtain ⟨e, he, hkey, rfl⟩ := hget
    obtain ⟨e', he', hsame'⟩ := exists_of_forall₂ hsame ((hmem e).mpr he)
    rw [IniFile.get_eq_find, find_eq_some (IniFile.distinct _)]
    refine ⟨e', he', ?_, hsame'.value hwritten⟩
    rw [hsame'.key, keptKey_of_kept (hkept e he), hkey]
  · intro hget
    rw [Option.eq_none_iff_forall_ne_some] at hget ⊢
    intro v hfound
    rw [IniFile.get_eq_find, find_eq_some (IniFile.distinct _)] at hfound
    obtain ⟨e', he', hkey, -⟩ := hfound
    obtain ⟨e, he, hsame'⟩ := exists_of_forall₂ hsame.flip he'
    have he := (hmem e).mp he
    refine hget e.value ?_
    rw [IniFile.get_eq_find, find_eq_some ini.distinct]
    exact ⟨e, he, by rw [← keptKey_of_kept (hkept e he), ← hsame'.key, hkey], rfl⟩

/-! ## Loading what was saved -/

/-- **Loading saved settings loses nothing**: no line is rejected, the keys are those of the sections in order, and no getter
tells the values apart. -/
structure Lossless (ini again : IniFile tables) : Prop where
  formatError : again.formatError = none
  keys : again.keys.map (toLowercase tables) = (grouped ini.entries).map fun e => toLowercase tables e.key
  readings : ∀ key, Value.SameReadings (ini.value key) (again.value key)

theorem exists_bound (l : List Nat) : ∃ bound, ∀ n ∈ l, n ≤ bound := by
  induction l with
  | nil => exact ⟨0, fun _ h => by cases h⟩
  | cons n l ih =>
    obtain ⟨bound, hbound⟩ := ih
    refine ⟨n + bound, fun m hm => ?_⟩
    obtain rfl | hm := List.mem_cons.mp hm
    · omega
    · exact Nat.le_trans (hbound m hm) (Nat.le_add_left _ _)

/-- Where the keys are read back, one that begins with a `/` is that of another, with one more. -/
theorem longer_of_lead {ini : IniFile tables} (hkeys : (parse tables (serialize ini)).keys.map (toLowercase tables) =
      (grouped ini.entries).map fun e => toLowercase tables e.key)
    {e : Entry} (he : e ∈ ini.entries) (hlead : e.key.head? = some '/') :
    ∃ f ∈ ini.entries, f.key.head? = some '/' ∧
      (toLowercase tables f.key).length = (toLowercase tables e.key).length + 1 := by
  have hmem : ∀ e, e ∈ grouped ini.entries ↔ e ∈ ini.entries := fun e => (grouped_perm ini.entries).mem_iff
  have hread : toLowercase tables e.key ∈ (parse tables (serialize ini)).keys.map (toLowercase tables) := by
    rw [hkeys]
    exact List.mem_map_of_mem (f := fun e => toLowercase tables e.key) ((hmem e).mpr he)
  obtain ⟨key, hkey, hlower⟩ := List.mem_map.mp hread
  obtain ⟨e', he', rfl⟩ := List.mem_map.mp hkey
  obtain ⟨-, v, hrecord⟩ := mem_parse he'
  obtain ⟨f, hf, hback⟩ := exists_of_forall₂ (records_serialize ini).flip hrecord
  have hf := (hmem f).mp hf
  have hsame : toLowercase tables e'.key = toLowercase tables (keptKey f.key) := by
    cases hback with
    | assign _ hsame _ => exact hsame
  rw [hlower] at hsame
  unfold keptKey at hsame
  split_ifs at hsame with hslash
  · refine ⟨f, hf, hslash, ?_⟩
    obtain ⟨rest, hrest⟩ : ∃ rest, f.key = '/' :: rest := by
      cases hkey : f.key with
      | nil => rw [hkey] at hslash; cases hslash
      | cons c rest =>
        rw [hkey] at hslash
        obtain rfl := Option.some.inj hslash
        exact ⟨rest, rfl⟩
    have hdivides := @toLowercase_slash tables [] rest
    rw [hsame, hrest, List.tail_cons, show '/' :: rest = [] ++ '/' :: rest from rfl, hdivides]
    rfl
  · obtain rfl := ini.distinct.eq_of_lower he hf hsame
    exact absurd hlead hslash

/-- **A save loses nothing exactly where it keeps every key.** -/
theorem load_save_load_iff (tables : CaseTables) (data : Bytes) :
    Lossless (parse tables data) (parse tables (serialize (parse tables data))) ↔
      ∀ key ∈ (parse tables data).keys, KeptKey key := by
  generalize hini : parse tables data = ini
  have hwritten : ∀ e ∈ ini.entries, e.value.Written := fun e he => written_parse (hini ▸ he)
  have hkeys : (∀ key ∈ ini.keys, KeptKey key) ↔ ∀ e ∈ ini.entries, KeptKey e.key := List.forall_mem_map
  rw [hkeys]
  constructor
  · intro h
    have hclosed : ∀ e ∈ ini.entries, ¬OpenName (nameOf e.key) := by
      intro e he hopen
      have herrors := (formatError_parse _).mp h.formatError
      obtain ⟨record, hrecord, hback⟩ := exists_of_forall₂ (records_serialize ini) ((grouped_perm ini.entries).mem_iff.mpr he)
      cases hback with
      | assign hclosed _ _ => exact hclosed hopen
      | error _ => exact herrors _ _ hrecord
    refine fun e he => ⟨fun hlead => ?_, hclosed e he⟩
    -- Keys with a leading `/` would go on growing.
    have hgrows : ∀ n, ∃ f ∈ ini.entries, f.key.head? = some '/' ∧ n ≤ (toLowercase tables f.key).length := by
      intro n
      induction n with
      | zero => exact ⟨e, he, hlead, Nat.zero_le _⟩
      | succ n ih =>
        obtain ⟨f, hf, hslash, hn⟩ := ih
        obtain ⟨g, hg, hslash', hlonger⟩ := longer_of_lead h.keys hf hslash
        exact ⟨g, hg, hslash', by omega⟩
    obtain ⟨bound, hbound⟩ := exists_bound (ini.entries.map fun e => (toLowercase tables e.key).length)
    obtain ⟨f, hf, -, hn⟩ := hgrows (bound + 1)
    have := hbound _ (List.mem_map_of_mem hf)
    omega
  · intro hkept
    obtain ⟨herror, -, hlower⟩ := saved_entries ini hkept
    refine ⟨herror, hlower, fun key => ?_⟩
    obtain ⟨hsome, hnone⟩ := get_saved ini hkept key
    unfold IniFile.value
    cases hget : ini.get key with
    | none => rw [hnone hget]; exact .refl _
    | some v =>
      have hv : v.Written := by
        rw [IniFile.get_eq_find, find_eq_some ini.distinct] at hget
        obtain ⟨e, he, -, rfl⟩ := hget
        exact hwritten e he
      rw [hsome v hv hget]
      exact Value.sameReadings_kept v

/-- **A key under a section with no name is not kept.** -/
theorem unnamed_section_lost : ¬Lossless (parse .ascii (bytes "[]\r\nk=v".toList))
    (parse .ascii (serialize (parse .ascii (bytes "[]\r\nk=v".toList)))) := by
  intro h
  exact absurd h.keys (by decide +kernel)

/-! ## Editing settings -/

/-- Keys that are set, or removed, in order. -/
def IniFile.edit (ini : IniFile tables) (edits : List Edit) : IniFile tables :=
  edits.foldl (fun ini edit => match edit.2 with | some v => ini.set edit.1 v | none => ini.remove edit.1) ini

theorem IniFile.edit_concat (ini : IniFile tables) (edits : List Edit) (edit : Edit) : ini.edit (edits ++ [edit]) =
    match edit.2 with | some v => (ini.edit edits).set edit.1 v | none => (ini.edit edits).remove edit.1 := by
  unfold IniFile.edit
  rw [List.foldl_append]
  rfl

/-- What one more edit leaves under each key. -/
theorem IniFile.get_edit_concat (ini : IniFile tables) (edits : List Edit) (edit : Edit) (key : Text) :
    (ini.edit (edits ++ [edit])).get key =
      if toLowercase tables key = toLowercase tables edit.1 then edit.2 else (ini.edit edits).get key := by
  obtain ⟨k, v⟩ := edit
  rw [ini.edit_concat]
  cases v with
  | some v => exact (ini.edit edits).get_insert k key v
  | none => exact (ini.edit edits).get_remove k key

/-- **Each edited key holds what its edit gives it**, and the others what they held. -/
theorem get_edit (ini : IniFile tables) {edits : List Edit} (hdistinct : (edits.map fun edit => toLowercase tables edit.1).Nodup) :
    (∀ edit ∈ edits, (ini.edit edits).get edit.1 = edit.2) ∧
      ∀ key, (∀ edit ∈ edits, toLowercase tables key ≠ toLowercase tables edit.1) → (ini.edit edits).get key = ini.get key := by
  induction edits using List.reverseRecOn with
  | nil => exact ⟨fun _ h => absurd h List.not_mem_nil, fun _ _ => rfl⟩
  | append_singleton edits edit ih =>
    rw [List.map_append, List.nodup_append] at hdistinct
    obtain ⟨hedits, hothers⟩ := ih hdistinct.1
    constructor
    · intro e he
      rw [ini.get_edit_concat]
      rw [List.mem_append, List.mem_singleton] at he
      obtain he | rfl := he
      · have hne : toLowercase tables e.1 ≠ toLowercase tables edit.1 :=
          hdistinct.2.2 _ (List.mem_map_of_mem he) _ (List.mem_singleton_self _)
        rw [if_neg hne]
        exact hedits e he
      · exact if_pos rfl
    · intro key hkey
      rw [ini.get_edit_concat, if_neg (hkey edit (List.mem_append_right _ List.mem_cons_self))]
      exact hothers key fun e he => hkey e (List.mem_append_left _ he)

theorem kept_edit {ini : IniFile tables} (hini : ∀ e ∈ ini.entries, KeptKey e.key) {edits : List Edit}
    (hedits : ∀ edit ∈ edits, KeptKey edit.1) : ∀ e ∈ (ini.edit edits).entries, KeptKey e.key := by
  induction edits using List.reverseRecOn with
  | nil => exact hini
  | append_singleton edits edit ih =>
    have ih := ih fun e he => hedits e (List.mem_append_left _ he)
    have hedit := hedits edit (List.mem_append_right _ List.mem_cons_self)
    intro e he
    obtain ⟨k, v⟩ := edit
    rw [ini.edit_concat] at he
    cases v with
    | some v =>
      have he : e ∈ put tables (ini.edit edits).entries k v := IniFile.entries_set _ k v ▸ he
      obtain rfl | ⟨e', he', heq⟩ := (mem_put he).2
      · exact hedit
      · exact heq ▸ ih e' he'
    | none =>
      have he : e ∈ drop tables (ini.edit edits).entries k := IniFile.entries_remove _ k ▸ he
      exact ih e (List.mem_filter.mp he).1

/-- **What is read back of edited settings**: no getter tells it from what an edit gave, or from what was there. -/
theorem edit_saved {ini : IniFile tables} (hini : ∀ e ∈ ini.entries, KeptKey e.key ∧ e.value.Written) {edits : List Edit}
    (hdistinct : (edits.map fun edit => toLowercase tables edit.1).Nodup)
    (hedits : ∀ edit ∈ edits, KeptKey edit.1 ∧ ∀ v, edit.2 = some v → v.Written) :
    (∀ edit ∈ edits, Value.SameReadings (edit.2.getD .invalid) ((parse tables (serialize (ini.edit edits))).value edit.1)) ∧
      ∀ key, (∀ edit ∈ edits, toLowercase tables key ≠ toLowercase tables edit.1) →
        Value.SameReadings (ini.value key) ((parse tables (serialize (ini.edit edits))).value key) := by
  have hkept := kept_edit (fun e he => (hini e he).1) fun edit he => (hedits edit he).1
  have hsaved : ∀ (key : Text) (v : Option Value), (ini.edit edits).get key = v → (∀ w, v = some w → w.Written) →
      Value.SameReadings (v.getD .invalid) ((parse tables (serialize (ini.edit edits))).value key) := by
    intro key v hget hwritten
    obtain ⟨hsome, hnone⟩ := get_saved _ hkept key
    unfold IniFile.value
    cases v with
    | none => rw [hnone hget]; exact .refl _
    | some w => rw [hsome w (hwritten w rfl) hget]; exact Value.sameReadings_kept w
  obtain ⟨hedited, hothers⟩ := get_edit ini hdistinct
  refine ⟨fun edit he => hsaved edit.1 edit.2 (hedited edit he) (hedits edit he).2, fun key hkey => ?_⟩
  refine hsaved key (ini.get key) (hothers key hkey) fun w hget => ?_
  rw [IniFile.get_eq_find, find_eq_some ini.distinct] at hget
  obtain ⟨e, he, -, rfl⟩ := hget
  exact (hini e he).2

/-! ## Setting a value -/

namespace Value

/-- `From<bool>`. -/
def ofBool (b : Bool) : Value := string (if b then "true".toList else "false".toList)

/-- `From<i32>` and `From<i64>`. -/
def ofInt (i : Int) : Value := string (intText i)

/-- `From<u32>`. -/
def ofNat (n : Nat) : Value := string (natText n)

/-- A value that is built by its constructors. -/
inductive Built : Value → Prop
  | string (text : Text) : Built (.string text)
  | bool (b : Bool) : Built (ofBool b)
  | i32 (i : Int32) : Built (ofInt i.toInt)
  | u32 (n : UInt32) : Built (ofNat n.toNat)
  | i64 (i : Int64) : Built (ofInt i.toInt)
  | intList (values : List Int32) : Built (intList values)
  | list {elements : List Value} : 2 ≤ elements.length → (∀ v ∈ elements, Scalar v) → Built (.list elements)

theorem written_intList (values : List Int32) : (intList values).Written := by
  unfold intList
  match values with
  | [] => exact .scalar .invalid
  | [value] =>
    refine .scalar (.encoded ⟨List.getLast?_concat .., List.any_eq_true.mpr ⟨variantOpening, by simp [encodings], ?_⟩⟩)
    rw [List.isPrefixOf_iff_prefix, List.append_assoc]
    exact List.prefix_append _ _
  | first :: second :: values =>
    refine .list (by simp) fun v hv => ?_
    obtain ⟨i, -, rfl⟩ := List.mem_map.mp hv
    exact .string _

theorem Built.written {v : Value} (h : v.Built) : v.Written := by
  cases h with
  | intList values => exact written_intList values
  | list htwo hscalars => exact .list htwo hscalars
  | _ => exact .scalar (.string _)

/-- An entry of a list as it is read back: itself, or the `@String(…)` of text that holds NUL. -/
def EntryKept (v w : Value) : Prop := w = v ∨ ∃ text, '\x00' ∈ text ∧ v = string text ∧ w = encoded (nulText text)

theorem entryKept_keptScalar (v : Value) : EntryKept v v.keptScalar := by
  cases v with
  | string text =>
    by_cases hnul : '\x00' ∈ text
    · exact .inr ⟨text, hnul, rfl, if_pos hnul⟩
    · exact .inl (if_neg hnul)
  | _ => exact .inl rfl

theorem listEntries_kept (v : Value) : Option.Rel (List.Forall₂ EntryKept) v.listEntries v.kept.listEntries := by
  have hrefl : ∀ entries : Option (List Value), Option.Rel (List.Forall₂ EntryKept) entries entries := by
    intro entries
    cases entries with
    | none => exact .none
    | some entries => exact .some (List.forall₂_same.mpr fun v _ => .inl rfl)
  cases v with
  | list elements =>
    refine .some ?_
    rw [List.forall₂_map_right_iff]
    exact List.forall₂_same.mpr fun v _ => entryKept_keptScalar v
  | string text =>
    by_cases hnul : '\x00' ∈ text
    · rw [show (string text).kept = encoded (nulText text) from if_pos hnul, @listEntries_of_text (string text) text rfl rfl,
        listEntries_of_text (asStr_nulText text) (variantPayload_nulText text)]
      split_ifs
      · exact .some .nil
      · exact .some (.cons (.inr ⟨text, hnul, rfl, rfl⟩) .nil)
    · rw [show (string text).kept = string text from if_neg hnul]
      exact hrefl _
  | _ => exact hrefl _

end Value

/-- A key whose section, if it has one, and whose name are not empty and hold no `/`. -/
def PlainKey (key : Text) : Prop := (key ≠ [] ∧ '/' ∉ key) ∨
  ∃ group name, group ≠ [] ∧ name ≠ [] ∧ '/' ∉ group ∧ '/' ∉ name ∧ key = group ++ '/' :: name

theorem splitOnce_append {c : Char} {before : Text} (h : c ∉ before) (after : Text) :
    splitOnce c (before ++ c :: after) = some (before, after) := by
  induction before with
  | nil => exact if_pos rfl
  | cons x before ih =>
    rw [List.mem_cons, not_or] at h
    rw [List.cons_append, splitOnce, if_neg (Ne.symm h.1), ih h.2]
    rfl

theorem not_openName {name : Text} (h : '/' ∉ name) : ¬OpenName name := by
  unfold OpenName
  cases name with
  | nil => decide
  | cons c name =>
    have := endRun_append_of_notMem [] (List.cons_ne_nil c name) h
    rw [List.nil_append] at this
    omega

/-- **Such a key is kept by a save.** -/
theorem PlainKey.kept {key : Text} (h : PlainKey key) : KeptKey key := by
  obtain ⟨-, hslash⟩ | ⟨group, name, hgroup, -, hslash, hname, rfl⟩ := h
  · refine ⟨fun hhead => hslash (List.mem_of_mem_head? hhead), ?_⟩
    unfold nameOf
    rw [splitOnce_eq_none.mpr hslash]
    exact not_openName hslash
  · refine ⟨fun hhead => ?_, ?_⟩
    · rw [List.head?_append_of_ne_nil _ hgroup] at hhead
      exact hslash (List.mem_of_mem_head? hhead)
    · unfold nameOf
      rw [splitOnce_append hslash]
      exact not_openName hname

/-- What is found of a value that was set and saved. -/
theorem get_set_saved {ini : IniFile tables} (hini : ∀ k ∈ ini.keys, KeptKey k) {key : Text} (hkey : KeptKey key) {v : Value}
    (hv : v.Written) : (parse tables (serialize (ini.set key v))).get key = some v.kept := by
  have hkept : ∀ e ∈ (ini.set key v).entries, KeptKey e.key := by
    intro e he
    rw [IniFile.entries_set] at he
    obtain hown | ⟨e', he', heq⟩ := (mem_put he).2
    · exact hown ▸ hkey
    · exact heq ▸ hini _ (List.mem_map_of_mem he')
  exact (get_saved _ hkept key).1 v hv ((ini.get_insert key key v).trans (if_pos rfl))

/-- **A value that is set is read back from what is saved**: it has the same text and the same integers, and its list entries
are the same but for text that holds NUL, which is its `@String(…)` and reads as the same text. -/
theorem set_saved {ini : IniFile tables} (hini : ∀ k ∈ ini.keys, KeptKey k) {key : Text} (hkey : PlainKey key) {v : Value}
    (hv : v.Built) :
    let read := (parse tables (serialize (ini.set key v))).value key
    read.toQstring = v.toQstring ∧ read.toIntList = v.toIntList ∧
      Option.Rel (List.Forall₂ Value.EntryKept) v.listEntries read.listEntries ∧
      v.listEntries.map (·.map Value.readings) = read.listEntries.map (·.map Value.readings) := by
  intro read
  have hread : read = v.kept := by
    show ((parse tables (serialize (ini.set key v))).get key).getD .invalid = _
    rw [get_set_saved hini hkey.kept hv.written, Option.getD_some]
  have hsame := Value.sameReadings_kept v
  rw [hread]
  exact ⟨hsame.toQstring.symm, hsame.toIntList.symm, v.listEntries_kept, hsame.entries⟩

theorem set_saved_sample :
    ((parse .ascii (serialize ((IniFile.new .ascii).set "Textures/a".toList (.intList [85])))).value
      "Textures/a".toList).toIntList = (Value.intList [85]).toIntList := by
  have hkey : PlainKey "Textures/a".toList :=
    .inr ⟨"Textures".toList, "a".toList, by decide, by decide, by decide, by decide, rfl⟩
  exact (set_saved (fun k hk => by cases hk) hkey (.intList [85])).2.1

/-- **Text that holds NUL comes back in another form.** -/
theorem set_saved_nul : ((parse .ascii (serialize ((IniFile.new .ascii).set ['k'] (.string ['\x00'])))).value ['k']).listEntries ≠
    (Value.string ['\x00']).listEntries := by
  have hkey : PlainKey ['k'] := .inl ⟨List.cons_ne_nil _ _, by decide⟩
  have hnew : ∀ k ∈ (IniFile.new CaseTables.ascii).keys, KeptKey k := fun k hk => by cases hk
  have hget := get_set_saved hnew hkey.kept (.scalar (.string ['\x00']))
  have hread : (parse .ascii (serialize ((IniFile.new .ascii).set ['k'] (.string ['\x00'])))).value ['k'] =
      .encoded (Value.nulText ['\x00']) := by
    unfold IniFile.value
    rw [hget, Option.getD_some]
    rfl
  rw [hread, Value.listEntries_of_text (Value.asStr_nulText _) (Value.variantPayload_nulText _),
    @Value.listEntries_of_text (.string ['\x00']) ['\x00'] rfl rfl]
  intro h
  have hne : trim ['\x00'] ≠ [] := by decide
  rw [if_neg hne, if_neg hne] at h
  cases h

end Cao.Ini
