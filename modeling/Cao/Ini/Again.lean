import Cao.Ini.Lossless

/-!
# Files that are saved again and again

Keys that every later save keeps too (`cao_profiles::ini`). A section is read back in the spelling of the
first that has its name in any case, so such keys are told by their lowercase.

* `StableKey`, **`StableKey.kept`**: keys whose lowercase begins and ends in no `/`, which a save keeps;
* **`stable_saved`**, `forall_key_edit`: what is read back of a saved file has such keys again, and so have edited settings;
* `Steady`, **`steady_rewrite`**, **`read_rewrite`**: a file of such keys that is edited and saved is one again, and what it reads as.
-/

namespace Cao.Ini

variable {tables : CaseTables}

/-! ## Keys that stay -/

/-- A key that no number of saves loses: its lowercase begins and ends in no `/`. -/
structure StableKey (tables : CaseTables) (key : Text) : Prop where
  lead : (toLowercase tables key).head? ≠ some '/'
  last : (toLowercase tables key).getLast? ≠ some '/'

theorem StableKey.congr {key key' : Text} (hlower : toLowercase tables key' = toLowercase tables key) (h : StableKey tables key) :
    StableKey tables key' := ⟨hlower ▸ h.lead, hlower ▸ h.last⟩

/-- **Such a key is kept by a save.** -/
theorem StableKey.kept {key : Text} (h : StableKey tables key) : KeptKey key := by
  refine ⟨fun hlead => h.lead ?_, fun hopen => h.last ?_⟩
  · cases key with
    | nil => cases hlead
    | cons c rest =>
      cases hlead
      have hdivided := @toLowercase_slash tables [] rest
      rw [List.nil_append] at hdivided
      rw [hdivided]
      rfl
  · -- A name that is open ends in a `/`, and so does the key.
    obtain ⟨init, rfl⟩ : ∃ init, key = init ++ ['/'] := by
      have hname : ∀ name : Text, OpenName name → ∃ init, name = init ++ ['/'] := by
        intro name hname
        unfold OpenName at hname
        cases name using List.reverseRecOn with
        | nil => cases hname
        | append_singleton init c =>
          rw [endRun_concat] at hname
          split_ifs at hname with hc
          exact ⟨init, by rw [hc]⟩
      obtain ⟨init, hinit⟩ := hname _ hopen
      unfold nameOf at hinit
      cases hsplit : splitOnce '/' key with
      | none =>
        rw [hsplit] at hinit
        exact ⟨init, hinit⟩
      | some parts =>
        rw [hsplit] at hinit
        obtain ⟨hkey, -⟩ := splitOnce_eq_some hsplit
        have hinit : parts.2 = init ++ ['/'] := hinit
        exact ⟨parts.1 ++ '/' :: init, by rw [hkey, hinit, List.append_assoc, List.cons_append]⟩
    rw [toLowercase_slash]
    exact List.getLast?_concat

/-- Keys of ASCII are such as they stand. -/
theorem stableKey_ascii {key : Text} (hascii : ∀ c ∈ key, c.toNat < 0x80) (hlead : (key.map Char.toLower).head? ≠ some '/')
    (hlast : (key.map Char.toLower).getLast? ≠ some '/') : StableKey tables key := by
  have hlower : toLowercase tables key = key.map Char.toLower := toLowercase_ascii hascii
  exact ⟨hlower ▸ hlead, hlower ▸ hlast⟩

/-! ## Saved settings -/

/-- **What is read back of a saved file has such keys again.** -/
theorem stable_saved {ini : IniFile tables} (h : ∀ e ∈ ini.entries, StableKey tables e.key) :
    ∀ e ∈ (parse tables (serialize ini)).entries, StableKey tables e.key := by
  have hkept : ∀ e ∈ ini.entries, KeptKey e.key := fun e he => (h e he).kept
  obtain ⟨-, hsame, -⟩ := saved_entries ini hkept
  intro e' he'
  obtain ⟨e, he, hentry⟩ := exists_of_forall₂ hsame.flip he'
  have he := (grouped_perm ini.entries).mem_iff.mp he
  exact (h e he).congr (by rw [hentry.key, keptKey_of_kept (hkept e he)])

/-- A key of edited settings was there, or an edit's. -/
theorem forall_key_edit {P : Text → Prop} {ini : IniFile tables} (hini : ∀ e ∈ ini.entries, P e.key) {edits : List Edit}
    (hedits : ∀ edit ∈ edits, P edit.1) : ∀ e ∈ (ini.edit edits).entries, P e.key := by
  induction edits using List.reverseRecOn with
  | nil => exact hini
  | append_singleton edits edit ih =>
    have ih := ih fun e he => hedits e (List.mem_append_left _ he)
    have hedit := hedits edit (List.mem_append_right _ List.mem_cons_self)
    intro e he
    obtain ⟨k, v⟩ := edit
    rw [ini.edit_concat] at he
    cases v with
    | some v =>
      have he : e ∈ put tables (ini.edit edits).entries k v := IniFile.entries_set _ k v ▸ he
      obtain rfl | ⟨e', he', heq⟩ := (mem_put he).2
      · exact hedit
      · exact heq ▸ ih e' he'
    | none =>
      have he : e ∈ drop tables (ini.edit edits).entries k := IniFile.entries_remove _ k ▸ he
      exact ih e (List.mem_filter.mp he).1

/-! ## A file that is rewritten -/

theorem Value.SameReadings.trans {u v w : Value} (h : SameReadings u v) (h' : SameReadings v w) : SameReadings u w :=
  ⟨h.readings.trans h'.readings, h.entries.trans h'.entries, h.invalid.trans h'.invalid⟩

/-- A file of such keys, or none. -/
def Steady (tables : CaseTables) (data : Bytes) : Prop := ∀ e ∈ (parse tables data).entries, StableKey tables e.key

/-- A file that is edited. -/
def rewriteWith (tables : CaseTables) (edits : List Edit) (data : Bytes) : Bytes :=
  serialize ((parse tables data).edit edits)

/-- Edits that such a file takes: of keys that differ in any case, each of them such a key, to values a file can hold. -/
structure SteadyEdits (tables : CaseTables) (edits : List Edit) : Prop where
  distinct : (edits.map fun edit => toLowercase tables edit.1).Nodup
  stable : ∀ edit ∈ edits, StableKey tables edit.1
  written : ∀ edit ∈ edits, ∀ v, edit.2 = some v → v.Written

variable {edits : List Edit} {data : Bytes}

/-- **A file of such keys is one again once it is edited and saved.** -/
theorem steady_rewrite (hedits : SteadyEdits tables edits) (hdata : Steady tables data) :
    Steady tables (rewriteWith tables edits data) := stable_saved (forall_key_edit hdata hedits.stable)

/-- **What is read of the edited file**: no line of it is rejected, each key reads as its edit gave it, and the others as they did. -/
theorem read_rewrite (hedits : SteadyEdits tables edits) (hdata : Steady tables data) :
    (parse tables (rewriteWith tables edits data)).formatError = none ∧
      (∀ edit ∈ edits, Value.SameReadings (edit.2.getD .invalid) ((parse tables (rewriteWith tables edits data)).value edit.1)) ∧
      ∀ key, (∀ edit ∈ edits, toLowercase tables key ≠ toLowercase tables edit.1) →
        Value.SameReadings ((parse tables data).value key) ((parse tables (rewriteWith tables edits data)).value key) := by
  have hini : ∀ e ∈ (parse tables data).entries, KeptKey e.key ∧ e.value.Written := fun e he =>
    ⟨(hdata e he).kept, written_parse he⟩
  have hkept := kept_edit (fun e he => (hini e he).1) fun edit he => (hedits.stable edit he).kept
  exact ⟨(saved_entries _ hkept).1, edit_saved hini hedits.distinct fun edit he =>
    ⟨(hedits.stable edit he).kept, hedits.written edit he⟩⟩

end Cao.Ini
