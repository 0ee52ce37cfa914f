import Cao.Ini.File
import Cao.Ini.Lines
import Cao.Ini.Unescape

/-!
# Reading a settings file

A whole file, line by line (`cao_profiles::ini::read::parse`): section headers, assignments and rejected lines.

* `sectionPrefix`, `merged`: the prefix that a section gives its keys, under the first spelling of it;
* `Record`: what one line makes of the settings; `Reader.step`, `readWith`: the loop, over whatever takes the records;
* `parse`, `records`: the settings that are read, and the records alone; **`readWith_eq_foldl`** makes one the other.
-/

namespace Cao.Ini

variable (tables : CaseTables)

/-! ## Sections -/

/-- The key prefix that a section's name stands for: none for `[General]`. -/
def sectionPrefix (name : Bytes) : Text :=
  let name := trimAscii name
  if eqIgnoreAsciiCase name (bytes "general".toList) then []
  else if eqIgnoreAsciiCase name (bytes "%general".toList) then latin1 (name.drop 1) ++ ['/']
  else unescapeKey name ++ ['/']

/-- A prefix under the first spelling that was seen of it, and the spellings seen. -/
def merged (spellings : List Text) (keyPrefix : Text) : Text × List Text :=
  match spellings.find? fun seen => toLowercase tables seen == toLowercase tables keyPrefix with
  | some seen => (seen, spellings)
  | none => (keyPrefix, spellings ++ [keyPrefix])

/-- The name in a section header: up to the `]`, or the rest of a line that has none. -/
def sectionName (text : Bytes) : Bytes := (text.drop 1).takeWhile fun b => b != byte ']'

/-! ## The loop -/

/-- What a line records. -/
inductive Record
  | error (line : Nat) (kind : FormatErrorKind)
  | assign (key : Text) (value : Value)

/-- What a record makes of the settings. -/
def IniFile.record {tables : CaseTables} (ini : IniFile tables) : Record → IniFile tables
  | .error line kind => ini.recordError line kind
  | .assign key value => ini.insert key value

/-- The 1-based physical line that a logical line starts on, by what is read of the file. -/
def lineNumber (data rest text : Bytes) : Nat :=
  1 + (data.take (data.length - rest.length - text.length)).count 0x0A

/-- The bytes of a key: blanks before the `=` are dropped. -/
def keyBytes (text : Bytes) (equals : Nat) : Bytes := (text.take equals).rdropWhile isBlank

/-- `parse`'s state: the bytes that are not read, the current section, the sections seen, and what was recorded. -/
structure Reader (σ : Type) where
  rest : Bytes
  keyPrefix : Text
  spellings : List Text
  out : σ

namespace Reader

variable {σ τ : Type} (take : σ → Record → σ) (data : Bytes) (utf8 : Bool)

/-- One line of `parse`. -/
def readLine (s : Reader σ) (line : Line) (rest : Bytes) : Reader σ :=
  if line.text.head? = some (byte '[') then
    let section' := merged tables s.spellings (sectionPrefix (sectionName line.text))
    { rest, keyPrefix := section'.1, spellings := section'.2
      out := if byte ']' ∈ line.text then s.out
        else take s.out (.error (lineNumber data rest line.text) .unclosedSection) }
  else match line.equals with
    | none =>
      { s with
        rest
        out := if line.text.head? = some (byte ';') then s.out
          else take s.out (.error (lineNumber data rest line.text) .missingEquals) }
    | some equals =>
      { s with
        rest
        out := take s.out (.assign (s.keyPrefix ++ unescapeKey (keyBytes line.text equals))
          (readValue (line.text.drop (equals + 1)) utf8)) }

/-- One pass of `parse`. -/
def step (s : Reader σ) : Pass (Reader σ) σ :=
  match Ini.readLine s.rest with
  | (none, _) => .done s.out
  | (some line, rest) => .next (s.readLine tables take data utf8 line rest)

theorem readLine_rest (s : Reader σ) (line : Line) (rest : Bytes) :
    (s.readLine tables take data utf8 line rest).rest = rest := by
  unfold readLine
  by_cases hsection : line.text.head? = some (byte '[')
  · rw [if_pos hsection]
  · rw [if_neg hsection]
    cases line.equals <;> rfl

/-- The loop of `parse`. -/
def loop : Loop (Reader σ) σ where
  body := step tables take data utf8
  size s := s.rest.length
  shrinks {s s'} h := by
    unfold step at h
    split at h
    · cases h
    · next line rest hline =>
      cases h
      obtain ⟨hne, hlength⟩ := readLine_some hline
      have := List.length_pos_iff.mpr hne
      rw [readLine_rest]
      omega

end Reader

/-- `UTF8_BOM`. -/
def utf8Bom : Bytes := [0xEF, 0xBB, 0xBF]

/-- `parse`, into whatever takes the records. -/
def readWith {σ : Type} (take : σ → Record → σ) (out : σ) (data : Bytes) : σ :=
  if utf8Bom.isPrefixOf data then (Reader.loop tables take data true).run ⟨data.drop 3, [], [], out⟩
  else (Reader.loop tables take data (isUtf8 data)).run ⟨data, [], [], out⟩

/-- `IniFile::parse`. -/
def parse (data : Bytes) : IniFile tables := readWith tables IniFile.record (IniFile.new tables) data

theorem entries_parse_nil : (parse tables []).entries = [] := rfl

/-- The last duplicate wins, in the first one's place. -/
example : (parse .ascii (bytes "a=1\n[Textures]\nb=2\n[general]\nA=3".toList)).keys = ["a".toList, "Textures/b".toList] ∧
    ((parse .ascii (bytes "a=1\n[Textures]\nb=2\n[general]\nA=3".toList)).value "a".toList).asStr = some "3".toList := by
  decide +kernel

/-- What the lines of a file record, in order. -/
def records (data : Bytes) : List Record := readWith tables (fun out record => out ++ [record]) [] data

/-! ## Records -/

variable {tables} {σ : Type} {take : σ → Record → σ} {data : Bytes} {utf8 : Bool}

/-- A reader and the reader that lists its records. -/
structure Reader.Lists (take : σ → Record → σ) (out : σ) (s : Reader σ) (listed : Reader (List Record)) : Prop where
  rest : s.rest = listed.rest
  keyPrefix : s.keyPrefix = listed.keyPrefix
  spellings : s.spellings = listed.spellings
  out : s.out = listed.out.foldl take out

/-- **A line records the same for both.** -/
theorem Reader.Lists.readLine {out : σ} {s : Reader σ} {listed : Reader (List Record)} (h : Lists take out s listed)
    (line : Line) (rest : Bytes) :
    Lists take out (s.readLine tables take data utf8 line rest)
      (listed.readLine tables (fun out record => out ++ [record]) data utf8 line rest) := by
  have hrecord : ∀ record, take s.out record = (listed.out ++ [record]).foldl take out := fun record => by
    rw [List.foldl_append, ← h.out]
    rfl
  unfold Reader.readLine
  by_cases hsection : line.text.head? = some (byte '[')
  · rw [if_pos hsection, if_pos hsection, h.spellings]
    refine ⟨rfl, rfl, rfl, ?_⟩
    by_cases hclosed : byte ']' ∈ line.text
    · rw [if_pos hclosed, if_pos hclosed]
      exact h.out
    · rw [if_neg hclosed, if_neg hclosed]
      exact hrecord _
  · rw [if_neg hsection, if_neg hsection]
    cases line.equals with
    | none =>
      refine ⟨rfl, h.keyPrefix, h.spellings, ?_⟩
      by_cases hcomment : line.text.head? = some (byte ';')
      · dsimp only
        rw [if_pos hcomment, if_pos hcomment]
        exact h.out
      · dsimp only
        rw [if_neg hcomment, if_neg hcomment]
        exact hrecord _
    | some equals =>
      dsimp only
      rw [h.keyPrefix]
      exact ⟨rfl, rfl, h.spellings, hrecord _⟩

theorem Reader.Lists.run {out : σ} {s : Reader σ} {listed : Reader (List Record)} (h : Lists take out s listed) :
    (Reader.loop tables take data utf8).run s =
      ((Reader.loop tables (fun out record => out ++ [record]) data utf8).run listed).foldl take out := by
  induction hlength : s.rest.length using Nat.strongRecOn generalizing s listed with
  | ind n ih =>
    cases hread : Ini.readLine s.rest with
    | mk line rest =>
      cases line with
      | none =>
        have hdone : (Reader.loop tables take data utf8).body s = .done s.out := by
          show Reader.step tables take data utf8 s = _
          unfold Reader.step
          rw [hread]
        have hdone' : (Reader.loop tables (fun out record => out ++ [record]) data utf8).body listed = .done listed.out := by
          show Reader.step tables _ data utf8 listed = _
          unfold Reader.step
          rw [← h.rest, hread]
        rw [Loop.run_done hdone, Loop.run_done hdone', h.out]
      | some line =>
        have hnext : (Reader.loop tables take data utf8).body s = .next (s.readLine tables take data utf8 line rest) := by
          show Reader.step tables take data utf8 s = _
          unfold Reader.step
          rw [hread]
        have hnext' : (Reader.loop tables (fun out record => out ++ [record]) data utf8).body listed =
            .next (listed.readLine tables (fun out record => out ++ [record]) data utf8 line rest) := by
          show Reader.step tables _ data utf8 listed = _
          unfold Reader.step
          rw [← h.rest, hread]
        rw [Loop.run_next hnext, Loop.run_next hnext']
        refine ih _ ?_ (h.readLine line rest) rfl
        rw [← hlength]
        exact (Reader.loop tables take data utf8).shrinks hnext

/-- **What is read of a file is what its records make.** -/
theorem readWith_eq_foldl (out : σ) (data : Bytes) : readWith tables take out data = (records tables data).foldl take out := by
  unfold records readWith
  split_ifs
  · exact Reader.Lists.run ⟨rfl, rfl, rfl, rfl⟩
  · exact Reader.Lists.run ⟨rfl, rfl, rfl, rfl⟩

end Cao.Ini
