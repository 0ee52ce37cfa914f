import Cao.Lib.Rotate
import Cao.Routing.Route

/-!
# The rotation of the Application Log

The live log file and its numbered chunks (`RollingFile` of `application_log.rs`).

* `RollingFile`, `write`, `roll`: the live file, one record, and the shift of the chunks, with what each file operation
  may meet;
* `written`, `Rotated`: the file of a chunk of records, and what the files hold of the chunks;
* `Rotated.roll`, `Rotated.write`: a roll, and one record; `chunks_spec`: the chunks of records;
* **`rotation`**: the files hold the records in order, less the oldest chunks.
-/

namespace Cao.LogTab

/-! ## The live file -/

/-- `MAX_FILE_SIZE`. -/
def maxFileSize : Nat := 250000

/-- `MAX_FILES`. -/
def maxFiles : Nat := 1000

/-- `HEADER`. -/
def header : Bytes :=
  utf8 "\ufeff<style>html\x7bline-height:1.5rem\x7dpre\x7bline-height:1rem\x7d</style>".toList

/-- The files of the volume. -/
abbrev Files := Path → Option Bytes

/-- How the live file is opened. -/
inductive Opening
  | opened
  | refused
  /-- It is created or opened, but its size is not read. -/
  | unmeasured
  deriving DecidableEq, Repr

/-- What the file operations of one record meet. -/
structure Faults where
  /-- Whether the oldest chunk is not removed. -/
  keepsOldest : Bool := false
  /-- The chunks that are not renamed. -/
  stuck : Nat → Bool := fun _ => false
  /-- The live file's opening after a roll, and for the record. -/
  rolls : Opening := .opened
  opens : Opening := .opened
  /-- How much of the record a failed write leaves. -/
  torn : Option Nat := none

/-- `RollingFile`, whose handle is the live file's, with the files of its volume. -/
structure RollingFile where
  path : Path
  file : Bool
  size : Nat
  firstWrite : Bool
  files : Files

/-- `numbered`: `name.N.html`, or the live file's own path for 0. -/
def numbered (path : Path) (n : Nat) : Path :=
  if n = 0 then path
  else
    let name := path.getLast?.getD []
    path.dropLast ++ [(Routing.stemAndExtension name).1 ++ OsStr.ofText ('.' :: Nat.toDigits 10 n) ++
      (Routing.stemAndExtension name).2.elim [] fun extension => .char '.' :: extension]

namespace RollingFile

/-- `reopen`, and whether the live file is open. -/
def reopen (opening : Opening) (rolling : RollingFile) : Bool × RollingFile :=
  let created := Function.update rolling.files rolling.path (some ((rolling.files rolling.path).getD []))
  match opening with
  | .refused => (false, rolling)
  | .unmeasured => (false, { rolling with files := created })
  | .opened => (true, { rolling with file := true, size := ((rolling.files rolling.path).getD []).length, files := created })

/-- `RollingFile::open`, of a file whose folder is there. -/
def open_ (opening : Opening) (path : Path) (files : Files) : Option RollingFile :=
  match reopen opening ⟨path, false, 0, true, files⟩ with
  | (true, rolling) => some rolling
  | (false, _) => none

/-- `roll`. -/
def roll (faults : Faults) (rolling : RollingFile) : RollingFile :=
  let oldest := numbered rolling.path (maxFiles - 1)
  -- a missing oldest chunk is the usual case
  let files := if faults.keepsOldest then rolling.files else Function.update rolling.files oldest none
  let files := Rotate.cascade faults.stuck (numbered rolling.path) (maxFiles - 1) files
  -- a failure leaves no handle, and the next record retries
  (reopen faults.rolls { rolling with file := false, files }).2

/-- `write`. -/
def write (rolling : RollingFile) (faults : Faults) (record : Bytes) : RollingFile :=
  let rolls := !rolling.firstWrite && rolling.file && maxFileSize < rolling.size
  let rolling := { rolling with firstWrite := false }
  let rolling := if rolls then roll faults rolling else rolling
  -- a failed reopen is retried by the next record
  let reopened := if rolling.file then (true, rolling) else reopen faults.opens rolling
  let rolling := reopened.2
  if !reopened.1 then rolling
  else
    let bytes := if rolling.size = 0 then header ++ record else record
    let append (bytes : Bytes) : Files :=
      Function.update rolling.files rolling.path (some ((rolling.files rolling.path).getD [] ++ bytes))
    match faults.torn with
    | none => { rolling with files := append bytes, size := rolling.size + bytes.length }
    | some n => { rolling with files := append (bytes.take n) }

end RollingFile

/-! ## Names -/

section Names

variable {path : Path} {name before after : OsStr}

theorem splitLastDot_eq (h : Routing.splitLastDot name = some (before, after)) : name = before ++ .char '.' :: after := by
  induction name generalizing before with
  | nil => cases h
  | cons c name ih =>
    unfold Routing.splitLastDot at h
    split at h
    · next hname =>
      cases h
      rw [ih hname, List.cons_append]
    · split_ifs at h with hc
      cases h
      rw [hc]
      rfl

/-- A name is its stem and its extension. -/
theorem stemAndExtension_eq (name : OsStr) : (Routing.stemAndExtension name).1 ++
    (Routing.stemAndExtension name).2.elim [] (fun extension => .char '.' :: extension) = name := by
  unfold Routing.stemAndExtension
  split
  · next before after hsplit =>
    split_ifs
    · exact List.append_nil _
    · exact (splitLastDot_eq hsplit).symm
  · exact List.append_nil _

theorem toDigits_injective : Function.Injective (Nat.toDigits 10) := fun m n h => by
  have := congrArg (fun digits => Nat.ofDigitChars 10 digits 0) h
  simpa using this

/-- A numbered chunk is none of the others, nor the live file. -/
theorem numbered_injective (path : Path) : Function.Injective (numbered path) := by
  have hlive : ∀ n, n ≠ 0 → numbered path n ≠ path := by
    intro n hn heq
    unfold numbered at heq
    rw [if_neg hn] at heq
    dsimp only at heq
    have hlast := congrArg (fun path : Path => (path.getLast?.getD []).length) heq
    simp only [List.getLast?_concat, Option.getD_some] at hlast
    have hlength := congrArg List.length (stemAndExtension_eq (path.getLast?.getD []))
    simp only [List.length_append, OsStr.ofText, List.length_map, List.length_cons] at hlast hlength
    omega
  intro m n h
  by_cases hm : m = 0
  · by_cases hn : n = 0
    · rw [hm, hn]
    · rw [hm] at h
      exact absurd h.symm (hlive n hn)
  · by_cases hn : n = 0
    · rw [hn] at h
      exact absurd h (hlive m hm)
    · unfold numbered at h
      rw [if_neg hm, if_neg hn] at h
      simp only [List.append_cancel_left_eq, List.append_cancel_right_eq, List.cons.injEq, and_true] at h
      have hdigits := OsStr.ofText_injective h
      exact toDigits_injective (List.cons.inj hdigits).2

end Names

/-! ## Chunks -/

/-- The file of a chunk of records: the header goes in with its first record. -/
def written (chunk : List Bytes) : Bytes := if chunk = [] then [] else header ++ chunk.flatten

/-- A chunk one record longer, or the chunk that begins with it. -/
def next (live : List Bytes) (older : List (List Bytes)) (record : Bytes) : List Bytes × List (List Bytes) :=
  if maxFileSize < (written live).length then ([record], live :: older) else (live ++ [record], older)

section Written

variable {chunk : List Bytes} {record : Bytes}

theorem header_length_pos : 0 < header.length := by
  unfold header
  rw [String.toList_ofList]
  decide

@[simp] theorem written_nil : written [] = [] := rfl

theorem written_of_ne_nil (h : chunk ≠ []) : written chunk = header ++ chunk.flatten := if_neg h

theorem written_length_eq_zero : (written chunk).length = 0 ↔ chunk = [] := by
  constructor
  · intro h
    by_contra hne
    rw [written_of_ne_nil hne, List.length_append] at h
    have := header_length_pos
    omega
  · rintro rfl
    rfl

/-- A record is written after the others, and the first with the header. -/
theorem written_concat : written (chunk ++ [record]) =
    written chunk ++ if (written chunk).length = 0 then header ++ record else record := by
  rw [written_of_ne_nil (by simp), List.flatten_concat]
  split_ifs with h
  · rw [written_length_eq_zero.mp h, written_nil, List.nil_append, List.flatten_nil, List.nil_append]
  · rw [written_of_ne_nil fun hnil => h (written_length_eq_zero.mpr hnil), List.append_assoc]

/-- What follows the header of a file are its records. -/
theorem drop_header (chunk : List Bytes) : (written chunk).drop header.length = chunk.flatten := by
  by_cases h : chunk = []
  · rw [h, written_nil, List.drop_nil, List.flatten_nil]
  · rw [written_of_ne_nil h, List.drop_left]

end Written

/-! ## What the files hold -/

/-- **The files hold the newest chunks**, the live one first, and the rest of the volume is as it was. -/
structure Rotated (path : Path) (files : Files) (live : List Bytes) (older : List (List Bytes)) (rolling : RollingFile) :
    Prop where
  path_eq : rolling.path = path
  isOpen : rolling.file = true
  size : rolling.size = (written live).length
  first : rolling.firstWrite = true → (written live).length ≤ maxFileSize
  held : ∀ n, rolling.files (numbered path n) = (((live :: older).map written).take maxFiles)[n]?
  others : ∀ other, (∀ n < maxFiles, other ≠ numbered path n) → rolling.files other = files other

section Rotated

variable {path : Path} {files : Files} {live : List Bytes} {older : List (List Bytes)} {rolling : RollingFile}

theorem numbered_zero (path : Path) : numbered path 0 = path := rfl

theorem numbered_succ_ne (path : Path) (n : Nat) : numbered path (n + 1) ≠ path := fun h =>
  absurd (numbered_injective path (h.trans (numbered_zero path).symm)) (Nat.succ_ne_zero n)

/-- A fresh log. -/
theorem rotated_open (hfresh : ∀ n, files (numbered path n) = none) :
    ∃ rolling, RollingFile.open_ .opened path files = some rolling ∧ Rotated path files [] [] rolling := by
  have hlive : files path = none := hfresh 0
  refine ⟨_, rfl, rfl, rfl, ?_, fun _ => Nat.zero_le _, fun n => ?_, fun other hother => ?_⟩
  · simp [hlive]
  · by_cases hn : n = 0
    · subst hn
      rw [numbered_zero]
      simp [hlive, maxFiles]
    · have hne : numbered path n ≠ path := fun h => hn (numbered_injective path h)
      have hnone : ([written []].take maxFiles)[n]? = none := by
        rw [List.getElem?_eq_none]
        simp [maxFiles]
        omega
      rw [List.map_cons, List.map_nil, hnone]
      exact (Function.update_of_ne hne _ _).trans (hfresh n)
  · exact Function.update_of_ne (hother 0 (by decide)) _ _

/-- The files of a volume, with the chunks shifted. -/
def shifted (path : Path) (files : Files) : Files :=
  Rotate.cascade (fun _ => false) (numbered path) (maxFiles - 1)
    (Function.update files (numbered path (maxFiles - 1)) none)

theorem shifted_live (path : Path) (files : Files) : shifted path files path = none :=
  (@Rotate.cascade_name Path Bytes _ (fun _ => false) (numbered path) (numbered_injective path) (fun _ => rfl)
    (maxFiles - 1) _ (Function.update_self _ _ _)).1

theorem shifted_succ {n : Nat} (hn : n + 1 < maxFiles) :
    shifted path files (numbered path (n + 1)) = files (numbered path n) := by
  have hne : numbered path n ≠ numbered path (maxFiles - 1) := fun h => by
    have := numbered_injective path h
    omega
  exact ((@Rotate.cascade_name Path Bytes _ (fun _ => false) (numbered path) (numbered_injective path) (fun _ => rfl)
    (maxFiles - 1) _ (Function.update_self _ _ _)).2 n (by omega)).trans (Function.update_of_ne hne _ _)

theorem shifted_of_ne {other : Path} (h : ∀ n < maxFiles, other ≠ numbered path n) :
    shifted path files other = files other := by
  have hmax : 0 < maxFiles := by decide
  unfold shifted
  rw [Rotate.cascade_of_ne fun n hn => h n (by omega), Function.update_of_ne (h _ (by omega))]

/-- A roll shifts the chunks, and opens an empty live file. -/
theorem roll_eq (rolling : RollingFile) : RollingFile.roll { } rolling =
    { rolling with
      file := true
      size := 0
      files := Function.update (shifted rolling.path rolling.files) rolling.path (some []) } := by
  have h : RollingFile.roll { } rolling =
      { rolling with
        file := true
        size := ((shifted rolling.path rolling.files rolling.path).getD []).length
        files := Function.update (shifted rolling.path rolling.files) rolling.path
          (some ((shifted rolling.path rolling.files rolling.path).getD [])) } := by
    simp only [RollingFile.roll, RollingFile.reopen, Bool.false_eq_true, if_false, shifted]
  rw [h, shifted_live]
  rfl

/-- **A roll makes room for an empty chunk.** -/
theorem Rotated.roll (h : Rotated path files live older rolling) :
    Rotated path files [] (live :: older) (RollingFile.roll { } rolling) := by
  have hpath := h.path_eq
  have hmax : 0 < maxFiles := by decide
  rw [roll_eq, hpath]
  refine ⟨rfl, rfl, rfl, fun _ => Nat.zero_le _, fun n => ?_, fun other hother => ?_⟩
  · cases n with
    | zero =>
      rw [numbered_zero, List.getElem?_take_of_lt hmax]
      exact Function.update_self _ _ _
    | succ n =>
      refine (Function.update_of_ne (numbered_succ_ne path n) _ _).trans ?_
      by_cases hn : n + 1 < maxFiles
      · rw [shifted_succ hn, h.held, List.getElem?_take_of_lt (by omega), List.getElem?_take_of_lt hn]
        rfl
      · have hhigh : ∀ m < maxFiles, numbered path (n + 1) ≠ numbered path m := fun m hm heq => by
          have := numbered_injective path heq
          omega
        rw [shifted_of_ne hhigh, h.held,
          List.getElem?_eq_none, List.getElem?_eq_none]
        · rw [List.length_take]
          omega
        · rw [List.length_take]
          omega
  · exact (Function.update_of_ne (hother 0 hmax) _ _).trans ((shifted_of_ne hother).trans (h.others other hother))

/-- What a write appends to an open live file. -/
theorem Rotated.append (h : Rotated path files live older rolling) (record : Bytes) :
    Rotated path files (live ++ [record]) older
      { rolling with
        firstWrite := false
        files := Function.update rolling.files rolling.path (some ((rolling.files rolling.path).getD [] ++
          if rolling.size = 0 then header ++ record else record))
        size := rolling.size + (if rolling.size = 0 then header ++ record else record).length } := by
  have hpath := h.path_eq
  have hmax : 0 < maxFiles := by decide
  have hlive : rolling.files path = some (written live) := by
    have := h.held 0
    rwa [numbered_zero, List.getElem?_take_of_lt hmax] at this
  have hwritten := @written_concat live record
  rw [← h.size] at hwritten
  rw [hpath, hlive]
  refine ⟨rfl, h.isOpen, ?_, nofun, fun n => ?_, fun other hother => ?_⟩
  · rw [hwritten, List.length_append, h.size]
  · cases n with
    | zero =>
      rw [numbered_zero, List.getElem?_take_of_lt hmax]
      refine (Function.update_self _ _ _).trans ?_
      rw [List.map_cons, hwritten]
      rfl
    | succ n =>
      refine (Function.update_of_ne (numbered_succ_ne path n) _ _).trans ((h.held (n + 1)).trans ?_)
      by_cases hn : n + 1 < maxFiles
      · rw [List.getElem?_take_of_lt hn, List.getElem?_take_of_lt hn]
        rfl
      · rw [List.getElem?_eq_none, List.getElem?_eq_none]
        · rw [List.length_take]
          omega
        · rw [List.length_take]
          omega
  · exact (Function.update_of_ne (hother 0 hmax) _ _).trans (h.others other hother)

/-- After the first write, a live file may be large. -/
theorem Rotated.forget (h : Rotated path files live older rolling) :
    Rotated path files live older { rolling with firstWrite := false } :=
  ⟨h.path_eq, h.isOpen, h.size, nofun, h.held, h.others⟩

/-- **A record is written after those of the live file, or begins the next.** -/
theorem Rotated.write (h : Rotated path files live older rolling) (record : Bytes) :
    Rotated path files (next live older record).1 (next live older record).2 (rolling.write { } record) := by
  have hopen := h.isOpen
  have hrolls : (!rolling.firstWrite && rolling.file && decide (maxFileSize < rolling.size)) = true ↔
      maxFileSize < (written live).length := by
    rw [hopen, Bool.and_true, Bool.and_eq_true, Bool.not_eq_true', decide_eq_true_eq, h.size]
    constructor
    · exact And.right
    · intro hlarge
      refine ⟨?_, hlarge⟩
      by_contra hfirst
      have := h.first (by simpa using hfirst)
      omega
  unfold next RollingFile.write
  dsimp only
  by_cases hlarge : maxFileSize < (written live).length
  · rw [if_pos (hrolls.mpr hlarge), if_pos hlarge]
    have hroll := Rotated.roll (h.forget)
    have happend := hroll.append record
    rw [if_pos hroll.isOpen]
    exact happend
  · rw [if_neg (mt hrolls.mp hlarge), if_neg hlarge, if_pos hopen]
    exact h.append record

end Rotated

/-! ## A session -/

/-- The chunks of records: the live one, and the older ones, the newest first. -/
def chunks (records : List Bytes) : List Bytes × List (List Bytes) :=
  records.foldl (fun chunks record => next chunks.1 chunks.2 record) ([], [])

/-- A file that exceeds the limit by no more than a header and a record. -/
def Bounded (chunk : List Bytes) : Prop :=
  (written chunk).length ≤ maxFileSize ∨
    ∃ record ∈ chunk, (written chunk).length ≤ maxFileSize + header.length + record.length

section Chunks

variable {records live : List Bytes} {record : Bytes} {older : List (List Bytes)} {path : Path} {files : Files}
  {rolling : RollingFile}

theorem chunks_concat : chunks (records ++ [record]) = next (chunks records).1 (chunks records).2 record := by
  unfold chunks
  rw [List.foldl_concat]

theorem bounded_append (h : (written live).length ≤ maxFileSize) : Bounded (live ++ [record]) := by
  refine .inr ⟨record, by simp, ?_⟩
  rw [written_concat, List.length_append]
  split_ifs
  · rw [List.length_append]
    omega
  · omega

/-- What the chunks are: the records in order, each older one full, none by more than a record. -/
theorem chunks_spec (records : List Bytes) :
    ((chunks records).1 :: (chunks records).2).reverse.flatten = records ∧
      (∀ chunk ∈ (chunks records).2, maxFileSize < (written chunk).length) ∧
      ∀ chunk ∈ (chunks records).1 :: (chunks records).2, Bounded chunk := by
  induction records using List.reverseRecOn with
  | nil => exact ⟨rfl, by simp [chunks], by simp [chunks, Bounded]⟩
  | append_singleton records record ih =>
    obtain ⟨hflatten, hfull, hbounded⟩ := ih
    rw [chunks_concat]
    unfold next
    split_ifs with hlarge
    · refine ⟨?_, fun chunk hmem => ?_, fun chunk hmem => ?_⟩
      · rw [List.reverse_cons, List.flatten_concat, hflatten]
      · rcases List.mem_cons.mp hmem with rfl | hmem
        · exact hlarge
        · exact hfull chunk hmem
      · rcases List.mem_cons.mp hmem with rfl | hmem
        · exact @bounded_append [] record (Nat.zero_le _)
        · exact hbounded chunk hmem
    · refine ⟨?_, hfull, fun chunk hmem => ?_⟩
      · rw [List.reverse_cons, List.flatten_concat, ← List.append_assoc, ← List.flatten_concat, ← List.reverse_cons,
          hflatten]
      · rcases List.mem_cons.mp hmem with rfl | hmem
        · exact bounded_append (by omega)
        · exact hbounded chunk (List.mem_cons_of_mem _ hmem)

/-- **The files hold the chunks of the records written.** -/
theorem rotated_run (hopen : Rotated path files [] [] rolling) (records : List Bytes) :
    Rotated path files (chunks records).1 (chunks records).2
      (records.foldl (fun rolling record => rolling.write { } record) rolling) := by
  induction records using List.reverseRecOn with
  | nil => exact hopen
  | append_singleton records record ih =>
    rw [List.foldl_concat, chunks_concat]
    exact ih.write record

end Chunks

/-- **Rotation keeps order, and loses only whole oldest chunks.** In a fresh log whose file operations succeed, the files
hold the records in order: the newest chunk is the live file and each older one has the next number, a chunk's file
begins with the one header, the chunks lost are the oldest and were full, and no file exceeds the limit by more than a
header and a record. The rest of the volume is untouched. -/
theorem rotation (path : Path) (files : Files) (records : List Bytes) (hfresh : ∀ n, files (numbered path n) = none) :
    ∃ rolling, RollingFile.open_ .opened path files = some rolling ∧ ∃ dropped kept : List (List Bytes),
      let last := records.foldl (fun rolling record => rolling.write { } record) rolling
      (dropped ++ kept).flatten = records ∧
        (kept.map fun chunk => (written chunk).drop header.length).flatten = kept.flatten.flatten ∧
        (∀ n, last.files (numbered path n) = (kept.reverse.map written)[n]?) ∧
        kept.length ≤ maxFiles ∧ (dropped ≠ [] → kept.length = maxFiles) ∧
        (∀ chunk ∈ dropped, maxFileSize < (written chunk).length) ∧ (∀ chunk ∈ kept, Bounded chunk) ∧
        ∀ other, (∀ n < maxFiles, other ≠ numbered path n) → last.files other = files other := by
  obtain ⟨rolling, hopen, hrotated⟩ := rotated_open hfresh
  have h := rotated_run hrotated records
  obtain ⟨hflatten, hfull, hbounded⟩ := chunks_spec records
  have hmax : 0 < maxFiles := by decide
  refine ⟨rolling, hopen, (((chunks records).1 :: (chunks records).2).drop maxFiles).reverse,
    (((chunks records).1 :: (chunks records).2).take maxFiles).reverse, ?_, ?_, fun n => ?_, ?_, fun hne => ?_,
    fun chunk hmem => ?_, fun chunk hmem => ?_, h.others⟩
  · rw [← List.reverse_append, List.take_append_drop, hflatten]
  · simp only [drop_header, List.flatten_flatten]
  · rw [List.reverse_reverse, List.map_take]
    exact h.held n
  · rw [List.length_reverse, List.length_take]
    omega
  · rw [Ne, List.reverse_eq_nil_iff, List.drop_eq_nil_iff] at hne
    rw [List.length_reverse, List.length_take]
    omega
  · obtain ⟨m, hm⟩ : ∃ m, maxFiles = m + 1 := ⟨maxFiles - 1, by omega⟩
    rw [List.mem_reverse, hm, List.drop_succ_cons] at hmem
    exact hfull chunk (List.mem_of_mem_drop hmem)
  · exact hbounded chunk (List.mem_of_mem_take (List.mem_reverse.mp hmem))

/-- A log of its own folder. -/
theorem rotation_empty_folder :
    ∃ rolling, RollingFile.open_ .opened [OsStr.ofText "cao.html".toList] (fun _ => none) = some rolling ∧
      ∃ dropped kept : List (List Bytes), (dropped ++ kept).flatten = [[1], [2, 3]] ∧ kept.length ≤ maxFiles := by
  obtain ⟨rolling, hopen, dropped, kept, hflatten, -, -, hlength, -⟩ :=
    rotation [OsStr.ofText "cao.html".toList] (fun _ => none) [[1], [2, 3]] fun _ => rfl
  exact ⟨rolling, hopen, dropped, kept, hflatten, hlength⟩

end Cao.LogTab
