import Cao.Lib.Loop
import Mathlib.Data.UInt
import Mathlib.Data.List.TakeWhile

/-!
# Canonical path text

Paths as the MSVC STL reads them, unit by unit (`cao_winfs::canonical`).

* `findRootNameEnd`, `findRelativePath`, `isAbsolute`: a path's root;
* `collectParts`, `compact`, `lexicallyNormal`: lexical normalisation, in place;
* `pathElements`, `appendPath`: a path taken apart and put together;
* `rewriteFinalPath`, `canonicalUnits`, `weaklyCanonical`: the text of a path that may not exist.
-/

namespace Cao.Winfs

/-- A path's UTF-16 units. -/
abbrev Wide := List UInt16

/-- `SEPARATOR`. -/
def separator : UInt16 := 0x5C

/-- `ALT_SEPARATOR`. -/
def altSeparator : UInt16 := 0x2F

/-- `DOT`. -/
def dot : Wide := [0x2E]

/-- `DOT_DOT`. -/
def dotDot : Wide := [0x2E, 0x2E]

/-- `is_slash`. -/
def isSlash (unit : UInt16) : Bool := unit == separator || unit == altSeparator

/-- A unit that is no slash. -/
def isName (unit : UInt16) : Bool := !isSlash unit

/-! ## Roots -/

/-- `is_drive_prefix`: an ASCII letter followed by `:`. -/
def isDrivePrefix : Wide → Bool
  | letter :: colon :: _ => colon == 0x3A && (letter &&& 0xFFDF) - 0x41 < 26
  | _ => false

/-- Whether a path has a slash there. -/
def slashAt (text : Wide) (i : Nat) : Bool := text[i]?.any isSlash

/-- A root name of three units: `\\?`, `\\.` or `\??`, before one slash. -/
def hasSpecialRoot (text : Wide) : Bool :=
  4 ≤ text.length && slashAt text 3 && (text.length == 4 || !slashAt text 4) &&
    ((slashAt text 1 && (text[2]? == some 0x3F || text[2]? == some 0x2E)) || (text[1]? == some 0x3F && text[2]? == some 0x3F))

/-- `find_root_name_end`. -/
def findRootNameEnd (text : Wide) : Nat :=
  if text.length < 2 then 0
  else if isDrivePrefix text then 2
  else if !slashAt text 0 then 0
  else if hasSpecialRoot text then 3
  else if 3 ≤ text.length ∧ slashAt text 1 ∧ !slashAt text 2 then 3 + ((text.drop 3).takeWhile isName).length
  else 0

/-- `find_relative_path`: the first unit after the root name that is no slash. -/
def findRelativePath (text : Wide) : Nat :=
  findRootNameEnd text + ((text.drop (findRootNameEnd text)).takeWhile isSlash).length

/-- `is_absolute`. -/
def isAbsolute (text : Wide) : Bool :=
  if isDrivePrefix text then 3 ≤ text.length && slashAt text 2 else findRootNameEnd text != 0

/-! ## Lexical normalisation -/

/-- The root name with each slash a separator. -/
def normalRoot (text : Wide) : Wide :=
  (text.take (findRootNameEnd text)).map fun unit => if unit = altSeparator then separator else unit

/-- `lexically_normal`'s parts: filenames, and an empty one for each run of slashes. -/
structure PartScan where
  parts : List Wide
  rest : Wide

namespace PartScan

/-- One pass of the loop that collects parts. -/
def step (s : PartScan) : Pass PartScan (List Wide) :=
  match s.rest with
  | [] => .done s.parts
  | unit :: rest =>
    if isSlash unit then .next ⟨if s.parts.getLast? = some [] then s.parts else s.parts ++ [[]], rest⟩
    else .next ⟨s.parts ++ [unit :: rest.takeWhile isName], rest.dropWhile isName⟩

/-- The loop that collects parts. -/
def loop : Loop PartScan (List Wide) where
  body := step
  size s := s.rest.length
  shrinks {s s'} h := by
    unfold step at h
    cases hrest : s.rest with
    | nil => rw [hrest] at h; cases h
    | cons unit rest =>
      rw [hrest] at h
      dsimp only at h
      by_cases hslash : isSlash unit
      · rw [if_pos hslash] at h
        cases h
        exact Nat.lt_succ_self _
      · rw [if_neg hslash] at h
        cases h
        exact Nat.lt_succ_of_le (List.length_dropWhile_le _ _)

end PartScan

/-- The parts of a path below its root. -/
def collectParts (below : Wide) : List Wide := PartScan.loop.run ⟨[], below⟩

/-- The state of the compaction. -/
structure Compaction where
  parts : List Wide
  newEnd : Nat
  position : Nat

namespace Compaction

/-- `parts[new_end] = part`, unless the index is out of bounds. -/
def write (s : Compaction) (part : Wide) : Option (List Wide) :=
  if s.newEnd < s.parts.length then some (s.parts.set s.newEnd part) else none

/-- `parts[new_end - 2]`, unless the index underflows or is out of bounds. -/
def lookBehind (s : Compaction) : Option Wide := if 2 ≤ s.newEnd then s.parts[s.newEnd - 2]? else none

/-- A pass that keeps the parts, after its own part is read: the loop is left at the last part. -/
def proceed (parts : List Wide) (newEnd position : Nat) : Pass Compaction (Option (List Wide)) :=
  if position = parts.length then .done (some (parts.take newEnd)) else .next ⟨parts, newEnd, position + 1⟩

/-- A pass that writes a part: past the last one there is no separator to skip over. -/
def place (s : Compaction) (part : Wide) : Pass Compaction (Option (List Wide)) :=
  match s.write part with
  | none => .done none
  | some parts =>
    if s.position + 1 = parts.length then .done (some (parts.take (s.newEnd + 1)))
    else .next ⟨parts, s.newEnd + 2, s.position + 2⟩

/-- One pass of the compaction. An index out of bounds, or one that underflows, is no result. -/
def step (hasRootDirectory : Bool) (s : Compaction) : Pass Compaction (Option (List Wide)) :=
  match s.parts[s.position]? with
  | none => .done (some (s.parts.take s.newEnd))
  | some part =>
    if part = dot then proceed s.parts s.newEnd (s.position + 1)
    else if part ≠ dotDot then s.place part
    else if s.newEnd = 0 then
      if !hasRootDirectory then s.place dotDot else proceed s.parts s.newEnd (s.position + 1)
    else match s.lookBehind with
      | none => .done none
      | some behind =>
        if behind ≠ dotDot then proceed s.parts (s.newEnd - 2) (s.position + 1)
        else if !hasRootDirectory then s.place dotDot
        else proceed s.parts s.newEnd (s.position + 1)

theorem proceed_next {parts : List Wide} {newEnd position : Nat} {s' : Compaction}
    (h : proceed parts newEnd position = .next s') : s'.parts = parts ∧ s'.position = position + 1 := by
  unfold proceed at h
  split_ifs at h
  cases h
  exact ⟨rfl, rfl⟩

theorem place_next {s s' : Compaction} {part : Wide} (h : s.place part = .next s') :
    s'.parts.length = s.parts.length ∧ s'.position = s.position + 2 := by
  unfold place write at h
  split at h
  · cases h
  · next parts hwrite =>
    split_ifs at hwrite h
    cases hwrite
    cases h
    exact ⟨List.length_set .., rfl⟩

theorem step_next {hasRootDirectory : Bool} {s s' : Compaction} (h : s.step hasRootDirectory = .next s') :
    s.position < s.parts.length ∧ s'.parts.length = s.parts.length ∧ s'.position = s.position + 2 := by
  have hkeep : ∀ {newEnd : Nat}, proceed s.parts newEnd (s.position + 1) = .next s' →
      s'.parts.length = s.parts.length ∧ s'.position = s.position + 2 := by
    intro newEnd hpass
    obtain ⟨hparts, hposition⟩ := proceed_next hpass
    exact ⟨by rw [hparts], hposition⟩
  unfold step at h
  split at h
  · cases h
  · next part hpart =>
    refine ⟨(List.getElem?_eq_some_iff.mp hpart).1, ?_⟩
    split_ifs at h
    · exact hkeep h
    · exact place_next h
    · exact place_next h
    · exact hkeep h
    · split at h
      · cases h
      · split_ifs at h
        · exact hkeep h
        · exact place_next h
    · split at h
      · cases h
      · split_ifs at h
        · exact hkeep h
        · exact hkeep h

/-- The compaction loop. -/
def loop (hasRootDirectory : Bool) : Loop Compaction (Option (List Wide)) where
  body := step hasRootDirectory
  size s := s.parts.length - s.position
  shrinks h := by
    have := step_next h
    omega

end Compaction

/-- The compaction of the parts, from the first on. -/
def compact (hasRootDirectory : Bool) (parts : List Wide) : Option (List Wide) :=
  (Compaction.loop hasRootDirectory).run ⟨parts, 0, 0⟩

/-- A trailing `..` loses its trailing separator. -/
def trimTrailing (parts : List Wide) : List Wide :=
  if parts.getLast? = some [] ∧ parts.dropLast.getLast? = some dotDot then parts.dropLast else parts

/-- The text of a part. -/
def partText (part : Wide) : Wide := if part = [] then [separator] else part

/-- `lexically_normal`: no result stands for an index that is out of bounds. -/
def lexicallyNormal (text : Wide) : Option Wide :=
  if text = [] then some []
  else
    let below := text.drop (findRootNameEnd text)
    let hasRootDirectory := below.head?.any isSlash
    (compact hasRootDirectory (collectParts (below.dropWhile isSlash))).map fun parts =>
      let normalized := normalRoot text ++ (if hasRootDirectory then [separator] else []) ++ (trimTrailing parts).flatMap partText
      if normalized = [] then dot else normalized

/-! ## Elements -/

/-- What is left of a path after its first name and the slashes behind it. -/
def afterName (text : Wide) : Wide := (text.dropWhile isName).dropWhile isSlash

theorem length_afterName_lt {text : Wide} (h : text ≠ []) : (afterName text).length < text.length := by
  cases text with
  | nil => exact absurd rfl h
  | cons unit rest =>
    unfold afterName
    by_cases hname : isName unit
    · rw [List.dropWhile_cons_of_pos hname]
      exact Nat.lt_succ_of_le (Nat.le_trans (List.length_dropWhile_le _ _) (List.length_dropWhile_le _ _))
    · have hslash : isSlash unit = true := by simpa [isName] using hname
      rw [List.dropWhile_cons_of_neg hname, List.dropWhile_cons_of_pos hslash]
      exact Nat.lt_succ_of_le (List.length_dropWhile_le _ _)

/-- One pass of `path_elements`' loop over the names of a path. -/
def nameStep (s : List Wide × Wide) : Pass (List Wide × Wide) (List Wide) :=
  if s.2 = [] then .done s.1
  else
    .next (s.1 ++ s.2.takeWhile isName :: (if afterName s.2 = [] ∧ s.2.dropWhile isName ≠ [] then [[]] else []),
      afterName s.2)

/-- `path_elements`' loop over the names of a path. -/
def nameElements : Loop (List Wide × Wide) (List Wide) where
  body := nameStep
  size s := s.2.length
  shrinks {s s'} h := by
    unfold nameStep at h
    by_cases hempty : s.2 = []
    · rw [if_pos hempty] at h
      cases h
    · rw [if_neg hempty] at h
      cases h
      exact length_afterName_lt hempty

/-- `path_elements`: the root name, the root directory, each filename, and an empty element for trailing separators. -/
def pathElements (text : Wide) : List Wide :=
  let rootNameEnd := findRootNameEnd text
  let relative := findRelativePath text
  (if rootNameEnd ≠ 0 then [text.take rootNameEnd] else []) ++
    (if relative ≠ rootNameEnd then [(text.take relative).drop rootNameEnd] else []) ++
    nameElements.run ([], text.drop relative)

/-- `append_path`: `path::operator/=`. -/
def appendPath (result other : Wide) : Wide :=
  if isAbsolute other then other
  else if findRootNameEnd other ≠ 0 ∧
      result.take (findRootNameEnd result) ≠ other.take (findRootNameEnd other) then other
  else if slashAt other (findRootNameEnd other) then
    result.take (findRootNameEnd result) ++ other.drop (findRootNameEnd other)
  else if findRootNameEnd result = result.length then
    (if 3 ≤ findRootNameEnd result then result ++ [separator] else result) ++ other.drop (findRootNameEnd other)
  else
    (if result.getLast?.any isSlash then result else result ++ [separator]) ++ other.drop (findRootNameEnd other)

/-! ## Paths on disk -/

/-- The form of a final path name that is asked for. -/
inductive VolumeName
  | dos
  | nt
  deriving DecidableEq

/-- A Windows error code. -/
abbrev ErrorCode := Nat

/-- `is_file_not_found`: the errors of a path that is missing. -/
def isFileNotFound (code : ErrorCode) : Bool := [2, 3, 53, 123, 161, 267, 64].contains code

/-- `rewrite_final_path`. -/
def rewriteFinalPath (name : Wide) (volumeName : VolumeName) : Wide :=
  let verbatim : Wide := [0x5C, 0x5C, 0x3F, 0x5C]
  let verbatimUnc : Wide := verbatim ++ [0x55, 0x4E, 0x43, 0x5C]
  let globalRoot : Wide := verbatim ++ [0x47, 0x4C, 0x4F, 0x42, 0x41, 0x4C, 0x52, 0x4F, 0x4F, 0x54]
  match volumeName with
  | .dos =>
    if 6 ≤ name.length ∧ verbatim.isPrefixOf name ∧ isDrivePrefix (name.drop 4) then name.drop 4
    else if verbatimUnc.isPrefixOf name then name.take 2 ++ name.drop 8
    else name
  | .nt => globalRoot ++ name

/-- What Windows says of a path: its final name, once it is opened, or an error. -/
abbrev Disk := Wide → Except ErrorCode (Wide × VolumeName)

/-- `canonical_units`. -/
def canonicalUnits (disk : Disk) (text : Wide) : Except ErrorCode Wide :=
  if text = [] then .ok [] else (disk text).map fun final => rewriteFinalPath final.1 final.2

/-- One element of `weakly_canonical`'s walk: the path so far, and whether it may still exist. -/
def walkElement (disk : Disk) (walked : Wide × Bool) (element : Wide) : Except ErrorCode (Wide × Bool) :=
  let result := appendPath walked.1 element
  if walked.2 then
    match canonicalUnits disk result with
    | .ok canonical => .ok (canonical, true)
    | .error code => if isFileNotFound code then .ok (result, false) else .error code
  else .ok (result, false)

/-- `weakly_canonical`. No result stands for an index that is out of bounds. -/
def weaklyCanonical (disk : Disk) (text : Wide) : Option (Except ErrorCode Wide) :=
  match canonicalUnits disk text with
  | .ok result => some (.ok result)
  | .error code =>
    if !isFileNotFound code then some (.error code)
    else (lexicallyNormal text).map fun normalized =>
      let relative := findRelativePath normalized
      ((pathElements (normalized.drop relative)).foldlM (walkElement disk) (normalized.take relative, true)).map Prod.fst

end Cao.Winfs
