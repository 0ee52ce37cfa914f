import Cao.Ini.Lines
import Cao.Ini.Value

/-!
# Reading keys and values

What the bytes of a key and of a value say (`cao_profiles::ini::read`).

* `unescapeKey`: `\` is `/`, `%XX` a Latin-1 character and `%UXXXX` a unit;
* `Unescape.step`, `unescapeValue`: quoting, escapes and the commas of a list;
* `stringToValue`, `readValue`: the forms of a value.
-/

namespace Cao.Ini

/-! ## Keys -/

/-- `u16::from_str_radix`, base 16. -/
def hexValue (digits : Bytes) : Nat := digits.foldl (fun n b => n * 16 + (toDigit 16 b).getD 0) 0

/-- `unescape_key`'s state: the units of the key so far, and its other bytes. -/
structure KeyScan where
  units : List Nat
  rest : Bytes

/-- The hexadecimal digits that a `%` escape has next, and the length of the escape after its `%`. -/
def hexDigits (rest : Bytes) : Option (Bytes × Nat) :=
  let start := if rest.head? = some (byte 'U') then 1 else 0
  let digits := if rest.head? = some (byte 'U') then 4 else 2
  let hex := (rest.drop start).take digits
  if hex.length = digits ∧ hex.all isAsciiHexdigit then some (hex, start + digits) else none

namespace KeyScan

/-- One pass of `unescape_key`. A malformed `%` escape is kept as a literal `%`. -/
def step (s : KeyScan) : Pass KeyScan (List Nat) :=
  match s.rest with
  | [] => .done s.units
  | c :: rest =>
    if c = byte '\\' then .next ⟨s.units ++ [0x2F], rest⟩
    else if c ≠ byte '%' ∨ rest = [] then .next ⟨s.units ++ [c.toNat], rest⟩
    else match hexDigits rest with
      | some (hex, length) => .next ⟨s.units ++ [hexValue hex], rest.drop length⟩
      | none => .next ⟨s.units ++ [0x25], rest⟩

/-- The loop of `unescape_key`. -/
def loop : Loop KeyScan (List Nat) where
  body := step
  size s := s.rest.length
  shrinks {s s'} h := by
    unfold step at h
    cases hrest : s.rest with
    | nil => rw [hrest] at h; cases h
    | cons c rest =>
      rw [hrest] at h
      dsimp only at h
      split_ifs at h
      · cases h
        exact Nat.lt_succ_self _
      · cases h
        exact Nat.lt_succ_self _
      · split at h
        · cases h
          exact Nat.lt_succ_of_le (by rw [List.length_drop]; omega)
        · cases h
          exact Nat.lt_succ_self _

end KeyScan

/-- `unescape_key`. -/
def unescapeKey (key : Bytes) : Text := fromUtf16Lossy (KeyScan.loop.run ⟨[], key⟩)

/-- `latin1`. -/
def latin1 (b : Bytes) : Text := b.map fun x => Char.ofNat x.toNat

/-! ## Values -/

/-- `simple_escape`. -/
def simpleEscape (c : UInt8) : Option Nat :=
  if c = byte 'a' then some 0x07
  else if c = byte 'b' then some 0x08
  else if c = byte 'f' then some 0x0C
  else if c = byte 'n' then some 0x0A
  else if c = byte 'r' then some 0x0D
  else if c = byte 't' then some 0x09
  else if c = byte 'v' then some 0x0B
  else if c = byte '"' ∨ c = byte '?' ∨ c = byte '\'' ∨ c = byte '\\' then some c.toNat
  else none

/-- A byte that ends a chunk of a value. -/
def isStop (b : UInt8) : Bool := b == byte '\\' || b == byte '"' || b == byte ','

/-- A byte that is skipped around a value. -/
def isBlank (b : UInt8) : Bool := b == 0x20 || b == 0x09

/-- `chop_trailing_spaces`, but not below `limit`. -/
def chopTrailingSpaces (units : List Nat) (limit : Nat) : List Nat :=
  units.take limit ++ (units.drop limit).rdropWhile fun u => u == 0x20 || u == 0x09

/-- The digits that a greedy escape goes on with, accumulated into one 16-bit unit. -/
def greedyDigits (radix : Nat) (escaped : Nat) : Bytes → Nat × Bytes
  | [] => (escaped, [])
  | b :: rest =>
    match toDigit radix b with
    | some digit => greedyDigits radix (escaped * radix % 0x10000 + digit) rest
    | none => (escaped, b :: rest)

/-- `unescape_value`'s state. -/
structure Unescape where
  rest : Bytes
  isList : Bool
  list : List (List Nat)
  inQuoted : Bool
  currentQuoted : Bool
  result : List Nat
  chopLimit : Nat

namespace Unescape

/-- `continue 'normal`: any blanks are skipped, and the chop limit is reset. -/
def normal (s : Unescape) (skipSpaces : Bool) : Unescape :=
  { s with rest := if skipSpaces then s.rest.dropWhile isBlank else s.rest, chopLimit := s.result.length }

/-- `chop_trailing_spaces` of the current text, where it is not quoted. -/
def chop (s : Unescape) : Unescape :=
  if s.currentQuoted then s else { s with result := chopTrailingSpaces s.result s.chopLimit }

/-- A greedy escape from its first value on. -/
def greedy (s : Unescape) (escaped radix : Nat) (rest : Bytes) : Pass Unescape Unescape :=
  let read := greedyDigits radix escaped rest
  let pushed := { s with rest := read.2, result := s.result ++ [read.1] }
  if read.2 = [] then .done pushed else .next (pushed.normal false)

/-- An escape that is dropped with its backslash. -/
def dropped (s : Unescape) (rest : Bytes) : Pass Unescape Unescape :=
  .next { s with rest, chopLimit := s.result.length }

/-- The escape of a byte. -/
def escape (s : Unescape) (c : UInt8) (rest : Bytes) : Pass Unescape Unescape :=
  match simpleEscape c with
  | some escaped => .next ({ s with rest, result := s.result ++ [escaped] }.normal false)
  | none =>
    if c = byte 'x' then
      match rest with
      | [] => .done { s with rest := [] }
      | d :: _ => if isAsciiHexdigit d then s.greedy 0 16 rest else s.dropped rest
    else if byte '0' ≤ c ∧ c ≤ byte '7' then s.greedy (c.toNat - 0x30) 8 rest
    else match rest with
      | d :: rest' => if isNewline c ∧ isNewline d ∧ d ≠ c then s.dropped rest' else s.dropped rest
      | [] => s.dropped []

/-- The units of a chunk. A chunk stops at ASCII bytes only, so it splits no UTF-8 sequence. -/
def chunkUnits (utf8 : Bool) (chunk : Bytes) : List Nat :=
  if utf8 then encodeUtf16 (fromUtf8Lossy chunk) else chunk.map UInt8.toNat

/-- A `"` toggles quoting, and the blanks after a closing one are skipped. -/
def quote (s : Unescape) (rest : Bytes) : Unescape :=
  if s.inQuoted then { s with rest, currentQuoted := true, inQuoted := false }.normal true
  else { s with rest, currentQuoted := true, inQuoted := true }

/-- An unquoted `,` ends an element. -/
def comma (s : Unescape) (rest : Bytes) : Unescape :=
  { s.chop with rest, isList := true, list := s.list ++ [s.chop.result], result := [], currentQuoted := false }.normal true

/-- One pass of `unescape_value`. What a `\` leaves at the end is not chopped. -/
def step (utf8 : Bool) (s : Unescape) : Pass Unescape Unescape :=
  match s.rest with
  | [] => .done s.chop
  | c :: rest =>
    if c = byte '\\' then
      match rest with
      | [] => .done { s with rest := [] }
      | e :: rest => s.escape e rest
    else if c = byte '"' then .next (s.quote rest)
    else if c = byte ',' ∧ ¬ s.inQuoted then .next (s.comma rest)
    else
      .next { s with
        rest := rest.dropWhile fun b => !isStop b
        result := s.result ++ chunkUnits utf8 (c :: rest.takeWhile fun b => !isStop b) }

theorem length_greedyDigits_le (radix escaped : Nat) (rest : Bytes) :
    (greedyDigits radix escaped rest).2.length ≤ rest.length := by
  induction rest generalizing escaped with
  | nil => exact Nat.le_refl _
  | cons b rest ih =>
    unfold greedyDigits
    split
    · exact Nat.le_succ_of_le (ih _)
    · exact Nat.le_refl _

theorem greedy_next {s s' : Unescape} {escaped radix : Nat} {rest : Bytes} (h : s.greedy escaped radix rest = .next s') :
    s'.rest.length ≤ rest.length := by
  unfold greedy at h
  dsimp only at h
  split_ifs at h
  cases h
  exact length_greedyDigits_le _ _ _

theorem escape_next {s s' : Unescape} {c : UInt8} {rest : Bytes} (h : s.escape c rest = .next s') :
    s'.rest.length ≤ rest.length := by
  unfold escape dropped at h
  split at h
  · cases h
    exact Nat.le_refl _
  · split_ifs at h
    · split at h
      · cases h
      · split_ifs at h
        · exact greedy_next h
        · cases h
          exact Nat.le_refl _
    · exact greedy_next h
    · split at h
      · split_ifs at h
        · cases h
          exact Nat.le_succ _
        · cases h
          exact Nat.le_refl _
      · cases h
        exact Nat.le_refl _

theorem step_next {utf8 : Bool} {s s' : Unescape} (h : s.step utf8 = .next s') : s'.rest.length < s.rest.length := by
  have hblank : ∀ b : Bytes, (b.dropWhile isBlank).length ≤ b.length := fun _ => List.length_dropWhile_le _ _
  unfold step at h
  cases hrest : s.rest with
  | nil => rw [hrest] at h; cases h
  | cons c rest =>
    rw [hrest] at h
    dsimp only at h
    split_ifs at h
    · cases rest with
      | nil => cases h
      | cons e rest => exact Nat.lt_succ_of_le (Nat.le_succ_of_le (escape_next h))
    · cases h
      unfold quote normal
      by_cases hquoted : s.inQuoted
      · rw [if_pos hquoted]
        exact Nat.lt_succ_of_le (hblank rest)
      · rw [if_neg hquoted]
        exact Nat.lt_succ_self _
    · cases h
      exact Nat.lt_succ_of_le (hblank rest)
    · cases h
      exact Nat.lt_succ_of_le (List.length_dropWhile_le _ _)

/-- The loop of `unescape_value`. -/
def loop (utf8 : Bool) : Loop Unescape Unescape where
  body := step utf8
  size s := s.rest.length
  shrinks := step_next

/-- Before anything of a value is read. -/
def start (b : Bytes) : Unescape := normal ⟨b, false, [], false, false, [], 0⟩ true

end Unescape

/-- A value after `unescape_value`, in units, so that escaped halves of a pair come together. -/
inductive Unescaped
  | single (units : List Nat)
  | list (elements : List (List Nat))

/-- `unescape_value`. -/
def unescapeValue (b : Bytes) (utf8 : Bool) : Unescaped :=
  let s := (Unescape.loop utf8).run (Unescape.start b)
  if s.isList then .list (s.list ++ [s.result]) else .single s.result

/-! ## The forms of a value -/

/-- Qt's encodings. -/
def encodings : List Text :=
  ["@ByteArray(".toList, Value.stringOpening, Value.variantOpening, "@DateTime(".toList, "@Rect(".toList,
    "@Size(".toList, "@Point(".toList]

/-- `string_to_value`. -/
def stringToValue (text : Text) : Value :=
  if text.head? = some '@' then
    if text.getLast? = some ')' ∧ text = "@Invalid()".toList then .invalid
    else if text.getLast? = some ')' ∧ encodings.any (·.isPrefixOf text) then .encoded text
    else if text.tail.head? = some '@' then .string text.tail
    else .string text
  else .string text

/-- What is read of a line's value: `string_to_value`, `string_list_to_value`. -/
def readValue (b : Bytes) (utf8 : Bool) : Value :=
  match unescapeValue b utf8 with
  | .single units => stringToValue (fromUtf16Lossy units)
  | .list elements => .list (elements.map fun units => stringToValue (fromUtf16Lossy units))

end Cao.Ini
