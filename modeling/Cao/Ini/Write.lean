import Cao.Ini.File
import Mathlib.Data.List.Basic

/-!
# Writing a settings file

What a save writes (`cao_profiles::ini::write`): ASCII lines ending in CRLF, keys grouped by section.

* `escapeKey`, `escapeString`: how keys and values are spelled;
* `variantToString`, `writeValue`: the text of a value;
* `sections`, `serialize`: the whole file.
-/

namespace Cao.Ini

/-- `str::split_once`: what stands before and after the first `c`. -/
def splitOnce (c : Char) : Text → Option (Text × Text)
  | [] => none
  | x :: s => if x = c then some ([], s) else (splitOnce c s).map fun p => (x :: p.1, p.2)

/-- The section a key is written in. -/
def sectionOf (key : Text) : Text :=
  match splitOnce '/' key with
  | some (group, _) => group
  | none => []

/-- What a key is written as in its section. -/
def nameOf (key : Text) : Text :=
  match splitOnce '/' key with
  | some (_, name) => name
  | none => key

/-! ## Keys -/

/-- `{:02X}` and `{:04X}`: that many uppercase hexadecimal digits. -/
def upperHex : Nat → Nat → Bytes
  | 0, _ => []
  | digits + 1, n => upperHex digits (n / 16) ++ [if n % 16 < 10 then UInt8.ofNat (0x30 + n % 16) else UInt8.ofNat (0x37 + n % 16)]

/-- A unit that a key shows as it is. -/
def isPlainUnit (unit : Nat) : Bool :=
  unit < 0x100 && (isAsciiAlphanumeric (UInt8.ofNat unit) || (bytes ['_', '-', '.']).contains (UInt8.ofNat unit))

/-- How a key's unit is written. -/
def escapeKeyUnit (unit : Nat) : Bytes :=
  if unit = 0x2F then [byte '\\']
  else if isPlainUnit unit then [UInt8.ofNat unit]
  else if unit < 0x100 then byte '%' :: upperHex 2 unit
  else byte '%' :: byte 'U' :: upperHex 4 unit

/-- `escape_key`. -/
def escapeKey (key : Text) : Bytes := (encodeUtf16 key).flatMap escapeKeyUnit

/-! ## Values -/

/-- `{:x}`: lowercase hexadecimal digits, unpadded. -/
def lowerHex (n : Nat) : Bytes := bytes (Nat.toDigits 16 n)

/-- The hexadecimal escape of a unit. -/
def hexEscape (unit : Nat) : Bytes := byte '\\' :: byte 'x' :: lowerHex unit

/-- Whether a unit is an ASCII hexadecimal digit. -/
def isHexUnit (unit : Nat) : Bool := unit < 0x100 && isAsciiHexdigit (UInt8.ofNat unit)

/-- The escape that a unit has a name for. -/
def namedEscape (unit : Nat) : Option UInt8 :=
  if unit = 0x07 then some (byte 'a')
  else if unit = 0x08 then some (byte 'b')
  else if unit = 0x0C then some (byte 'f')
  else if unit = 0x0A then some (byte 'n')
  else if unit = 0x0D then some (byte 'r')
  else if unit = 0x09 then some (byte 't')
  else if unit = 0x0B then some (byte 'v')
  else if unit = 0x22 ∨ unit = 0x5C then some (UInt8.ofNat unit)
  else none

/-- How a value's units are written, `escapeNext` after an escape that a hexadecimal digit would go on. -/
def escapeUnits (escapeNext : Bool) : List Nat → Bytes
  | [] => []
  | unit :: units =>
    if escapeNext ∧ isHexUnit unit then hexEscape unit ++ escapeUnits true units
    else if unit = 0 then byte '\\' :: byte '0' :: escapeUnits true units
    else match namedEscape unit with
      | some name => byte '\\' :: name :: escapeUnits false units
      | none =>
        if unit < 0x20 ∨ 0x7F ≤ unit then hexEscape unit ++ escapeUnits true units
        else UInt8.ofNat unit :: escapeUnits false units

/-- A unit that a value is quoted for. -/
def isSeparatorUnit (unit : Nat) : Bool := unit == 0x3B || unit == 0x2C || unit == 0x3D

/-- `escape_string`. -/
def escapeString (text : Text) : Bytes :=
  let written := escapeUnits false (encodeUtf16 text)
  if (encodeUtf16 text).any isSeparatorUnit ∨ written.head? = some (byte ' ') ∨ written.getLast? = some (byte ' ') then
    byte '"' :: written ++ [byte '"']
  else written

/-- The text of an invalid value. -/
def invalidText : Text := "@Invalid()".toList

/-- `variant_to_string`: an `@` gains a second one, and text that holds NUL is a `@String(…)`. -/
def variantToString : Value → Text
  | .invalid => invalidText
  | .string text =>
    if '\x00' ∈ text then Value.stringOpening ++ text ++ [')']
    else if text.head? = some '@' then '@' :: text
    else text
  | .encoded raw => raw
  | .list _ => invalidText

/-- `write_value`: the text after `key=`. -/
def writeValue : Value → Bytes
  | .list [] => bytes invalidText
  | .list elements => (bytes [',', ' ']).intercalate (elements.map fun element => escapeString (variantToString element))
  | scalar => escapeString (variantToString scalar)

/-! ## The file -/

/-- The end of a line. -/
def crlf : Bytes := bytes ['\r', '\n']

/-- An entry put into its section: a new section goes last. -/
def addToSection (group : Text) (entry : Entry) : List (Text × List Entry) → List (Text × List Entry)
  | [] => [(group, [entry])]
  | (name, entries) :: rest =>
    if name = group then (name, entries ++ [entry]) :: rest
    else (name, entries) :: addToSection group entry rest

/-- Sections in the order of their first keys. -/
def sections (entries : List Entry) : List (Text × List Entry) :=
  entries.foldl (fun found entry => addToSection (sectionOf entry.key) entry found) []

/-- `General` in lowercase. -/
def generalName : Text := "general".toList

/-- The line that opens a section. A real `General` group has a name of its own. -/
def sectionHeader (group : Text) : Bytes :=
  let header := escapeKey group
  if header = [] then bytes "[General]".toList
  else if eqIgnoreAsciiCase header (bytes generalName) then bytes "[%General]".toList
  else byte '[' :: header ++ [byte ']']

/-- The line of an entry. -/
def entryLine (entry : Entry) : Bytes := escapeKey (nameOf entry.key) ++ byte '=' :: writeValue entry.value

/-- A section's lines. -/
def sectionLines (group : Text × List Entry) : List Bytes := sectionHeader group.1 :: group.2.map entryLine

/-- A section, each line of it ended. -/
def sectionBytes (group : Text × List Entry) : Bytes := (sectionLines group).flatMap (· ++ crlf)

/-- `serialize`: the sections with a blank line between them. -/
def serialize {tables : CaseTables} (ini : IniFile tables) : Bytes :=
  crlf.intercalate ((sections ini.entries).map sectionBytes)

/-- `to_written`, `value_text`: the text after `key=`, as a message quotes it. -/
def valueText (v : Value) : Text := (writeValue v).map fun b => Char.ofNat b.toNat

end Cao.Ini
