import Cao.Ini.Encoding
import Cao.Word
import Mathlib.Data.UInt
import Mathlib.Tactic.Common

/-!
# Settings values

A settings file holds text, and the `QVariant` conversions read numbers and switches out of it
(`cao_profiles::ini::value`).

* `Value`, `Value.asStr`: what a key holds, and the text it converts from;
* `toQstring`, `toBool`, `toI64`, `toI32`, `toU32`, `toIntList`, `listEntries`: the conversions;
* `Value.intList`, `decodeVariantList`: a list of integers, and Qt's one-element form of it;
* `SameReadings`: two values that no conversion tells apart.
-/

namespace Cao.Ini

/-- One value, as it is held after a file is read. -/
inductive Value
  /-- `@Invalid()`, and what a missing key reads as. -/
  | invalid
  | string (text : Text)
  /-- A list split on unquoted commas. -/
  | list (elements : List Value)
  /-- Any other `@…)` encoding, kept as its unescaped text. -/
  | encoded (raw : Text)

/-! ## Text -/

/-- `str::strip_prefix`. -/
def stripStart (start s : Text) : Option Text := if start.isPrefixOf s then some (s.drop start.length) else none

/-- `str::strip_suffix`. -/
def stripEnd (ending s : Text) : Option Text :=
  if ending.isSuffixOf s then some (s.take (s.length - ending.length)) else none

/-- `char::is_whitespace`. -/
def isWhitespace (c : Char) : Bool :=
  let n := c.toNat
  (0x9 ≤ n && n ≤ 0xD) || n == 0x20 || n == 0x85 || n == 0xA0 || n == 0x1680 || (0x2000 ≤ n && n ≤ 0x200A) ||
    n == 0x2028 || n == 0x2029 || n == 0x202F || n == 0x205F || n == 0x3000

/-- `str::trim`. -/
def trim (s : Text) : Text := (s.dropWhile isWhitespace).rdropWhile isWhitespace

/-- The number that decimal digits stand for. -/
def parseDigits (digits : Text) : Option Nat :=
  if digits ≠ [] ∧ digits.all Char.isDigit then some (Decimal.value digits) else none

/-- `str::parse::<u64>`. -/
def parseU64 (s : Text) : Option Nat :=
  (parseDigits ((stripStart ['+'] s).getD s)).filter (· < u64Size)

/-- `str::parse::<i64>`. -/
def parseI64 (s : Text) : Option Int :=
  match stripStart ['-'] s with
  | some digits => ((parseDigits digits).filter (· ≤ u64Size / 2)).map fun n => -(n : Int)
  | none => ((parseDigits ((stripStart ['+'] s).getD s)).filter (· < u64Size / 2)).map Int.ofNat

/-- `to_string` of an unsigned integer. -/
def natText (n : Nat) : Text := Nat.toDigits 10 n

/-- `to_string` of a signed integer. -/
def intText (i : Int) : Text := if i < 0 then '-' :: natText i.natAbs else natText i.natAbs

namespace Value

/-- What a `@String(…)` opens with. -/
def stringOpening : Text := "@String(".toList

/-- What a `@Variant(…)` opens with. -/
def variantOpening : Text := "@Variant(".toList

/-- `as_str`: the text that conversions start from, a plain string or the inside of `@String(…)`. -/
def asStr : Value → Option Text
  | string text => some text
  | encoded raw => (stripStart stringOpening raw).bind (stripEnd [')'])
  | invalid | list _ => none

/-- `to_qstring`. -/
def toQstring (v : Value) : Text := v.asStr.getD []

/-- `to_bool`: text is false only when it is empty, `0` or `false`. -/
def toBool (tables : CaseTables) (v : Value) : Bool :=
  match v.asStr with
  | some text =>
    let lower := toLowercase tables text
    !(lower == [] || lower == ['0'] || lower == "false".toList)
  | none => false

/-- `to_i64`. -/
def toI64 (v : Value) : Int :=
  match v.asStr with
  | some text => (parseI64 (trim text)).getD 0
  | none => 0

/-- `to_i32`: `to_i64`, truncated. -/
def toI32 (v : Value) : Int32 := Int32.ofInt v.toI64

/-- `to_u32`: an unsigned 64-bit number, truncated. -/
def toU32 (v : Value) : UInt32 :=
  match v.asStr with
  | some text => UInt32.ofNat ((parseU64 (trim text)).getD 0)
  | none => 0

/-! ## Lists -/

/-- `TYPE_INT`. -/
def typeInt : Nat := 2
/-- `TYPE_UINT`. -/
def typeUint : Nat := 3
/-- `TYPE_LONGLONG`. -/
def typeLonglong : Nat := 4
/-- `TYPE_ULONGLONG`. -/
def typeUlonglong : Nat := 5
/-- `TYPE_VARIANT_LIST`. -/
def typeVariantList : Nat := 9
/-- `TYPE_STRING`. -/
def typeString : Nat := 10

/-- `u32::to_be_bytes`. -/
def beBytes (n : Nat) : List Nat := [n / 0x1000000 % 0x100, n / 0x10000 % 0x100, n / 0x100 % 0x100, n % 0x100]

/-- `Value::int_list`: the value that a list of integers is set as. -/
def intList : List Int32 → Value
  | [] => invalid
  | [value] =>
    let blob := beBytes typeVariantList ++ beBytes 1 ++ beBytes typeInt ++ beBytes value.toUInt32.toNat
    encoded (variantOpening ++ blob.map Char.ofNat ++ [')'])
  | values => list (values.map fun value => string (intText value.toInt))

/-- `Stream::u32`: the next big-endian word of a stream of bytes. -/
def streamU32 : List Nat → Option (Nat × List Nat)
  | a :: b :: c :: d :: rest => some (((a * 0x100 + b) * 0x100 + c) * 0x100 + d, rest)
  | _ => none

/-- `Stream::u64`. -/
def streamU64 (stream : List Nat) : Option (Nat × List Nat) :=
  (streamU32 stream).bind fun high => (streamU32 high.2).map fun low => (high.1 * 0x100000000 + low.1, low.2)

/-- The UTF-16BE units of bytes. -/
def beUnits : List Nat → List Nat
  | a :: b :: rest => (a * 0x100 + b) :: beUnits rest
  | _ => []

/-- `Stream::qstring`: a byte length, `0xFFFFFFFF` for a null string, then UTF-16BE. -/
def streamQstring (stream : List Nat) : Option (Text × List Nat) :=
  (streamU32 stream).bind fun length =>
    if length.1 = 0xFFFFFFFF then some ([], length.2)
    else if length.1 % 2 ≠ 0 ∨ length.2.length < length.1 then none
    else some (fromUtf16Lossy (beUnits (length.2.take length.1)), length.2.drop length.1)

/-- One element of a `QVariantList`, with its type. -/
def streamElement (stream : List Nat) : Option (Text × List Nat) :=
  (streamU32 stream).bind fun type =>
    if type.1 = typeInt then (streamU32 type.2).map fun n => (intText (Int32.ofNat n.1).toInt, n.2)
    else if type.1 = typeUint then (streamU32 type.2).map fun n => (natText n.1, n.2)
    else if type.1 = typeLonglong then (streamU64 type.2).map fun n => (intText (Int64.ofNat n.1).toInt, n.2)
    else if type.1 = typeUlonglong then (streamU64 type.2).map fun n => (natText n.1, n.2)
    else if type.1 = typeString then streamQstring type.2
    else none

/-- `count` elements of a `QVariantList`. -/
def streamElements : Nat → List Nat → Option (List Value)
  | 0, _ => some []
  | count + 1, stream =>
    (streamElement stream).bind fun element => (streamElements count element.2).map (string element.1 :: ·)

/-- `decode_variant_list`: the elements of the payload of a `@Variant(…)`. -/
def decodeVariantList (payload : Text) : Option (List Value) :=
  let stream := (encodeUtf16 payload).map fun unit => if unit < 0x100 then unit else '?'.toNat
  (streamU32 stream).bind fun type =>
    if type.1 ≠ typeVariantList then none
    else (streamU32 type.2).bind fun count => streamElements count.1 count.2

/-- The payload of a `@Variant(…)`, its closing bracket included. -/
def variantPayload : Value → Option Text
  | encoded raw => stripStart variantOpening raw
  | _ => none

/-- `to_int_list`. -/
def toIntList (v : Value) : List Int32 :=
  match v with
  | invalid => []
  | list elements => elements.map toI32
  | string _ | encoded _ =>
    match v.variantPayload with
    | some payload => ((decodeVariantList payload).getD []).map toI32
    | none =>
      match v.asStr with
      | some text => if trim text ≠ [] then [v.toI32] else []
      | none => []

/-- `list_entries`: each entry of a list value, unconverted. -/
def listEntries (v : Value) : Option (List Value) :=
  match v with
  | invalid => some []
  | list elements => some elements
  | string _ | encoded _ =>
    match v.variantPayload with
    | some payload => decodeVariantList payload
    | none =>
      match v.asStr with
      | some text => if trim text = [] then some [] else some [v]
      | none => none

/-! ## Readings -/

/-- What the getters read of one entry of a list. -/
def readings (v : Value) : Option Text × List Int32 := (v.asStr, v.toIntList)

/-- **Two values that no getter tells apart.** Each entry of a list is itself read by the getters. -/
structure SameReadings (v w : Value) : Prop where
  readings : v.readings = w.readings
  entries : v.listEntries.map (·.map Value.readings) = w.listEntries.map (·.map Value.readings)
  invalid : v = invalid ↔ w = invalid

theorem SameReadings.refl (v : Value) : SameReadings v v := ⟨rfl, rfl, Iff.rfl⟩

variable {v w : Value} {tables : CaseTables}

theorem SameReadings.asStr (h : SameReadings v w) : v.asStr = w.asStr := congrArg Prod.fst h.readings

theorem SameReadings.toIntList (h : SameReadings v w) : v.toIntList = w.toIntList := congrArg Prod.snd h.readings

theorem SameReadings.toQstring (h : SameReadings v w) : v.toQstring = w.toQstring := by
  unfold Value.toQstring
  rw [h.asStr]

theorem SameReadings.toBool (h : SameReadings v w) : v.toBool tables = w.toBool tables := by
  unfold Value.toBool
  rw [h.asStr]

theorem SameReadings.toI64 (h : SameReadings v w) : v.toI64 = w.toI64 := by
  unfold Value.toI64
  rw [h.asStr]

theorem SameReadings.toI32 (h : SameReadings v w) : v.toI32 = w.toI32 := by
  unfold Value.toI32
  rw [h.toI64]

theorem SameReadings.toU32 (h : SameReadings v w) : v.toU32 = w.toU32 := by
  unfold Value.toU32
  rw [h.asStr]

end Value

end Cao.Ini
