import Cao.Ini.Encoding

/-!
# Model paths of a plugin

The path that a MODL field names (`modl_path` and `clean_path` of `cao_optimizers::plugins`).

* `cleanPath`: `QDir::cleanPath`;
* `modlPath`: the text up to the first NUL, beneath `meshes/`.
-/

namespace Cao.Plugin

/-! ## `QDir::cleanPath` -/

/-- The components with one more. -/
def pushComponent (absolute : Bool) (components : List Text) (component : Text) : List Text :=
  if component = [] ∨ component = ['.'] then components
  else if component = ['.', '.'] then
    match components.getLast? with
    | some last =>
      if last ≠ ['.', '.'] then components.dropLast
      else if absolute then components
      else components ++ [['.', '.']]
    -- nothing lies above the root
    | none => if absolute then components else components ++ [['.', '.']]
  else components ++ [component]

/-- `clean_path`. -/
def cleanPath (path : Text) : Text :=
  let path := path.map fun c => if c = '\\' then '/' else c
  if path = [] then path
  else
    let absolute := path.head? == some '/'
    let joined := ['/'].intercalate ((path.splitOn '/').foldl (pushComponent absolute) [])
    if absolute then '/' :: joined
    else if joined = [] then ['.']
    else joined

/-! ## A MODL field -/

/-- `str::get(..count)`: the characters whose UTF-8 the first `count` bytes are. -/
def getBytes : Nat → Text → Option Text
  | 0, _ => some []
  | _ + 1, [] => none
  | count + 1, c :: text =>
    if c.utf8Size ≤ count + 1 then (getBytes (count + 1 - c.utf8Size) text).map (c :: ·) else none

/-- `str::eq_ignore_ascii_case`. -/
def eqIgnoreAsciiCase (s t : Text) : Bool := s.map Char.toLower == t.map Char.toLower

/-- `modl_path`. -/
def modlPath (data : Bytes) : Text :=
  let text := fromUtf8Lossy (data.takeWhile (· != 0))
  if (getBytes 6 text).any fun head => eqIgnoreAsciiCase head "meshes".toList then cleanPath text
  else cleanPath ("meshes/".toList ++ text)

/-- A path under `meshes` in any case is cleaned as it is. -/
example : modlPath (utf8 "Meshes\\a\\..\\b.nif".toList ++ [0, 65]) = "Meshes/b.nif".toList := by decide +kernel

end Cao.Plugin
