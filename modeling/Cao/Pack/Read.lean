import Cao.Pack.Write

/-!
# Reading an Archive

`read.rs`: what an Archive lists, and the bytes that a name extracts to, of the containers that the writer makes.

* `ArchivedAsset`, `archivedAssets`: the listing;
* `extract`: the file of a name, looked up by its keys;
* `normalizedName`, `IgnoringKeys`, `NormalizingKeys`, `Undoes`: names as `ba2` keys them, and what the code relies on.
-/

namespace Cao.Pack

variable {keys : Ba2Keys}

/-! ## The listing -/

/-- `DX10_HEADER_LEN`. -/
def dx10HeaderLen : Nat := 4 + 124 + 20

/-- `ArchivedAsset`. -/
structure ArchivedAsset where
  name : Text
  size : Nat
  compressed : Bool
  chunks : Nat
  mipRanges : List (Nat × Nat)
  deriving DecidableEq, Repr

/-- A name with each `/` mapped to `\`. -/
def backslashed (name : Text) : Text := name.map fun c => if c = '/' then '\\' else c

/-- The listed name of a BSA's file. -/
def tes4Name (directory file : Text) : Text :=
  backslashed (if directory = [] then file else directory ++ '\\' :: file)

/-- One file of a BSA's directory. -/
def tes4Asset (keys : Ba2Keys) (directory : Text) (file : Text × Tes4File) : ArchivedAsset where
  name := tes4Name (keys.directoryName directory) (keys.fileName file.1)
  size := file.2.decompressedLen.getD file.2.data.length
  compressed := file.2.decompressedLen.isSome
  chunks := 1
  mipRanges := []

/-- One file of a BA2. -/
def fo4Asset (keys : Ba2Keys) (format : Fo4Format) (file : Text × Fo4File) : ArchivedAsset where
  name := keys.entryName file.1
  size := (file.2.chunks.map fun chunk => chunk.decompressedLen.getD chunk.data.length).sum +
    if format = .dx10 then dx10HeaderLen else 0
  compressed := !file.2.chunks.isEmpty && file.2.chunks.all fun chunk => chunk.decompressedLen.isSome
  chunks := file.2.chunks.length
  mipRanges := file.2.chunks.filterMap Fo4Chunk.mips

/-- `ReadArchive::archived_assets`. -/
def archivedAssets : ReadContainer keys → List ArchivedAsset
  | .tes4 archive _ => archive.entries.flatMap fun directory => directory.2.entries.map (tes4Asset keys directory.1)
  | .fo4 archive options => archive.entries.map (fo4Asset keys options.format)

/-! ## Extraction -/

/-- `ArchiveError`, of extraction. -/
inductive ExtractError
  | missingArchivedAsset (archive : Path) (name : Text)
  | tes4 (path : Path)
  | fo4 (path : Path)
  deriving DecidableEq, Repr

/-- The file of a name in a BSA. -/
def findTes4 (archive : Tes4Archive keys) (name : Text) : Option Tes4File :=
  (archive.get? (splitKey name).1).bind fun directory => (directory.2.get? (splitKey name).2).map Prod.snd

/-- `ReadArchive::extract`: what is written to `out`. -/
def extract (ba2 : Ba2 keys) (path : Path) (container : ReadContainer keys) (name : Text) : Except ExtractError Bytes :=
  match container with
  | .tes4 archive options =>
    match findTes4 archive (backslashed name) with
    | none => .error (.missingArchivedAsset path name)
    | some file => (ba2.extractTes4 options.version file).elim (.error (.tes4 path)) .ok
  | .fo4 archive options =>
    match archive.get? name with
    | none => .error (.missingArchivedAsset path name)
    | some entry => (ba2.extractFo4 options.format entry.2).elim (.error (.fo4 path)) .ok

/-! ## What the code relies on -/

/-- A name in lower case, with backslashes. -/
def normalizedName (name : Text) : Text := (backslashed name).map Char.toLower

/-- No component of a name is empty. -/
def Unbroken (name : Text) : Prop := ∀ part ∈ (backslashed name).splitOn '\\', part ≠ []

/-- A key is a function of the name that ignores case and separator kind. -/
structure IgnoringKeys (keys : Ba2Keys) : Prop where
  directoryHash : ∀ a b, normalizedName a = normalizedName b → keys.directoryHash a = keys.directoryHash b
  fileHash : ∀ a b, normalizedName a = normalizedName b → keys.fileHash a = keys.fileHash b
  entryHash : ∀ a b, normalizedName a = normalizedName b → keys.entryHash a = keys.entryHash b

/-- A key stores a name of fewer bytes than a limit in lower case, with backslashes. -/
structure NormalizingKeys (keys : Ba2Keys) (limit : Nat) : Prop extends IgnoringKeys keys where
  directoryName : ∀ name, Unbroken name → textBytes name < limit → keys.directoryName name = normalizedName name
  fileName : ∀ name, Unbroken name → textBytes name < limit → keys.fileName name = normalizedName name
  entryName : ∀ name, Unbroken name → textBytes name < limit → keys.entryName name = normalizedName name

/-- Reading undoes writing a container, decompressing undoes compressing a file, and writing a read DDS gives back its
bytes. -/
structure Undoes (ba2 : Ba2 keys) : Prop where
  tes4 : ∀ archive options bytes, ba2.writeTes4 archive options = .ok bytes →
    ba2.read bytes = some (.tes4 archive options)
  fo4 : ∀ archive options bytes, ba2.writeFo4 archive options = some bytes → ba2.read bytes = some (.fo4 archive options)
  stored : ∀ version bytes, ba2.extractTes4 version ⟨bytes, none⟩ = some bytes
  compressed : ∀ version bytes packed, ba2.compress version ⟨bytes, none⟩ = some packed →
    ba2.extractTes4 version packed = some bytes
  file : ∀ format compressed bytes file, ba2.readFile format compressed bytes = some file →
    ba2.extractFo4 format file = some bytes

end Cao.Pack
