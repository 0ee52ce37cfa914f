import Cao.Pack.Data
import Cao.Lib.OrdMap

/-!
# The Archive library

What the writer and the reader use of `ba2`, which is not part of this repository: the Archives it holds in memory, and
its operations as parameters, with what the code relies on.

* `Ba2Keys`: a key compares by a hash of its name, and stores a name;
* `Tes4Archive`, `Fo4Archive`: the Archives of both families, in the order of their keys;
* `Ba2`: compressing, decompressing, writing and reading;
* `Tes4Layout`: the documented layout of a BSA.
-/

namespace Cao.Pack

/-- What a key of each kind is made of: a hash it compares by, and the name it stores. -/
structure Ba2Keys where
  /-- `tes4::ArchiveKey`. -/
  directoryHash : Text → Nat
  directoryName : Text → Text
  /-- `tes4::DirectoryKey`. -/
  fileHash : Text → Nat
  fileName : Text → Text
  /-- `fo4::ArchiveKey`. -/
  entryHash : Text → Nat
  entryName : Text → Text

/-! ## BSAs -/

/-- `tes4::File`: stored bytes, and the length they decompress to where they are compressed. -/
structure Tes4File where
  data : Bytes
  decompressedLen : Option Nat
  deriving DecidableEq, Repr

/-- `tes4::Directory`. -/
abbrev Tes4Directory (keys : Ba2Keys) := OrdMap keys.fileHash Tes4File

/-- `tes4::Archive`. -/
abbrev Tes4Archive (keys : Ba2Keys) := OrdMap keys.directoryHash (Tes4Directory keys)

/-- `tes4::ArchiveOptions`, with the flags the writer sets. -/
structure Tes4Options where
  version : ArchiveVersion
  directoryStrings : Bool
  fileStrings : Bool
  compressed : Bool
  deriving DecidableEq, Repr

/-- `tes4::Error`. -/
inductive Tes4Error
  | integralOverflow
  | integralTruncation
  | other
  deriving DecidableEq, Repr

/-! ## BA2s -/

/-- `fo4::Format`, of those the writer uses. -/
inductive Fo4Format
  | gnrl
  | dx10
  deriving DecidableEq, Repr

/-- `fo4::Chunk`. -/
structure Fo4Chunk where
  data : Bytes
  decompressedLen : Option Nat
  mips : Option (Nat × Nat)
  deriving DecidableEq, Repr

/-- `fo4::File`: its chunks, and the header a texture's DDS is rebuilt from. -/
structure Fo4File where
  header : Bytes
  chunks : List Fo4Chunk
  deriving DecidableEq, Repr

/-- `fo4::Archive`. -/
abbrev Fo4Archive (keys : Ba2Keys) := OrdMap keys.entryHash Fo4File

/-- `fo4::ArchiveOptions`. -/
structure Fo4Options where
  format : Fo4Format
  strings : Bool
  deriving DecidableEq, Repr

/-! ## Operations -/

/-- An Archive that was read. -/
inductive ReadContainer (keys : Ba2Keys)
  | tes4 (archive : Tes4Archive keys) (options : Tes4Options)
  | fo4 (archive : Fo4Archive keys) (options : Fo4Options)

/-- The operations of `ba2`; `none` is a failure. -/
structure Ba2 (keys : Ba2Keys) where
  /-- `tes4::File::compress`. -/
  compress : ArchiveVersion → Tes4File → Option Tes4File
  /-- `tes4::File::write`. -/
  extractTes4 : ArchiveVersion → Tes4File → Option Bytes
  /-- `tes4::Archive::write`. -/
  writeTes4 : Tes4Archive keys → Tes4Options → Except Tes4Error Bytes
  /-- `fo4::File::read`, of a source's bytes, compressed or not. -/
  readFile : Fo4Format → Bool → Bytes → Option Fo4File
  /-- `fo4::File::write`. -/
  extractFo4 : Fo4Format → Fo4File → Option Bytes
  /-- `fo4::Archive::write`. -/
  writeFo4 : Fo4Archive keys → Fo4Options → Option Bytes
  /-- `guess_format`, and the `read` of the format. -/
  read : Bytes → Option (ReadContainer keys)

/-! ## The layout of a BSA -/

/-- The bytes of a text. -/
def textBytes (s : Text) : Nat := (utf8 s).length

/-- The bytes a file takes: a compressed one has its original size before it. -/
def Tes4File.storedBytes (file : Tes4File) : Nat := (if file.decompressedLen.isSome then 4 else 0) + file.data.length

/-- The bytes of a file's record, name and data. -/
def tes4FileBytes (keys : Ba2Keys) (entry : Text × Tes4File) : Nat :=
  bsaFileRecord + (textBytes (keys.fileName entry.1) + 1) + entry.2.storedBytes

/-- The bytes of a folder: its record, its length-prefixed, null-terminated name, and its files. -/
def tes4FolderBytes (keys : Ba2Keys) (record : Nat) (entry : Text × Tes4Directory keys) : Nat :=
  record + 1 + textBytes (keys.directoryName entry.1) + 1 + (entry.2.entries.map (tes4FileBytes keys)).sum

/-- The bytes of a BSA with directory and file strings. -/
def tes4Bytes {keys : Ba2Keys} (record : Nat) (archive : Tes4Archive keys) : Nat :=
  bsaHeader + (archive.entries.map (tes4FolderBytes keys record)).sum

/-- **The documented layout of a BSA**, and that no stored name is longer than what it is made of; a root-level file's
directory may be stored as one character. -/
structure Tes4Layout {keys : Ba2Keys} (ba2 : Ba2 keys) : Prop where
  written : ∀ archive options bytes record, options.directoryStrings = true → options.fileStrings = true →
    folderRecord options.version = some record → ba2.writeTes4 archive options = .ok bytes →
    bytes.length = tes4Bytes record archive
  directoryName : ∀ name, textBytes (keys.directoryName name) ≤ max 1 (textBytes name)
  fileName : ∀ name, textBytes (keys.fileName name) ≤ max 1 (textBytes name)

end Cao.Pack
