import Cao.Pack.Library
import Cao.Archive.EntryPath

/-!
# Writing an Archive

`write.rs`: the files of a planned Archive, read, compressed where that shrinks them, keyed by their names and written
with `ba2`.

* `archiveKey`, `smallerStored`: the name and the stored form of a source;
* `tes4Archive`, `fo4Archive`: the Archive of keyed files, the first of a name kept;
* `prepare`, `checkSizeCap`, `writeArchiveInto`: the writer;
* `GameArchivePacker.write`: a planned Archive, rebuilt and written.
-/

namespace Cao.Pack

variable {keys : Ba2Keys}

/-! ## Sources -/

/-- `archive_key`. -/
def archiveKey (path root : Path) : Except ArchiveError Text :=
  match relativeTo root path with
  | none => .error (.outsideRoot path root)
  | some relative =>
    match (nativeText relative).toStr with
    | none => .error (.nonUnicodeName path)
    | some name => .ok (name.map fun c => if c = '/' then '\\' else c)

/-- What an option comes to, with the error of a failure. -/
def orError {α : Type} (e : ArchiveError) : Option α → Except ArchiveError α
  | some a => .ok a
  | none => .error e

/-- `smaller_stored`. -/
def smallerStored (ba2 : Ba2 keys) (version : ArchiveVersion) (file : Tes4File) : Option Tes4File :=
  match ba2.compress version file with
  | none => none
  | some packed => if packed.data.length + 4 < file.data.length then some packed else some file

/-- One source of a BSA, as it is stored. -/
def tes4Source (ba2 : Ba2 keys) (readSource : Path → Option Bytes) (version : ArchiveVersion) (compressed : Bool)
    (path : Path) : Except ArchiveError Tes4File := do
  let bytes ← orError (.tes4 path) (readSource path)
  if compressed then orError (.tes4 path) (smallerStored ba2 version ⟨bytes, none⟩) else return ⟨bytes, none⟩

/-- One source of a BA2, as it is stored. -/
def fo4Source (ba2 : Ba2 keys) (readSource : Path → Option Bytes) (format : Fo4Format) (compressed : Bool)
    (path : Path) : Except ArchiveError Fo4File := do
  let bytes ← orError (.fo4 path) (readSource path)
  orError (.fo4 path) (ba2.readFile format compressed bytes)

/-! ## Keyed files -/

/-- `rsplit_once('\\')`, or an empty directory. -/
def splitKey (key : Text) : Text × Text :=
  if '\\' ∈ key then
    let name := (key.reverse.takeWhile (· ≠ '\\')).reverse
    (key.take (key.length - name.length - 1), name)
  else ([], key)

/-- One file more of a directory; one that has its name already stays. -/
def addFileTo (name : Text) (file : Tes4File) (directory : Tes4Directory keys) : Tes4Directory keys :=
  if (directory.get? name).isNone then directory.upsert name fun _ => file else directory

/-- One keyed file more of a BSA. -/
def addTes4 (archive : Tes4Archive keys) (keyed : Text × Tes4File) : Tes4Archive keys :=
  archive.upsert (splitKey keyed.1).1 fun directory =>
    addFileTo (splitKey keyed.1).2 keyed.2 (directory.getD OrdMap.empty)

/-- `tes4_archive`. -/
def tes4Archive (files : List (Text × Tes4File)) : Tes4Archive keys := files.foldl addTes4 OrdMap.empty

/-- One keyed file more of a BA2; the first of a name stays. -/
def addFo4 (archive : Fo4Archive keys) (keyed : Text × Fo4File) : Fo4Archive keys :=
  if (archive.get? keyed.1).isNone then archive.upsert keyed.1 fun _ => keyed.2 else archive

/-- The BA2 of keyed files. -/
def fo4Archive (files : List (Text × Fo4File)) : Fo4Archive keys := files.foldl addFo4 OrdMap.empty

/-! ## The writer -/

/-- `PreparedArchive`. -/
inductive PreparedArchive (keys : Ba2Keys)
  | tes4 (archive : Tes4Archive keys) (options : Tes4Options) (cap : Option Nat)
  | fo4 (archive : Fo4Archive keys) (options : Fo4Options)

/-- The keyed path of every source. -/
def keyedPaths (data : ArchiveData) (root : Path) : Except ArchiveError (List (Text × Path)) :=
  data.files.mapM fun path => (archiveKey path root).map fun key => (key, path)

/-- Every source, read with `read`. -/
def readSources {α : Type} (read : Path → Except ArchiveError α) (sources : List (Text × Path)) :
    Except ArchiveError (List (Text × α)) :=
  sources.mapM fun source => (read source.2).map fun file => (source.1, file)

/-- The options a BSA is written with. -/
def tes4Options (version : ArchiveVersion) (compressed : Bool) : Tes4Options := ⟨version, true, true, compressed⟩

/-- The `fo4::Format` of a container. -/
def fo4Format (version : ArchiveVersion) : Fo4Format := if version = .fo4Dx then .dx10 else .gnrl

/-- `prepare`. -/
def prepare (ba2 : Ba2 keys) (readSource : Path → Option Bytes) (compress : Bool) (data : ArchiveData) (root : Path) :
    Except ArchiveError (PreparedArchive keys) := do
  let compressed := data.compressed compress
  let sources ← keyedPaths data root
  match data.version with
  | .tes5 | .sse =>
    let files ← readSources (tes4Source ba2 readSource data.version compressed) sources
    return .tes4 (tes4Archive files) (tes4Options data.version compressed) data.sizeCap
  | .fo4 | .fo4Dx =>
    let files ← readSources (fo4Source ba2 readSource (fo4Format data.version) compressed) sources
    return .fo4 (fo4Archive files) ⟨fo4Format data.version, true⟩

/-- `tes4_write`. -/
def tes4Write (ba2 : Ba2 keys) (archive : Tes4Archive keys) (options : Tes4Options) (outPath : Path) :
    Except ArchiveError Bytes :=
  match ba2.writeTes4 archive options with
  | .ok bytes => .ok bytes
  | .error .other => .error (.tes4 outPath)
  | .error _ => .error (.archiveTooLarge outPath)

/-- `check_size_cap`: the Archive is measured by writing it. -/
def checkSizeCap (ba2 : Ba2 keys) (archive : Tes4Archive keys) (options : Tes4Options) (cap : Nat) (outPath : Path) :
    Except ArchiveError Unit := do
  let bytes ← tes4Write ba2 archive options outPath
  if cap < bytes.length then throw (.archiveOverSizeCap outPath bytes.length cap) else return ()

/-- `PreparedArchive::write`. -/
def PreparedArchive.write (ba2 : Ba2 keys) (outPath : Path) : PreparedArchive keys → Except ArchiveError Bytes
  | .tes4 archive options cap => do
    match cap with
    | some cap => checkSizeCap ba2 archive options cap outPath
    | none => pure ()
    tes4Write ba2 archive options outPath
  | .fo4 archive options => orError (.fo4 outPath) (ba2.writeFo4 archive options)

/-- `write_archive_into`: what is written, if it succeeds. -/
def writeArchiveInto (ba2 : Ba2 keys) (readSource : Path → Option Bytes) (compress : Bool) (data : ArchiveData)
    (root outPath : Path) : Except ArchiveError Bytes :=
  if data.files = [] then .ok []
  else do
    let prepared ← prepare ba2 readSource compress data root
    prepared.write ba2 outPath

/-- What a `GameArchivePacker` fails with. -/
inductive PackFailure
  | noLongerFits
  | overflowed
  | archive (error : ArchiveError)
  deriving DecidableEq, Repr

/-- `GameArchivePacker::write`, of an exclusively opened staged file. -/
def GameArchivePacker.write (checks : OverflowChecks) (settings : Settings) (ba2 : Ba2 keys)
    (readSource : Path → Option Bytes) (archive : PlannedArchive) (compress : Bool) (root destination : Path) :
    Except PackFailure Bytes :=
  match GameArchivePacker.rebuild checks settings archive with
  | none => .error .overflowed
  | some none => .error .noLongerFits
  | some (some data) =>
    match writeArchiveInto ba2 readSource compress data root destination with
    | .ok bytes => .ok bytes
    | .error e => .error (.archive e)

end Cao.Pack
