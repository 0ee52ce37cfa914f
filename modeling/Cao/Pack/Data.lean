import Cao.Pack.Settings
import Cao.Archive.Preflight
import Mathlib.Data.Finset.Basic

/-!
# Planned Archives

`data.rs`: the files planned into one Archive, the split of a Mod Root's sources into Archives and the
merge of what stays open. Every unguarded addition may overflow; `none` is the panic of a build that
checks it.

* `CappedLayout`: the most bytes a planned BSA can take;
* `ArchiveData.addFile`, `canAbsorb`, `absorb`: one Archive;
* `split`, `merge`: the partition.
-/

namespace Cao.Pack

/-! ## Sources -/

/-- The bytes a path takes as UTF-8 text, unpaired surrogates replaced. -/
def nameBytes (path : Path) : Nat := (utf8 (nativeText path).lossy).length

/-- The most bytes a string can hold. -/
def stringLimit : Nat := 2 ^ 63

/-- `PackSource`: a size is a `u64`, and a path is a string. -/
structure PackSource where
  path : Path
  size : Nat
  size_lt : size < u64Size
  path_lt : nameBytes path < stringLimit
  deriving DecidableEq

/-- `ArchiveError`: what splitting and writing can fail with. -/
inductive ArchiveError
  | assetTooLarge (path : Path) (size cap : Nat)
  | outsideRoot (path root : Path)
  | nonUnicodeName (path : Path)
  | tes4 (path : Path)
  | fo4 (path : Path)
  | archiveTooLarge (path : Path)
  | archiveOverSizeCap (path : Path) (size cap : Nat)
  deriving DecidableEq, Repr

/-! ## The layout of a capped BSA -/

/-- `CappedLayout`. -/
structure CappedLayout where
  cap : Nat
  directoryRecord : Nat
  directories : Finset Path
  bound : Nat
  deriving DecidableEq

/-- `BSA_HEADER`. -/
def bsaHeader : Nat := 36

/-- `BSA_FILE_RECORD`. -/
def bsaFileRecord : Nat := 16

/-- The size of a folder record, of the containers a layout models. -/
def folderRecord : ArchiveVersion → Option Nat
  | .tes5 => some 16
  | .sse => some 24
  | .fo4 => none
  | .fo4Dx => none

namespace CappedLayout

variable (checks : OverflowChecks)

/-- `CappedLayout::new`. -/
def new (cap : Nat) (version : ArchiveVersion) : Option CappedLayout :=
  match folderRecord version with
  | some directoryRecord => some ⟨cap, directoryRecord, ∅, bsaHeader⟩
  | none => none

/-- `CappedLayout::folder_bytes`. -/
def folderBytes (directoryRecord : Nat) (folder : Path) : Option Nat := do
  let prefixed ← addU64 checks directoryRecord 1
  let named ← addU64 checks prefixed (nameBytes folder)
  addU64 checks named 1

/-- `CappedLayout::add`; a refused file leaves the layout as it is. -/
def add (layout : CappedLayout) (path : Path) (size : Nat) : Option (Option CappedLayout) := do
  let parent := path.dropLast
  let folder ← if parent ∈ layout.directories then some 0
    else folderBytes checks layout.directoryRecord parent
  let name ← addU64 checks (nameBytes [fileName path]) 1
  let file := saturatingAdd (saturatingAdd size bsaFileRecord) name
  let bound := saturatingAdd (saturatingAdd layout.bound folder) file
  if layout.cap < bound then return none
  else return some { layout with bound, directories := insert parent layout.directories }

/-- The bytes of some folders, each computed before it is added. -/
def foldersBytes (directoryRecord : Nat) (folders : Finset Path) : Option Nat :=
  if ∀ folder ∈ folders, (folderBytes checks directoryRecord folder).isSome then
    sumU64 checks folders fun folder => (folderBytes checks directoryRecord folder).getD 0
  else none

/-- `CappedLayout::merged_bound`. -/
def mergedBound (layout other : CappedLayout) : Option Nat := do
  let shared ← foldersBytes checks layout.directoryRecord (layout.directories ∩ other.directories)
  let both ← addU64 checks layout.bound other.bound
  let one ← subU64 checks both bsaHeader
  subU64 checks one shared

/-- `CappedLayout::absorb`, and what is left of the other layout. -/
def absorb (layout other : CappedLayout) : Option (CappedLayout × CappedLayout) := do
  let bound ← mergedBound checks layout other
  return ({ layout with bound, directories := layout.directories ∪ other.directories },
    { other with bound := bsaHeader, directories := ∅ })

end CappedLayout

/-! ## One Archive -/

/-- `ArchiveData`. -/
structure ArchiveData where
  size : Nat
  archiveLimit : Nat
  archiveType : ArchiveType
  version : ArchiveVersion
  files : List Path
  layout : Option CappedLayout
  deriving DecidableEq

namespace ArchiveData

variable (checks : OverflowChecks)

/-- `ArchiveData::new`. -/
def new (settings : Settings) (archiveType : ArchiveType) : ArchiveData where
  size := 0
  archiveLimit := settings.archiveLimit
  archiveType := archiveType
  version := settings.versionFor archiveType
  files := []
  layout := settings.sizeCap.bind fun cap => CappedLayout.new cap (settings.versionFor archiveType)

/-- `ArchiveData::add_file`; a refused file leaves the Archive as it is. -/
def addFile (data : ArchiveData) (path : Path) (size : Nat) : Option (Option ArchiveData) :=
  match checkedAdd data.size size with
  | none => return none
  | some total =>
    if data.archiveLimit < total ∧ data.files ≠ [] then return none
    else
      match data.layout with
      | none => return some { data with size := total, files := data.files ++ [path] }
      | some layout => do
        match ← layout.add checks path size with
        | none => return none
        | some layout => return some { data with size := total, files := data.files ++ [path], layout := some layout }

/-- Whether `prepare` of `write.rs` compresses the files of an Archive. -/
def compressed (data : ArchiveData) (compress : Bool) : Bool :=
  (compress && data.archiveType ≠ .incompressible) || data.version = .fo4Dx

/-- `ArchiveData::size_cap`. -/
def sizeCap (data : ArchiveData) : Option Nat := data.layout.map CappedLayout.cap

/-- `ArchiveData::can_absorb`. -/
def canAbsorb (data other : ArchiveData) : Option Bool := do
  let layoutFits ← match data.layout, other.layout with
    | some layout, some other => (layout.mergedBound checks other).map fun bound => decide (bound ≤ layout.cap)
    | _, _ => some true
  let total ← addU64 checks data.size other.size
  return decide (total < data.archiveLimit) && layoutFits

/-- The type of an Archive that absorbed another. -/
def absorbedType (type other : ArchiveType) : ArchiveType :=
  if type = .incompressible ∨ other = .incompressible then .incompressible
  else if type ≠ other then .standard
  else type

/-- The layouts after one Archive absorbed another. -/
def absorbLayout (layout other : Option CappedLayout) : Option (Option CappedLayout × Option CappedLayout) :=
  match layout, other with
  | some layout, some other => (layout.absorb checks other).map fun (layout, other) => (some layout, some other)
  | layout, other => some (layout, other)

/-- `ArchiveData::absorb`, and what is left of the other Archive. -/
def absorb (data other : ArchiveData) : Option (ArchiveData × ArchiveData) := do
  let size ← addU64 checks data.size other.size
  let (layout, otherLayout) ← absorbLayout checks data.layout other.layout
  return ({ data with
      size
      files := data.files ++ other.files
      layout
      archiveType := absorbedType data.archiveType other.archiveType },
    { other with size := 0, files := [], layout := otherLayout, archiveType := .standard })

end ArchiveData

/-! ## Splitting -/

/-- `SplitArchives`. -/
structure SplitArchives where
  full : List ArchiveData
  standard : ArchiveData
  incompressible : ArchiveData
  textures : ArchiveData
  deriving DecidableEq

/-- The partition a file belongs to, if it is packed. -/
def packedAs : FileType → Option ArchiveType
  | .standard => some .standard
  | .incompressible => some .incompressible
  | .texture => some .textures
  | .unpackable => none
  | .plugin => none
  | .archive => none

namespace SplitArchives

variable (checks : OverflowChecks)

/-- The open partition of a type. -/
def partition (split : SplitArchives) : ArchiveType → ArchiveData
  | .standard => split.standard
  | .incompressible => split.incompressible
  | .textures => split.textures

/-- The open partition of a type, replaced. -/
def setPartition (split : SplitArchives) (type : ArchiveType) (data : ArchiveData) : SplitArchives :=
  match type with
  | .standard => { split with standard := data }
  | .incompressible => { split with incompressible := data }
  | .textures => { split with textures := data }

/-- The partitions before any source. -/
def start (settings : Settings) : SplitArchives where
  full := []
  standard := .new settings .standard
  incompressible := .new settings .incompressible
  textures := .new settings .textures

/-- One source: it joins its open partition, or closes it and starts a new one. -/
def place (settings : Settings) (root : Path) (split : SplitArchives) (source : PackSource) :
    Option (Except ArchiveError SplitArchives) :=
  match packedAs (fileType source.path root settings) with
  | none => return .ok split
  | some type => do
    match ← (split.partition type).addFile checks source.path source.size with
    | some data => return .ok (split.setPartition type data)
    | none => do
      let fresh := ArchiveData.new settings (split.partition type).archiveType
      match ← fresh.addFile checks source.path source.size with
      | some data => return .ok { split.setPartition type data with full := split.full ++ [split.partition type] }
      | none => return .error (.assetTooLarge source.path source.size (fresh.sizeCap.getD (u64Size - 1)))

/-- Every source, in turn. -/
def placeAll (settings : Settings) (root : Path) :
    SplitArchives → List PackSource → Option (Except ArchiveError SplitArchives)
  | split, [] => return .ok split
  | split, source :: sources => do
    match ← split.place checks settings root source with
    | .error e => return .error e
    | .ok split => placeAll settings root split sources

/-- `msvc_sort_key`. -/
def msvcSortKey (path : Path) : List (List Nat) := path.map encodeWide

/-- `sort_by_cached_key`. -/
def sortSources (sources : List PackSource) : List PackSource :=
  sources.mergeSort fun a b => decide (msvcSortKey a.path ≤ msvcSortKey b.path)

/-- `SplitArchives::split`. -/
def split (root : Path) (sources : List PackSource) (settings : Settings) :
    Option (Except ArchiveError SplitArchives) :=
  placeAll checks settings root (start settings) (sortSources sources)

/-! ## Merging -/

/-- One Archive joins another, where it is asked for and fits. -/
def join (wanted : Bool) (data other : ArchiveData) : Option (ArchiveData × ArchiveData) := do
  if wanted then
    if ← data.canAbsorb checks other then data.absorb checks other else return (data, other)
  else return (data, other)

end SplitArchives

/-- `MergeSettings`. -/
structure MergeSettings where
  textures : Bool
  incompressible : Bool
  deriving DecidableEq, Repr

/-- `SplitArchives::merge`. -/
def SplitArchives.merge (checks : OverflowChecks) (split : SplitArchives) (merge : MergeSettings) :
    Option (List ArchiveData) := do
  let (standard, incompressible) ← join checks merge.incompressible split.standard split.incompressible
  let (standard, textures) ← join checks merge.textures standard split.textures
  return (split.full ++ [standard, incompressible, textures]).filter fun archive => archive.files ≠ []

/-! ## The packer -/

/-- `PlannedArchive`. A `PackedFile` is a path and a size, as a `PackSource` is. -/
structure PlannedArchive where
  kind : ArchiveType
  files : List PackSource
  deriving DecidableEq

/-- A file of a planned Archive, with the size it was last offered with; `none` is the panic of a lookup. -/
def plannedFile (sources : List PackSource) (path : Path) : Option PackSource :=
  sources.reverse.find? fun source => source.path = path

/-- A planned Archive, with the size of each file. -/
def planned (sources : List PackSource) (archive : ArchiveData) : Option PlannedArchive :=
  (archive.files.mapM (plannedFile sources)).map fun files => ⟨archive.archiveType, files⟩

/-- `GameArchivePacker::partition`. -/
def GameArchivePacker.partition (checks : OverflowChecks) (settings : Settings) (root : Path)
    (sources : List PackSource) (merge : MergeSettings) : Option (Except ArchiveError (List PlannedArchive)) := do
  match ← SplitArchives.split checks root sources settings with
  | .error e => return .error e
  | .ok split => do
    let archives ← split.merge checks merge
    let archives ← archives.mapM (planned sources)
    return .ok archives

/-- The files of a planned Archive added again, one by one; the inner `none` is one that no longer fits. -/
def addAll (checks : OverflowChecks) : ArchiveData → List PackSource → Option (Option ArchiveData)
  | data, [] => return some data
  | data, source :: sources => do
    match ← data.addFile checks source.path source.size with
    | none => return none
    | some data => addAll checks data sources

/-- `GameArchivePacker::write`, up to the writer. -/
def GameArchivePacker.rebuild (checks : OverflowChecks) (settings : Settings) (archive : PlannedArchive) :
    Option (Option ArchiveData) :=
  addAll checks (.new settings archive.kind) archive.files

end Cao.Pack
