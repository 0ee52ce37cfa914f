import Cao.Finalize.Planned
import Cao.Staging.RoundTrip

/-!
# Output names

Planning compares the names it reserved by their exact spelling, and the volume does not: two plugins that differ
in case and extension name one output twice.

* `AsciiCase`, `WellNamed`: what a volume compares, and what the names of a plan should be;
* `chooseNames_reaches`: enough outputs reach every free candidate;
* **`outputNames_iff`**: the names are what they should be exactly where no free candidate has two spellings.
-/

namespace Cao.Finalize

open Pack

variable {K : Type} [DecidableEq K] {V : Volume K} {P : Type} {disk : Disk V}

/-! ## What the names should be -/

/-- The volume compares ASCII characters by their case only. -/
def AsciiCase (V : Volume K) : Prop :=
  ∀ a b : OsStr, V.fold a = V.fold b → ∀ (index : Nat) (c d : Char), a[index]? = some (.char c) →
    b[index]? = some (.char d) → c.toNat < 128 → d.toNat < 128 → c.toLower = d.toLower

/-- Names that differ on the volume, name nothing that stands in the tree, and no plugin that loads an output. -/
structure WellNamed (disk : Disk V) (rules : ArchiveNamingRules) (names : List ArchiveName) : Prop where
  distinct : ((pathsOf names).map (List.map V.fold)).Nodup
  free : ∀ name ∈ names, disk.find name.fullPath = none
  plugins : ∀ name ∈ names, ∀ other ∈ names, ∀ plugin ∈ loadingPluginNames other rules,
    plugin.map V.fold ≠ name.fullPath.map V.fold

/-- An output to name: the plugins of its Mod Root, and its kind. -/
abbrev NameRequest := List ArchiveName × ArchiveType

/-- The candidates of some outputs. -/
def offersOf (rules : ArchiveNamingRules) (requests : List NameRequest) : List (List ArchiveName) :=
  requests.map fun request => outputCandidates rules request.2 request.1

/-- Every candidate of some output is taken, by an entry of the tree or by an output before it. -/
def Exhausted (disk : Disk V) (rules : ArchiveNamingRules) (requests : List NameRequest) : Prop :=
  ∃ before request after names, requests = before ++ request :: after ∧
    chooseNames disk [] (offersOf rules before) = some names ∧
    ∀ name ∈ outputCandidates rules request.2 request.1,
      disk.find name.fullPath ≠ none ∨ name.fullPath ∈ pathsOf names

/-- The outputs are well named, or one of them has no name left. -/
def NamesAsClaimed (disk : Disk V) (rules : ArchiveNamingRules) (requests : List NameRequest) : Prop :=
  match chooseNames disk [] (offersOf rules requests) with
  | some names => WellNamed disk rules names
  | none => Exhausted disk rules requests

/-- Two free candidates that are one name to the volume are spelled alike. -/
def OneSpelling (disk : Disk V) (rules : ArchiveNamingRules) (roots : List (List ArchiveName)) : Prop :=
  ∀ plugins ∈ roots, ∀ plugins' ∈ roots, ∀ kind kind',
    ∀ name ∈ outputCandidates rules kind plugins, ∀ name' ∈ outputCandidates rules kind' plugins',
      disk.find name.fullPath = none → name.fullPath.map V.fold = name'.fullPath.map V.fold →
        name.fullPath = name'.fullPath

/-! ## Archives and plugins -/

theorem last_of_extension {stem ext : Text} {c : Char} (h : ext.getLast? = some c) :
    (OsStr.ofText (stem ++ ext))[(OsStr.ofText (stem ++ ext)).length - 1]? = some (.char c) := by
  have hne : ext ≠ [] := by
    rintro rfl
    cases h
  rw [← List.getLast?_eq_getElem?, OsStr.ofText, List.getLast?_map, List.getLast?_append_of_ne_nil _ hne, h]
  rfl

omit [DecidableEq K] in
/-- **An Archive's name is no plugin's.** -/
theorem fold_ne_of_extension (hcase : AsciiCase V) {dir dir' : Path} {stem stem' ext ext' : Text} {c d : Char}
    (hc : ext.getLast? = some c) (hd : ext'.getLast? = some d) (hascii : c.toNat < 128 ∧ d.toNat < 128)
    (hne : c.toLower ≠ d.toLower) :
    (dir ++ [OsStr.ofText (stem ++ ext)]).map V.fold ≠ (dir' ++ [OsStr.ofText (stem' ++ ext')]).map V.fold := by
  intro heq
  simp only [List.map_append, List.map_singleton] at heq
  have hlast := (List.append_inj' heq rfl).2
  rw [List.singleton_inj] at hlast
  have hlength := V.length _ _ hlast
  have hd' : (OsStr.ofText (stem' ++ ext'))[(OsStr.ofText (stem' ++ ext')).length - 1]? = some (.char d) :=
    last_of_extension hd
  rw [← hlength] at hd'
  exact hne (hcase _ _ hlast _ c d (last_of_extension hc) hd' hascii.1 hascii.2)

theorem mem_loadingPluginNames_ext {archive : ArchiveName} {rules : ArchiveNamingRules} {plugin : Path}
    (h : plugin ∈ loadingPluginNames archive rules) :
    ∃ ext ∈ rules.pluginExtensions, ∃ stem, plugin = archive.dir ++ [OsStr.ofText (stem ++ ext)] := by
  obtain ⟨ext, hext, hplugin⟩ := List.mem_flatMap.mp h
  simp only [List.mem_cons, List.not_mem_nil, or_false] at hplugin
  rcases hplugin with rfl | rfl
  · exact ⟨ext, hext, _, rfl⟩
  · exact ⟨ext, hext, _, rfl⟩

variable {game : Game} {requestedLimit : Option UInt64}

variable (game requestedLimit) in
/-- How the extensions of Archives and of plugins end. -/
theorem forProfile_extension_last : ∃ c, (Settings.forProfile game requestedLimit).extension.getLast? = some c ∧
    c.toNat < 128 ∧ ∀ ext ∈ (Settings.forProfile game requestedLimit).pluginExtensions,
      ∃ d, ext.getLast? = some d ∧ d.toNat < 128 ∧ c.toLower ≠ d.toLower := by
  have hplugins : ∀ ext ∈ [".esl".toList, ".esm".toList, ".esp".toList],
      ∃ d, ext.getLast? = some d ∧ d.toNat < 128 ∧ 'a'.toLower ≠ d.toLower ∧ '2'.toLower ≠ d.toLower := by
    intro ext hext
    simp only [List.mem_cons, List.not_mem_nil, or_false] at hext
    rcases hext with rfl | rfl | rfl
    · exact ⟨'l', by decide, by decide, by decide, by decide⟩
    · exact ⟨'m', by decide, by decide, by decide, by decide⟩
    · exact ⟨'p', by decide, by decide, by decide, by decide⟩
  have hbsa : ".bsa".toList.getLast? = some 'a' := by decide
  have hba2 : ".ba2".toList.getLast? = some '2' := by decide
  cases game
  · refine ⟨'a', hbsa, by decide, fun ext hext => ?_⟩
    obtain ⟨d, hd, hascii, ha, -⟩ := hplugins ext (List.mem_cons_of_mem _ hext)
    exact ⟨d, hd, hascii, ha⟩
  · refine ⟨'a', hbsa, by decide, fun ext hext => ?_⟩
    obtain ⟨d, hd, hascii, ha, -⟩ := hplugins ext hext
    exact ⟨d, hd, hascii, ha⟩
  · refine ⟨'2', hba2, by decide, fun ext hext => ?_⟩
    obtain ⟨d, hd, hascii, -, h2⟩ := hplugins ext hext
    exact ⟨d, hd, hascii, h2⟩

omit [DecidableEq K] in
theorem archive_ne_plugin (hcase : AsciiCase V) {name other : ArchiveName} {plugin : Path}
    (hext : name.ext = (Settings.forProfile game requestedLimit).extension)
    (hplugin : plugin ∈ loadingPluginNames other (GameArchivePacker.rules (.forProfile game requestedLimit))) :
    plugin.map V.fold ≠ name.fullPath.map V.fold := by
  obtain ⟨c, hc, hascii, hplugins⟩ := forProfile_extension_last game requestedLimit
  obtain ⟨ext, hmem, stem, rfl⟩ := mem_loadingPluginNames_ext hplugin
  obtain ⟨d, hd, hascii', hne⟩ := hplugins ext hmem
  exact fold_ne_of_extension hcase hd (hext ▸ hc) ⟨hascii', hascii⟩ hne.symm

/-! ## Which names clash -/

/-- **Enough outputs reach every free candidate.** -/
theorem chooseNames_reaches {candidates : List ArchiveName} {name : ArchiveName} (hmem : name ∈ candidates)
    (hfree : disk.find name.fullPath = none) (reserved : List Path) :
    ∃ count names, chooseNames disk reserved (List.replicate count candidates) = some names ∧
      name.fullPath ∈ (pathsOf names).reverse ++ reserved := by
  -- Every choice leaves fewer of the candidates unreserved.
  induction hcount : candidates.countP fun other => !reserved.contains other.fullPath using Nat.strong_induction_on
    generalizing reserved with
  | _ count ih =>
    by_cases hreserved : name.fullPath ∈ reserved
    · exact ⟨0, [], rfl, by simpa using hreserved⟩
    cases hchoose : chooseName disk reserved candidates with
    | none =>
      rcases chooseName_eq_none.mp hchoose name hmem with h | h
      · exact absurd hfree h
      · exact absurd h hreserved
    | some chosen =>
      obtain ⟨hchosen, -, hnew⟩ := chooseName_eq_some hchoose
      have hless : (candidates.countP fun other => !(chosen.fullPath :: reserved).contains other.fullPath) < count := by
        rw [← hcount]
        refine PathTree.countP_lt_countP (fun other _ h => ?_) hchosen (by simp) (by simpa using hnew)
        simp only [List.contains_eq_mem, List.mem_cons, Bool.not_eq_true', decide_eq_false_iff_not, not_or] at h ⊢
        exact h.2
      obtain ⟨more, names, hnames, hin⟩ := ih _ hless (chosen.fullPath :: reserved) rfl
      refine ⟨more + 1, chosen :: names, ?_, ?_⟩
      · rw [List.replicate_succ]
        exact chooseNames_cons.mpr ⟨chosen, names, hchoose, hnames, rfl⟩
      · simpa [pathsOf] using hin

theorem exhausted_of_none {rules : ArchiveNamingRules} {before requests : List NameRequest} {names : List ArchiveName}
    (hbefore : chooseNames disk [] (offersOf rules before) = some names)
    (h : chooseNames disk (pathsOf names).reverse (offersOf rules requests) = none) :
    Exhausted disk rules (before ++ requests) := by
  induction requests generalizing before names with
  | nil => cases h
  | cons request requests ih =>
    cases hchoose : chooseName disk (pathsOf names).reverse (outputCandidates rules request.2 request.1) with
    | none =>
      refine ⟨before, request, requests, names, rfl, hbefore, fun name hname => ?_⟩
      simpa using chooseName_eq_none.mp hchoose name hname
    | some chosen =>
      have hstep : chooseNames disk [] (offersOf rules (before ++ [request])) = some (names ++ [chosen]) := by
        rw [offersOf, List.map_append]
        refine chooseNames_append hbefore (chooseNames_cons.mpr ⟨chosen, [], ?_, rfl, rfl⟩)
        rw [List.append_nil]
        exact hchoose
      rw [List.append_cons]
      refine ih hstep ?_
      cases hrest : chooseNames disk (pathsOf (names ++ [chosen])).reverse (offersOf rules requests) with
      | none => rfl
      | some others =>
        have hall : chooseNames disk (pathsOf names).reverse (offersOf rules (request :: requests)) =
            some (chosen :: others) := by
          refine chooseNames_cons.mpr ⟨chosen, others, hchoose, ?_, rfl⟩
          simpa [pathsOf, offersOf] using hrest
        rw [h] at hall
        cases hall

/-- **The outputs are well named exactly where no free candidate has two spellings.** Planning chooses the names
so, for the plugins of each Mod Root. -/
theorem outputNames_iff (game : Game) (requestedLimit : Option UInt64) (hcase : AsciiCase V) (disk : Disk V) :
    (∀ (seams : FinalizationSeams) (request : FinalizationRequest) (inputs : List Path),
      Reads disk (planFinalization seams request inputs : Prog (Site V P) _ _) fun plan =>
        ∃ requests names,
          (∀ r ∈ requests, ∃ root n, disk.find root = some (root, n) ∧
            NamingPlugins request.settings disk root r.1) ∧
          chooseNames disk [] (offersOf request.rules requests) = some names ∧
          plan.outputs.map FinalizationOutput.archivePath = pathsOf names) ∧
    ∀ roots : List (List ArchiveName),
      (∀ requests : List NameRequest, (∀ r ∈ requests, r.1 ∈ roots) →
        NamesAsClaimed disk (GameArchivePacker.rules (.forProfile game requestedLimit)) requests) ↔
      OneSpelling disk (GameArchivePacker.rules (.forProfile game requestedLimit)) roots := by
  refine ⟨fun seams request inputs => ?_, fun roots => ⟨fun hclaim => ?_, fun hspelling requests hrequests => ?_⟩⟩
  · refine (reads_planFinalization inputs).mono fun plan h => ?_
    obtain ⟨reserved, h⟩ := h
    obtain ⟨offers, names, hoffers, hnames, hpaths, -⟩ := h.names
    obtain ⟨requests, hrequests, rfl⟩ : ∃ requests : List NameRequest,
        (∀ r ∈ requests, ∃ root n, disk.find root = some (root, n) ∧ NamingPlugins request.settings disk root r.1) ∧
        offersOf request.rules requests = offers := by
      clear hnames
      induction offers with
      | nil => exact ⟨[], by simp, rfl⟩
      | cons candidates offers ih =>
        obtain ⟨requests, hrequests, hrest⟩ := ih fun c hc => hoffers c (List.mem_cons_of_mem _ hc)
        obtain ⟨root, n, kind, plugins, hroot, hplugins, hcandidates⟩ := hoffers candidates List.mem_cons_self
        refine ⟨(plugins, kind) :: requests, fun r hr => ?_, by simp [offersOf, ← hrest, hcandidates]⟩
        rcases List.mem_cons.mp hr with rfl | hr
        · exact ⟨root, n, hroot, hplugins⟩
        · exact hrequests r hr
    exact ⟨requests, names, hrequests, hnames, hpaths⟩
  · -- Enough outputs of either kind get both names.
    intro plugins hplugins plugins' hplugins' kind kind' name hname name' hname' hfree hfold
    have hfree' : disk.find name'.fullPath = none := by
      rw [← PathTree.find_congr hfold]
      exact hfree
    obtain ⟨count, names, hnames, hin⟩ := chooseNames_reaches hname hfree []
    obtain ⟨count', names', hnames', hin'⟩ := chooseNames_reaches hname' hfree' ((pathsOf names).reverse ++ [])
    have hall : chooseNames disk [] (offersOf (GameArchivePacker.rules (.forProfile game requestedLimit))
        (List.replicate count (plugins, kind) ++ List.replicate count' (plugins', kind'))) = some (names ++ names') := by
      rw [offersOf, List.map_append, List.map_replicate, List.map_replicate]
      exact chooseNames_append hnames hnames'
    have hclaimed := hclaim (List.replicate count (plugins, kind) ++ List.replicate count' (plugins', kind')) (by
      intro r hr
      rcases List.mem_append.mp hr with hr | hr
      · rw [List.eq_of_mem_replicate hr]
        exact hplugins
      · rw [List.eq_of_mem_replicate hr]
        exact hplugins')
    unfold NamesAsClaimed at hclaimed
    simp only [hall] at hclaimed
    have hmem : name.fullPath ∈ pathsOf (names ++ names') := by
      rw [pathsOf, List.map_append]
      exact List.mem_append_left _ (by simpa using hin)
    have hmem' : name'.fullPath ∈ pathsOf (names ++ names') := by
      rw [pathsOf, List.map_append, List.mem_append]
      simpa [or_comm] using hin'
    exact List.inj_on_of_nodup_map hclaimed.distinct hmem hmem' hfold
  · unfold NamesAsClaimed
    cases hnames : chooseNames disk []
        (offersOf (GameArchivePacker.rules (.forProfile game requestedLimit)) requests) with
    | none =>
      have hstart : chooseNames disk [] (offersOf (GameArchivePacker.rules (.forProfile game requestedLimit)) []) =
        some [] := rfl
      exact exhausted_of_none hstart hnames
    | some names =>
      obtain ⟨hchosen, hnodup⟩ := chooseNames_free hnames
      have hof : ∀ name ∈ names, ∃ r ∈ requests,
          name ∈ outputCandidates (GameArchivePacker.rules (.forProfile game requestedLimit)) r.2 r.1 := by
        intro name hname
        obtain ⟨⟨candidates, hcandidates, hin⟩, -⟩ := hchosen name hname
        obtain ⟨r, hr, rfl⟩ := List.mem_map.mp hcandidates
        exact ⟨r, hr, hin⟩
      refine ⟨?_, fun name hname => (hchosen name hname).2.1, fun name hname other _ plugin hplugin => ?_⟩
      · refine hnodup.map_on fun path hpath path' hpath' hfold => ?_
        obtain ⟨name, hname, rfl⟩ := List.mem_map.mp hpath
        obtain ⟨name', hname', rfl⟩ := List.mem_map.mp hpath'
        obtain ⟨r, hr, hin⟩ := hof name hname
        obtain ⟨r', hr', hin'⟩ := hof name' hname'
        exact hspelling r.1 (hrequests r hr) r'.1 (hrequests r' hr') r.2 r'.2 name hin name' hin'
          (hchosen name hname).2.1 hfold
      · obtain ⟨r, -, hin⟩ := hof name hname
        exact archive_ne_plugin hcase (outputCandidates_spec hin).1 hplugin

/-! ### Two plugins that differ in case -/

/-- A Mod Root with two plugins whose stems differ in case only. -/
def twinDisk : Disk asciiVolume where
  entries := [(pathOf ["m"], .dir), (pathOf ["m", "Foo.esp"], .leaf (.file [1] 1)),
    (pathOf ["m", "foo.esm"], .leaf (.file [1] 1))]
  rooted := by decide
  named := by decide
  distinct := by decide
  closed := by decide

/-- Its plugins, in the order planning sorts them. -/
def twinPlugins : List ArchiveName :=
  sortPlugins ([pathOf ["m", "foo.esm"], pathOf ["m", "Foo.esp"]].filterMap fun path =>
    FilePath.make path (.forProfile .sse none) .plugin)

theorem asciiVolume_asciiCase : AsciiCase asciiVolume := by
  intro a b h index c d hc hd _ _
  have hfold := congrArg (fun name : OsStr => name[index]?) h
  simp only [asciiVolume, List.getElem?_map, hc, hd, Option.map_some, Option.some.injEq] at hfold
  simpa [foldAscii] using hfold

/-- Two outputs get one name to the volume: `Foo.bsa` and `foo.bsa`. -/
theorem twinPlugins_clash : ¬ ∀ requests : List NameRequest, (∀ r ∈ requests, r.1 ∈ [twinPlugins]) →
    NamesAsClaimed twinDisk (GameArchivePacker.rules (.forProfile .sse none)) requests := by
  intro h
  have hclaimed := h [(twinPlugins, .standard), (twinPlugins, .incompressible)] (by simp)
  unfold NamesAsClaimed at hclaimed
  have hnames : chooseNames twinDisk [] (offersOf (GameArchivePacker.rules (.forProfile .sse none))
      [(twinPlugins, .standard), (twinPlugins, .incompressible)]) =
      some [⟨pathOf ["m"], "Foo".toList, [], ".bsa".toList, none⟩, ⟨pathOf ["m"], "foo".toList, [], ".bsa".toList, none⟩] := by
    decide +kernel
  simp only [hnames] at hclaimed
  exact absurd hclaimed.distinct (by decide +kernel)

/-- The outputs of these two plugins. -/
theorem outputNames_iff_sample :
    (∀ requests : List NameRequest, (∀ r ∈ requests, r.1 ∈ [twinPlugins]) →
      NamesAsClaimed twinDisk (GameArchivePacker.rules (.forProfile .sse none)) requests) ↔
    OneSpelling twinDisk (GameArchivePacker.rules (.forProfile .sse none)) [twinPlugins] :=
  (outputNames_iff (P := Unit) .sse none asciiVolume_asciiCase twinDisk).2 _

end Cao.Finalize
