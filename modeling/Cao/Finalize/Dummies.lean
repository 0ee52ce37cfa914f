import Cao.Finalize.Skeletons

/-!
# What dummy removal removes

`remove_dummy_plugins` where nothing is refused. It lists the plugins of a root, and examines each by the name its
parts render as, which may be another plugin's, or nobody's.

* `Listed`, **`computes_listNames`**: what the listing finds;
* `counts_refused`, `counts_kept`, `removeExactDummyPlugin_removes`: what becomes of one plugin;
* `Clear`, **`removeDummiesOf_clear`**: the loop ends well exactly where each name is a file's, and no dummy's twice;
* `Matched`, **`dummiesRemoved_iff`**: exactly the listed dummies go exactly where the names match them.
-/

namespace Cao.Finalize

open Pack

variable {K : Type} [DecidableEq K] {V : Volume K} {P ε : Type} {disk : Disk V} {seams : FinalizationSeams}
  {follow : Path → Option (Node Leaf)} {settings : Settings} {root found : Path} {bytes : Bytes}

/-! ## The listing -/

/-- A directory, or a link to one. -/
def LeadsToDirectory (follow : Path → Option (Node Leaf)) (path : Path) (node : Node Leaf) : Prop :=
  node = .dir ∨ node = .leaf .link ∧ follow path = some .dir

instance (follow : Path → Option (Node Leaf)) (path : Path) (node : Node Leaf) :
    Decidable (LeadsToDirectory follow path node) := inferInstanceAs (Decidable (_ ∨ _ ∧ _))

/-- An entry of a root that is listed as a plugin. The tree spells the root `found`. -/
structure Listed (follow : Path → Option (Node Leaf)) (settings : Settings) (disk : Disk V) (root found : Path)
    (name : OsStr) (node : Node Leaf) (plugin : ArchiveName) : Prop where
  has : disk.Has (found ++ [name]) node
  file : ¬LeadsToDirectory follow (root ++ [name]) node
  named : FilePath.make (root ++ [name]) settings .plugin = some plugin

/-- The plugin of an entry, if it is listed. -/
def pluginOf (follow : Path → Option (Node Leaf)) (settings : Settings) (root : Path) (entry : OsStr × Node Leaf) :
    Option ArchiveName :=
  if LeadsToDirectory follow (root ++ [entry.1]) entry.2 then none
  else FilePath.make (root ++ [entry.1]) settings .plugin

omit [DecidableEq K] in
theorem pluginOf_iff {name : OsStr} {node : Node Leaf} {plugin : ArchiveName} :
    (name, node) ∈ disk.children found ∧ pluginOf follow settings root (name, node) = some plugin ↔
      Listed follow settings disk root found name node plugin := by
  unfold pluginOf
  rw [PathTree.mem_children]
  constructor
  · rintro ⟨hhas, hplugin⟩
    split_ifs at hplugin with hdir
    exact ⟨hhas, hdir, hplugin⟩
  · intro h
    exact ⟨h.has, by rw [if_neg h.file]; exact h.named⟩

theorem computes_statTarget (hnative : ∀ n, seams.native n = .ok ()) (hfollow : ∀ n path, seams.follow n path = follow path)
    {path q : Path} {node : Node Leaf} (h : disk.find path = some (q, node)) :
    ∃ target, Computes disk (statTarget seams path : Prog (Site V P) (Thrown String) _) (.done target) ∧
      (target = some .dir ↔ LeadsToDirectory follow path node) := by
  have hstat : Computes disk (statEntry seams.toSeams path : Prog (Site V P) (Thrown String) _) (.done (some node)) :=
    (counts_inspectTree hnative (by rw [h]; rfl)).computes
  unfold LeadsToDirectory
  by_cases hlink : node = .leaf .link
  · subst hlink
    refine ⟨follow path, hstat.bind (computes_nextCall fun n => ?_), by simp⟩
    rw [hfollow]
    exact computes_pure _
  · refine ⟨some node, hstat.bind ?_, by simp [hlink]⟩
    rcases node with _ | _ | _ | _
    · exact computes_pure _
    · exact computes_pure _
    · exact absurd rfl hlink
    · exact computes_pure _

variable (settings) in
theorem computes_listName (hnative : ∀ n, seams.native n = .ok ()) (hfollow : ∀ n path, seams.follow n path = follow path)
    (hroot : disk.find root = some (found, .dir)) {name : OsStr} {node : Node Leaf}
    (h : disk.Has (found ++ [name]) node) (names : List ArchiveName) :
    ((LeadsToDirectory follow (root ++ [name]) node ∨ name.toStr ≠ none) →
      Computes disk (listName seams settings root .plugin names name : Prog (Site V P) (Thrown String) _)
        (.done (names ++ (pluginOf follow settings root (name, node)).toList))) ∧
    (¬LeadsToDirectory follow (root ++ [name]) node → name.toStr = none → ∃ detail,
      Computes disk (listName seams settings root .plugin names name : Prog (Site V P) (Thrown String) _)
        (.fail (.error detail))) := by
  have hfind : disk.find (root ++ [name]) = some (found ++ [name], node) := by rw [find_below hroot, h.find]
  have haccess : Computes disk (accessing root (call seams.native) : Prog (Site V P) (Thrown String) Unit) (.done ()) :=
    (counts_call hnative).mapError.computes
  obtain ⟨target, htarget, hdir⟩ :
      ∃ target, Computes disk (statTarget seams (root ++ [name]) : Prog (Site V P) (Thrown String) _) (.done target) ∧
        (target = some .dir ↔ LeadsToDirectory follow (root ++ [name]) node) := computes_statTarget hnative hfollow hfind
  have hstat : Computes disk (result (statTarget seams (root ++ [name])) : Prog (Site V P) (Thrown String) _)
      (.done (.ok target)) := computes_result_done htarget
  unfold pluginOf
  by_cases hleads : LeadsToDirectory follow (root ++ [name]) node
  · refine ⟨fun _ => haccess.bind (hstat.bind ?_), fun hn => absurd hleads hn⟩
    rw [hdir.mpr hleads, if_pos rfl, if_pos hleads, Option.toList_none, List.append_nil]
    exact computes_pure names
  · refine ⟨fun hname => haccess.bind (hstat.bind ?_), fun _ hname =>
      ⟨archiveErrorText (.nonUnicodeName (root ++ [name])), haccess.bind (hstat.bind ?_)⟩⟩
    · rw [if_neg hleads, if_neg, if_neg (hname.resolve_left hleads)]
      · exact computes_pure _
      · intro hmatch
        split at hmatch
        · next heq =>
          cases heq
          exact hleads (hdir.mp rfl)
        · cases hmatch
    · rw [if_neg, if_pos hname]
      · exact computes_failWith _
      · intro hmatch
        split at hmatch
        · next heq =>
          cases heq
          exact hleads (hdir.mp rfl)
        · cases hmatch

/-- Every file of the root has a Unicode name. -/
def Unicode (follow : Path → Option (Node Leaf)) (disk : Disk V) (root found : Path) : Prop :=
  ∀ name node, disk.Has (found ++ [name]) node → LeadsToDirectory follow (root ++ [name]) node ∨ name.toStr ≠ none

variable (settings) in
theorem computes_listEach (hnative : ∀ n, seams.native n = .ok ()) (hfollow : ∀ n path, seams.follow n path = follow path)
    (hroot : disk.find root = some (found, .dir)) (entries : List (OsStr × Node Leaf))
    (hentries : ∀ e ∈ entries, disk.Has (found ++ [e.1]) e.2) (names : List ArchiveName) :
    ((∀ e ∈ entries, LeadsToDirectory follow (root ++ [e.1]) e.2 ∨ e.1.toStr ≠ none) →
      Computes disk (Prog.foldEach (fun names e => listName seams settings root .plugin names e.1) names entries :
        Prog (Site V P) (Thrown String) _) (.done (names ++ entries.filterMap (pluginOf follow settings root)))) ∧
    ((∃ e ∈ entries, ¬LeadsToDirectory follow (root ++ [e.1]) e.2 ∧ e.1.toStr = none) → ∃ detail,
      Computes disk (Prog.foldEach (fun names e => listName seams settings root .plugin names e.1) names entries :
        Prog (Site V P) (Thrown String) _) (.fail (.error detail))) := by
  induction entries generalizing names with
  | nil => exact ⟨fun _ => by rw [List.filterMap_nil, List.append_nil]; exact computes_pure names, by simp⟩
  | cons e entries ih =>
    have hstep := computes_listName (P := P) settings hnative hfollow hroot
      (hentries e List.mem_cons_self) names
    have hrest := ih fun e' he' => hentries e' (List.mem_cons_of_mem e he')
    have hcons : (e :: entries).filterMap (pluginOf follow settings root) =
        (pluginOf follow settings root e).toList ++ entries.filterMap (pluginOf follow settings root) := by
      rw [List.filterMap_cons]
      cases pluginOf follow settings root e <;> rfl
    constructor
    · intro hall
      have hhead := hstep.1 (hall e List.mem_cons_self)
      rw [hcons, ← List.append_assoc]
      exact hhead.bind ((hrest _).1 fun e' he' => hall e' (List.mem_cons_of_mem e he'))
    · rintro ⟨bad, hbad, hfile, hname⟩
      by_cases hhead : LeadsToDirectory follow (root ++ [e.1]) e.2 ∨ e.1.toStr ≠ none
      · rcases List.mem_cons.mp hbad with rfl | hbad
        · exact absurd hhead (not_or.mpr ⟨hfile, fun h => h hname⟩)
        · obtain ⟨detail, hfails⟩ := (hrest (names ++ (pluginOf follow settings root e).toList)).2 ⟨bad, hbad, hfile, hname⟩
          exact ⟨detail, (hstep.1 hhead).bind hfails⟩
      · obtain ⟨hfile', hname'⟩ := not_or.mp hhead
        obtain ⟨detail, hfails⟩ := hstep.2 hfile' (not_not.mp hname')
        exact ⟨detail, hfails.bind_fail⟩

variable (settings) in
/-- **The listing** finds the plugins of the root, or fails at a name that is not Unicode. -/
theorem computes_listNames (hnative : ∀ n, seams.native n = .ok ()) (hfollow : ∀ n path, seams.follow n path = follow path)
    (hroot : disk.find root = some (found, .dir)) :
    (Unicode follow disk root found →
      Computes disk (listNames seams settings root .plugin : Prog (Site V P) (Thrown String) _)
        (.done ((disk.children found).filterMap (pluginOf follow settings root)))) ∧
    (¬Unicode follow disk root found → ∃ detail,
      Computes disk (listNames seams settings root .plugin : Prog (Site V P) (Thrown String) _)
        (.fail (.error detail))) := by
  have hread : Computes disk (accessing root (inspectTree seams.toSeams (readDirectory root)) :
      Prog (Site V P) (Thrown String) _) (.done ((disk.children found).map Prod.fst)) := by
    refine (counts_inspectTree hnative ?_).mapError.computes
    unfold readDirectory
    rw [hroot]
  have heach := computes_listEach (P := P) settings hnative hfollow hroot (disk.children found)
    (fun e he => PathTree.mem_children.mp he) []
  rw [← foldEach_map, List.nil_append] at heach
  constructor
  · intro hunicode
    exact hread.bind (heach.1 fun e he => hunicode _ _ (PathTree.mem_children.mp he))
  · intro hunicode
    unfold Unicode at hunicode
    push Not at hunicode
    obtain ⟨name, node, hhas, hfile, hname⟩ := hunicode
    obtain ⟨detail, hfails⟩ := heach.2 ⟨(name, node), PathTree.mem_children.mpr hhas, hfile, hname⟩
    exact ⟨detail, hread.bind hfails⟩

/-! ## One plugin -/

/-- The facts of a directory that is pinned. -/
theorem factsOf_run {seams : Seams} (hnative : ∀ n, seams.native n = .ok ()) {action : String} {path : Path}
    {node : Node Leaf} {s : Site V P} (h : entryAt path s.disk = .ok node) :
    factsOf seams action path s = (.done ⟨node, seams.stamp s.calls⟩, { s with calls := s.calls + 2 }) := by
  have hinspect := (counts_inspectTree (P := P) hnative h).mapError (f := Thrown.map (SourcePinError.io action path))
    { s with calls := s.calls + 1 } rfl
  unfold factsOf
  show Prog.andThen (pinIo action path (inspectTree seams (entryAt path))) _ { s with calls := s.calls + 1 } = _
  unfold Prog.andThen pinIo
  rw [hinspect]
  rfl

theorem counts_pinParent {directory q : Path} (h : disk.find directory = some (q, .dir)) (pins : List Path) :
    ∃ k pins', ∀ {seams : Seams}, (∀ n, seams.native n = .ok ()) →
      Counts disk (pinParent seams pins directory : Prog (Site V P) _ _) k (.done pins') := by
  by_cases hpinned : directory ∈ pins
  · refine ⟨0, pins, fun _ => ?_⟩
    unfold pinParent
    rw [if_pos hpinned]
    exact counts_pure pins
  · have hentry : entryAt directory disk = .ok .dir := by rw [entryAt, h]
    refine ⟨1 + 2, pins ++ [directory], fun {seams} hnative => ?_⟩
    have hopen : Counts disk (openPin seams "Could not pin parent directory" directory : Prog (Site V P) _ Unit) 1
        (.done ()) := ((counts_inspectTree hnative hentry).bind (m := 0) (counts_pure ())).mapError
    unfold pinParent
    rw [if_neg hpinned]
    refine hopen.bind fun s hs => ?_
    subst hs
    show Prog.andThen (factsOf seams "Could not inspect parent directory" directory) _ s = _
    unfold Prog.andThen
    rw [factsOf_run hnative hentry]
    rfl

theorem counts_pinEach {directories : List Path} (h : ∀ d ∈ directories, ∃ q, disk.find d = some (q, .dir))
    (pins : List Path) : ∃ k pins', ∀ {seams : Seams}, (∀ n, seams.native n = .ok ()) →
      Counts disk (Prog.foldEach (pinParent seams) pins directories : Prog (Site V P) _ _) k (.done pins') := by
  induction directories generalizing pins with
  | nil => exact ⟨0, pins, fun _ => counts_pure pins⟩
  | cons directory directories ih =>
    obtain ⟨q, hq⟩ := h directory List.mem_cons_self
    obtain ⟨k, pins', hhead⟩ := counts_pinParent (P := P) hq pins
    obtain ⟨m, pins'', hrest⟩ := ih (fun d hd => h d (List.mem_cons_of_mem _ hd)) pins'
    exact ⟨k + m, pins'', fun hnative => (hhead hnative).bind (hrest hnative)⟩

/-- **The directories down to a name in the root are pinned**, in a number of calls that the tree decides. -/
theorem counts_pinDirectories (hroot : disk.find root = some (found, .dir)) (name : OsStr) :
    ∃ k pins, ∀ {seams : Seams}, (∀ n, seams.native n = .ok ()) →
      Counts disk (pinDirectories seams (root ++ [name]) root [] : Prog (Site V P) _ _) k (.done pins) := by
  have hrelative : relativeTo root (root ++ [name]) = some [name] := relativeTo_eq_some.mpr rfl
  have hdirs : ∀ d ∈ root.inits, ∃ q, disk.find d = some (q, .dir) := by
    intro d hd
    obtain ⟨rest, rfl⟩ := (List.mem_inits d root).mp hd
    exact PathTree.find_above hroot
  obtain ⟨k, pins, hpin⟩ := counts_pinEach (P := P) hdirs []
  refine ⟨k, pins, fun hnative => ?_⟩
  unfold pinDirectories
  rw [hrelative, List.dropLast_concat]
  exact hpin hnative

/-- The facts of an open plugin. -/
theorem dummyFacts_run (hnative : ∀ n, seams.native n = .ok ()) {path : Path} {node : Node Leaf} {s : Site V P}
    (h : entryAt path s.disk = .ok node) :
    dummyFacts seams path s = (.done ⟨node, seams.stamp s.calls⟩, { s with calls := s.calls + 2 }) := by
  have hinspect := (counts_inspectTree (P := P) hnative h).mapError
    (f := Thrown.map fun detail => "Could not inspect Dummy Plugin" ++ " `" ++ displayPath path ++ "`: " ++ detail)
    { s with calls := s.calls + 1 } rfl
  unfold dummyFacts
  show Prog.andThen (actingOn "Could not inspect Dummy Plugin" path (inspectTree seams.toSeams (entryAt path))) _
    { s with calls := s.calls + 1 } = _
  unfold Prog.andThen actingOn
  rw [hinspect]
  rfl

/-- `remove_exact_dummy_plugin`, from the facts of the open plugin on. -/
def examine (seams : FinalizationSeams) (plugin : Path) (bytes : Bytes) (original : FileFacts) :
    Prog (Site V P) (Thrown String) DummyPluginRemoval := do
  if !original.isOrdinaryFile then
    failWith ("A Dummy Plugin is no longer an ordinary file: " ++ displayPath plugin)
  else if linkCount original ≠ 1 then failWith "A linked Dummy Plugin cannot be removed."
  else if original.size ≠ bytes.length then return .notDummy
  else do
    let contents ← actingOn "Could not read pinned Dummy Plugin" plugin
      (inspectTree seams.toSeams (readPinned plugin bytes.length))
    if contents.length ≠ bytes.length then failWith "A Dummy Plugin changed during verification."
    else if contents ≠ bytes then return .notDummy
    else do
      let verified ← dummyFacts seams plugin
      if linkCount verified ≠ 1 || !verified.unchangedSince original then
        failWith "A Dummy Plugin changed during verification."
      else do
        actingOn "Could not remove pinned Dummy Plugin" plugin
          (changeTree seams.toSeams [.removed plugin] (SourceFilePin.deleteFile plugin))
        return .removed

/-- **What is opened is examined**, after a number of calls that the tree decides. -/
theorem removeExactDummyPlugin_examine (hroot : disk.find root = some (found, .dir)) (name : OsStr) :
    ∃ k, ∀ {seams : FinalizationSeams}, (∀ n, seams.native n = .ok ()) → ∀ {q node}, disk.find (root ++ [name]) = some (q, node) →
      ∀ (bytes : Bytes) (s : Site V P), s.disk = disk → removeExactDummyPlugin seams (root ++ [name]) root bytes s =
        examine seams (root ++ [name]) bytes ⟨node, seams.stamp (s.calls + k)⟩ { s with calls := s.calls + k + 2 } := by
  obtain ⟨k, pins, hpin⟩ := counts_pinDirectories (P := P) hroot name
  refine ⟨k + 1, fun {seams} hnative q node h bytes s hs => ?_⟩
  subst hs
  have hentry : entryAt (root ++ [name]) s.disk = .ok node := by rw [entryAt, h]
  have hpinned : Counts s.disk ((pinDirectories seams.toSeams (root ++ [name]) root []).mapError (Thrown.map SourcePinError.text) :
      Prog (Site V P) _ _) k (.done pins) := (hpin hnative).mapError
  have hopen : Counts s.disk (actingOn "Could not pin Dummy Plugin for removal" (root ++ [name]) (do
      let _ ← inspectTree seams.toSeams (entryAt (root ++ [name]))) : Prog (Site V P) _ _) 1 (.done ()) :=
    ((counts_inspectTree hnative hentry).bind (m := 0) (counts_pure ())).mapError
  unfold removeExactDummyPlugin
  rw [Prog.bind_of_done (hpinned s rfl), Prog.bind_of_done (hopen { s with calls := s.calls + k } rfl),
    Prog.bind_of_done (@dummyFacts_run _ _ _ _ _ hnative _ _ { s with calls := s.calls + k + 1 } hentry)]
  rfl

/-- A single-link file is found at a path. -/
def IsFile (disk : Disk V) (path q : Path) (data : Bytes) : Prop := disk.find path = some (q, .leaf (.file data 1))

/-- A name that is no single-link file's is refused. -/
theorem counts_refused (hroot : disk.find root = some (found, .dir)) {name : OsStr}
    (h : ∀ q data, ¬IsFile disk (root ++ [name]) q data) (bytes : Bytes) :
    ∃ k detail, ∀ {seams : FinalizationSeams}, (∀ n, seams.native n = .ok ()) →
      Counts disk (removeExactDummyPlugin seams (root ++ [name]) root bytes : Prog (Site V P) _ _) k
        (.fail (.error detail)) := by
  cases hfind : disk.find (root ++ [name]) with
  | none =>
    obtain ⟨k, pins, hpin⟩ := counts_pinDirectories (P := P) hroot name
    have hentry : entryAt (root ++ [name]) disk = .error notFoundText := by rw [entryAt, hfind]
    refine ⟨k + 1, "Could not pin Dummy Plugin for removal" ++ " `" ++ displayPath (root ++ [name]) ++ "`: " ++ notFoundText,
      fun hnative => (hpin hnative).mapError.bind (Counts.bind_fail ?_)⟩
    exact (counts_inspectTree_error hnative hentry).bind_fail.mapError_fail
  | some entry =>
    obtain ⟨q, node⟩ := entry
    obtain ⟨k, hexamine⟩ := removeExactDummyPlugin_examine (P := P) hroot name
    by_cases hfile : ∃ data links, node = .leaf (.file data links)
    · obtain ⟨data, links, rfl⟩ := hfile
      have hlinks : links ≠ 1 := by
        rintro rfl
        exact h q data hfind
      refine ⟨k + 2, "A linked Dummy Plugin cannot be removed.", fun hnative s hs => ?_⟩
      rw [hexamine hnative hfind bytes s hs]
      unfold examine
      rw [if_neg (by simp [FileFacts.isOrdinaryFile]), if_pos (show linkCount ⟨.leaf (.file data links), _⟩ ≠ 1 from hlinks)]
      rfl
    · refine ⟨k + 2, "A Dummy Plugin is no longer an ordinary file: " ++ displayPath (root ++ [name]), fun hnative s hs => ?_⟩
      rw [hexamine hnative hfind bytes s hs]
      have hordinary : FileFacts.isOrdinaryFile ⟨node, 0⟩ = false := by
        rcases node with _ | ⟨data, links⟩ | _ | _
        · rfl
        · exact absurd ⟨data, links, rfl⟩ hfile
        · rfl
        · rfl
      unfold examine
      rw [if_pos (by rw [Bool.not_eq_true']; exact hordinary)]
      rfl

/-- A file of other bytes is kept. -/
theorem counts_kept (hroot : disk.find root = some (found, .dir)) {name : OsStr} {q : Path} {data bytes : Bytes}
    (h : IsFile disk (root ++ [name]) q data) (hne : data ≠ bytes) :
    ∃ k, ∀ {seams : FinalizationSeams}, (∀ n, seams.native n = .ok ()) →
      Counts disk (removeExactDummyPlugin seams (root ++ [name]) root bytes : Prog (Site V P) _ _) k (.done .notDummy) := by
  obtain ⟨k, hexamine⟩ := removeExactDummyPlugin_examine (P := P) hroot name
  by_cases hlength : data.length = bytes.length
  · refine ⟨k + 2 + 1, fun {seams} hnative s hs => ?_⟩
    rw [hexamine hnative h bytes s hs]
    have hread : readPinned (root ++ [name]) bytes.length s.disk = .ok data := by
      subst hs
      unfold readPinned
      rw [h, ← hlength]
      exact congrArg _ (List.take_length)
    have hcontents : Counts s.disk (actingOn "Could not read pinned Dummy Plugin" (root ++ [name])
        (inspectTree seams.toSeams (readPinned (root ++ [name]) bytes.length)) : Prog (Site V P) _ _) 1 (.done data) :=
      (counts_inspectTree hnative hread).mapError
    unfold examine
    rw [if_neg (by simp [FileFacts.isOrdinaryFile]), if_neg (show ¬linkCount _ ≠ 1 from fun h => h rfl),
      if_neg (show ¬FileFacts.size ⟨.leaf (.file data 1), _⟩ ≠ bytes.length from fun h => h hlength)]
    rw [Prog.bind_of_done (hcontents { s with calls := s.calls + k + 2 } rfl), if_neg (fun h => h hlength), if_pos hne]
    rfl
  · refine ⟨k + 2, fun hnative s hs => ?_⟩
    rw [hexamine hnative h bytes s hs]
    unfold examine
    rw [if_neg (by simp [FileFacts.isOrdinaryFile]), if_neg (show ¬linkCount _ ≠ 1 from fun h => h rfl),
      if_pos (show FileFacts.size ⟨.leaf (.file data 1), _⟩ ≠ bytes.length from hlength)]
    rfl

omit [DecidableEq K] in
/-- A change that nothing refuses takes place. -/
theorem changeTree_run {seams : Seams} (hnative : ∀ n, seams.native n = .ok ()) {events : List Event}
    {f : Disk V → Except String (Disk V)} {disk' : Disk V} {s : Site V P} (h : f s.disk = .ok disk') :
    changeTree seams events f s =
      (.done (), { s with disk := disk', calls := s.calls + 1, log := s.log ++ events }) := by
  unfold changeTree
  rw [Prog.bind_of_done (counts_call hnative s rfl)]
  show Prog.andThen Prog.get _ { s with calls := s.calls + 1 } = _
  unfold Prog.andThen Prog.get
  dsimp only
  rw [h]
  rfl

/-- **A file of the dummy's bytes is removed**, where it looks the same twice. -/
theorem removeExactDummyPlugin_removes (hroot : disk.find root = some (found, .dir)) {name : OsStr} {q : Path}
    {bytes : Bytes} (h : IsFile disk (root ++ [name]) q bytes) :
    ∃ look k disk', disk.erase q = some disk' ∧ look + 3 < k ∧ ∀ {seams : FinalizationSeams}, (∀ n, seams.native n = .ok ()) →
      ∀ s : Site V P, s.disk = disk → seams.stamp (s.calls + look + 3) = seams.stamp (s.calls + look) →
        ∃ log, removeExactDummyPlugin seams (root ++ [name]) root bytes s =
          (.done .removed, { s with disk := disk', calls := s.calls + k, log }) := by
  obtain ⟨k, hexamine⟩ := removeExactDummyPlugin_examine (P := P) hroot name
  have hne : root ++ [name] ≠ [] := by simp
  obtain ⟨disk', herase⟩ := PathTree.erase_leaf ((PathTree.find_eq_some hne).mp h).1
  refine ⟨k, k + 6, disk', herase, by omega, fun {seams} hnative s hs hstamp => ?_⟩
  subst hs
  have hread : readPinned (root ++ [name]) bytes.length s.disk = .ok bytes := by
    unfold readPinned
    rw [h]
    exact congrArg _ (List.take_length)
  have hcontents : Counts s.disk (actingOn "Could not read pinned Dummy Plugin" (root ++ [name])
      (inspectTree seams.toSeams (readPinned (root ++ [name]) bytes.length)) : Prog (Site V P) _ _) 1 (.done bytes) :=
    (counts_inspectTree hnative hread).mapError
  have hentry : entryAt (root ++ [name]) s.disk = .ok (.leaf (.file bytes 1)) := by rw [entryAt, h]
  refine ⟨s.log ++ [.removed (root ++ [name])], ?_⟩
  rw [hexamine hnative h bytes s rfl]
  unfold examine
  rw [if_neg (by simp [FileFacts.isOrdinaryFile]), if_neg (show ¬linkCount _ ≠ 1 from fun h => h rfl),
    if_neg (show ¬FileFacts.size ⟨.leaf (.file bytes 1), _⟩ ≠ bytes.length from fun h => h rfl)]
  rw [Prog.bind_of_done (hcontents { s with calls := s.calls + k + 2 } rfl), if_neg (fun h => h rfl),
    if_neg (fun h => h rfl),
    Prog.bind_of_done (@dummyFacts_run _ _ _ _ _ hnative _ _ { s with calls := s.calls + k + 3 } hentry)]
  have hdelete : SourceFilePin.deleteFile (root ++ [name]) s.disk = .ok disk' := by
    unfold SourceFilePin.deleteFile
    rw [h]
    dsimp only
    rw [herase]
  rw [if_neg (by simp [FileFacts.unchangedSince, FileFacts.size, linkCount, hstamp])]
  have hchange : (actingOn "Could not remove pinned Dummy Plugin" (root ++ [name])
      (changeTree seams.toSeams [.removed (root ++ [name])] (SourceFilePin.deleteFile (root ++ [name]))))
      { s with calls := s.calls + k + 5 } = (.done (), { s with
        disk := disk', calls := s.calls + k + 6, log := s.log ++ [.removed (root ++ [name])] }) := by
    unfold actingOn Prog.mapError
    rw [@changeTree_run _ _ _ _ hnative _ _ _ { s with calls := s.calls + k + 5 } hdelete]
  exact Prog.bind_of_done hchange

/-! ## The loop -/

/-- Each of the names is a single-link file's, and no two are one dummy's. -/
structure Clear (bytes : Bytes) (disk : Disk V) (names : List Path) : Prop where
  found : ∀ path ∈ names, ∃ q data, IsFile disk path q data
  once : names.Pairwise fun path path' => ∀ q, ¬(IsFile disk path q bytes ∧ IsFile disk path' q bytes)

theorem clear_kept {path q : Path} {data : Bytes} {names : List Path} (h : IsFile disk path q data) (hne : data ≠ bytes) :
    Clear bytes disk (path :: names) ↔ Clear bytes disk names := by
  constructor
  · intro hclear
    exact ⟨fun path' h' => hclear.found path' (List.mem_cons_of_mem _ h'), (List.pairwise_cons.mp hclear.once).2⟩
  · intro hclear
    refine ⟨fun path' h' => ?_, List.pairwise_cons.mpr ⟨fun path' _ r hboth => ?_, hclear.once⟩⟩
    · rcases List.mem_cons.mp h' with rfl | h'
      · exact ⟨q, data, h⟩
      · exact hclear.found path' h'
    · have heq := h.symm.trans hboth.1
      rw [Option.some.injEq, Prod.mk.injEq, Node.leaf.injEq, Leaf.file.injEq] at heq
      exact hne heq.2.1

theorem isFile_erase {path p q : Path} {data : Bytes} {disk' : Disk V} (herase : disk.erase p = some disk') (hp : p ≠ []) :
    IsFile disk' path q data ↔ IsFile disk path q data ∧ q ≠ p := PathTree.find_erase herase hp

theorem clear_removed {path q : Path} {names : List Path} {disk' : Disk V} (h : IsFile disk path q bytes)
    (hq : q ≠ []) (herase : disk.erase q = some disk') :
    Clear bytes disk (path :: names) ↔ Clear bytes disk' names := by
  constructor
  · intro hclear
    obtain ⟨honce, hrest⟩ := List.pairwise_cons.mp hclear.once
    refine ⟨fun path' h' => ?_, hrest.imp fun hapart r hboth => hapart r ?_⟩
    · obtain ⟨r, data, hr⟩ := hclear.found path' (List.mem_cons_of_mem _ h')
      refine ⟨r, data, (isFile_erase herase hq).mpr ⟨hr, ?_⟩⟩
      rintro rfl
      have hsame : data = bytes := by
        have hfold := (PathTree.fold_of_find hr).symm.trans (PathTree.fold_of_find h)
        have heq := hr.symm.trans ((PathTree.find_congr hfold).trans h)
        rw [Option.some.injEq, Prod.mk.injEq, Node.leaf.injEq, Leaf.file.injEq] at heq
        exact heq.2.1
      exact honce path' h' r ⟨h, hsame ▸ hr⟩
    · exact ⟨((isFile_erase herase hq).mp hboth.1).1, ((isFile_erase herase hq).mp hboth.2).1⟩
  · intro hclear
    refine ⟨fun path' h' => ?_, List.pairwise_cons.mpr ⟨fun path' h' r hboth => ?_, ?_⟩⟩
    · rcases List.mem_cons.mp h' with rfl | h'
      · exact ⟨q, bytes, h⟩
      · obtain ⟨r, data, hr⟩ := hclear.found path' h'
        exact ⟨r, data, ((isFile_erase herase hq).mp hr).1⟩
    · obtain ⟨r', data, hr'⟩ := hclear.found path' h'
      obtain ⟨hr', hne⟩ := (isFile_erase herase hq).mp hr'
      have heq := hr'.symm.trans (hboth.2.trans (hboth.1.symm.trans h))
      rw [Option.some.injEq, Prod.mk.injEq] at heq
      exact hne heq.1
    · refine hclear.once.imp_of_mem fun hmem hmem' hapart r hboth => hapart r ?_
      have hkept : ∀ path' ∈ names, IsFile disk path' r bytes → IsFile disk' path' r bytes := by
        intro path' h' hr
        obtain ⟨r', data, hr'⟩ := hclear.found path' h'
        have hrr := ((isFile_erase herase hq).mp hr').1
        have heq := hr.symm.trans hrr
        rw [Option.some.injEq, Prod.mk.injEq] at heq
        refine (isFile_erase herase hq).mpr ⟨hr, ?_⟩
        rw [heq.1]
        exact ((isFile_erase herase hq).mp hr').2
      exact ⟨hkept _ hmem hboth.1, hkept _ hmem' hboth.2⟩

omit [DecidableEq K] in
theorem isCancelled_run (hcancelled : ∀ n, seams.cancelled n = false) (s : Site V P) :
    (isCancelled seams : Prog (Site V P) ε Bool) s = (.done false, { s with calls := s.calls + 1 }) := by
  show (Outcome.done (seams.cancelled s.calls), _) = _
  rw [hcancelled]

/-- What the loop comes to on some names. -/
structure LoopEnds (bytes : Bytes) (disk : Disk V) (names : List Path) (s : Site V Finalization)
    (run : Outcome (Thrown ε) Bool × Site V Finalization) : Prop where
  done : Clear bytes disk names → run.1 = .done true
  unfailed : Clear bytes disk names → run.2.progress.account.failure = s.progress.account.failure
  has : Clear bytes disk names → ∀ path node, run.2.disk.Has path node ↔
    disk.Has path node ∧ ¬∃ name ∈ names, IsFile disk name path bytes
  fails : ¬Clear bytes disk names → run.1 = .done false

/-- **The loop ends well exactly where the names are clear**, and then has removed the dummies they name. `looks` are the
calls that look at such a dummy first. -/
theorem removeDummiesOf_ends (plan : FinalizationPlan) (plugins : List ArchiveName)
    (hdir : ∀ plugin ∈ plugins, plugin.dir = root) (hroot : disk.find root = some (found, .dir)) (calls : Nat) :
    ∃ looks : List Nat, looks.Pairwise (fun m n => m + 3 < n) ∧ (∀ n ∈ looks, calls ≤ n) ∧
      ∀ {seams : FinalizationSeams}, (∀ n, seams.native n = .ok ()) → (∀ n, seams.cancelled n = false) →
        (∀ n ∈ looks, seams.stamp (n + 3) = seams.stamp n) → ∀ s : Site V Finalization, s.disk = disk → s.calls = calls →
          LoopEnds plan.rules.dummyPlugin disk (plugins.map ArchiveName.fullPath) s
            ((removeDummiesOf seams plan root plugins : Prog (Site V Finalization) (Thrown ε) Bool) s) := by
  induction plugins generalizing disk calls with
  | nil =>
    refine ⟨[], .nil, by simp, fun _ _ _ s hs _ => ⟨fun _ => rfl, fun _ => rfl, fun _ => ?_, fun hclear => ?_⟩⟩
    · show ∀ path node, s.disk.Has path node ↔ _
      simp [hs]
    · exact absurd ⟨by simp, .nil⟩ hclear
  | cons plugin plugins ih =>
    have hrestDir : ∀ plugin ∈ plugins, plugin.dir = root := fun p hp => hdir p (List.mem_cons_of_mem _ hp)
    obtain ⟨name, hpath⟩ : ∃ name, plugin.fullPath = root ++ [name] := by
      unfold ArchiveName.fullPath
      rw [hdir plugin List.mem_cons_self]
      exact ⟨_, rfl⟩
    by_cases hfile : ∃ q data, IsFile disk (root ++ [name]) q data
    · obtain ⟨q, data, hfile⟩ := hfile
      by_cases hdata : data = plan.rules.dummyPlugin
      · -- The next plugins meet the tree without this dummy.
        subst hdata
        have hq : disk.Has q (.leaf (.file plan.rules.dummyPlugin 1)) :=
          ((PathTree.find_eq_some (by simp)).mp hfile).1
        obtain ⟨look, k, disk', herase, hlook, hremoves⟩ := removeExactDummyPlugin_removes (P := Finalization) hroot hfile
        have hroot' : disk'.find root = some (found, .dir) := by
          refine (PathTree.find_erase herase hq.ne_nil).mpr ⟨hroot, ?_⟩
          rintro rfl
          rcases PathTree.isDir_of_find hroot with h | h
          · exact hq.ne_nil h
          · cases h.node_unique hq
        obtain ⟨looks, hpairwise, hbehind, hrest⟩ := ih hrestDir hroot' (calls + 1 + k)
        refine ⟨(calls + 1 + look) :: looks, List.pairwise_cons.mpr ⟨fun n hn => ?_, hpairwise⟩, fun n hn => ?_,
          fun {seams} hnative hcancelled hstamp s hs hcalls => ?_⟩
        · have := hbehind n hn
          omega
        · rcases List.mem_cons.mp hn with rfl | hn
          · omega
          · have := hbehind n hn
            omega
        have hlooks : seams.stamp (s.calls + 1 + look + 3) = seams.stamp (s.calls + 1 + look) := by
          rw [hcalls]
          exact hstamp _ List.mem_cons_self
        obtain ⟨log, hremoved⟩ := hremoves hnative { s with calls := s.calls + 1 } hs hlooks
        unfold removeDummiesOf
        rw [Prog.bind_of_done (isCancelled_run hcancelled s), if_neg Bool.false_ne_true, hpath,
          Prog.bind_of_done (result_of_done hremoved)]
        have hends := hrest hnative hcancelled (fun n hn => hstamp n (List.mem_cons_of_mem _ hn))
          { s with
            disk := disk', calls := s.calls + 1 + k, log
            progress := { s.progress with account := { s.progress.account with
              mutations := s.progress.account.mutations ++
                [⟨root, root ++ [name], .pluginRemoval, .committed, 1, Nat.one_pos⟩] } } } rfl (by rw [← hcalls])
        have hclear := @clear_removed _ _ _ _ _ _ _ (plugins.map ArchiveName.fullPath) _ hfile hq.ne_nil herase
        rw [List.map_cons, hpath]
        refine ⟨fun h => hends.done (hclear.mp h), fun h => hends.unfailed (hclear.mp h), fun h path node => ?_,
          fun h => hends.fails fun h' => h (hclear.mpr h')⟩
        refine (hends.has (hclear.mp h) path node).trans ?_
        have hhead : IsFile disk (root ++ [name]) path plan.rules.dummyPlugin ↔ path = q := by
          refine ⟨fun h => ?_, fun h => h ▸ hfile⟩
          have heq := h.symm.trans hfile
          rw [Option.some.injEq, Prod.mk.injEq] at heq
          exact heq.1
        rw [PathTree.has_erase herase, List.exists_mem_cons_iff, hhead, not_or, and_assoc]
        refine and_congr_right fun _ => and_congr_right fun hne => not_congr (exists_congr fun other => ?_)
        rw [isFile_erase herase hq.ne_nil, and_iff_left hne]
      · -- The next plugins meet the same tree.
        obtain ⟨k, hkept⟩ := counts_kept (P := Finalization) hroot hfile hdata
        obtain ⟨looks, hpairwise, hbehind, hrest⟩ := ih hrestDir hroot (calls + 1 + k)
        refine ⟨looks, hpairwise, fun n hn => (hbehind n hn).trans' (by omega),
          fun hnative hcancelled hstamp s hs hcalls => ?_⟩
        unfold removeDummiesOf
        rw [Prog.bind_of_done (isCancelled_run hcancelled s), if_neg Bool.false_ne_true, hpath,
          Prog.bind_of_done (result_of_done (hkept hnative { s with calls := s.calls + 1 } hs))]
        have hends := hrest hnative hcancelled hstamp { s with calls := s.calls + 1 + k } hs (by rw [← hcalls])
        have hclear := @clear_kept _ _ _ _ _ _ _ _ (plugins.map ArchiveName.fullPath) hfile hdata
        rw [List.map_cons, hpath]
        refine ⟨fun h => hends.done (hclear.mp h), fun h => hends.unfailed (hclear.mp h), fun h path node => ?_,
          fun h => hends.fails fun h' => h (hclear.mpr h')⟩
        refine (hends.has (hclear.mp h) path node).trans ?_
        rw [List.exists_mem_cons_iff, or_iff_right]
        intro hdummy
        have heq := hfile.symm.trans hdummy
        rw [Option.some.injEq, Prod.mk.injEq, Node.leaf.injEq, Leaf.file.injEq] at heq
        exact hdata heq.2.1
    · have hnone : ∀ q data, ¬IsFile disk (root ++ [name]) q data := fun q data h => hfile ⟨q, data, h⟩
      obtain ⟨k, detail, hrefused⟩ := counts_refused (P := Finalization) hroot hnone plan.rules.dummyPlugin
      refine ⟨[], .nil, by simp, fun {seams} hnative hcancelled _ s hs _ => ?_⟩
      have hunclear : ¬Clear plan.rules.dummyPlugin disk ((plugin :: plugins).map ArchiveName.fullPath) := by
        intro hclear
        obtain ⟨q, data, h⟩ := hclear.found plugin.fullPath (by simp)
        exact hnone q data (hpath ▸ h)
      refine ⟨fun h => absurd h hunclear, fun h => absurd h hunclear, fun h => absurd h hunclear, fun _ => ?_⟩
      unfold removeDummiesOf
      rw [Prog.bind_of_done (isCancelled_run hcancelled s), if_neg Bool.false_ne_true, hpath,
        Prog.bind_of_done (result_of_error (hrefused hnative { s with calls := s.calls + 1 } hs))]
      rfl

/-! ## The root -/

/-- A Dummy Plugin that is listed. -/
def ListedDummy (follow : Path → Option (Node Leaf)) (settings : Settings) (bytes : Bytes) (disk : Disk V)
    (root found path : Path) : Prop :=
  ∃ name plugin, path = found ++ [name] ∧ Listed follow settings disk root found name (.leaf (.file bytes 1)) plugin

/-- What dummy removal is for: it ends well, the listed Dummy Plugins are gone and all else stays. -/
structure DummiesRemoved (follow : Path → Option (Node Leaf)) (settings : Settings) (bytes : Bytes) (root found : Path)
    (s : Site V Finalization) (run : Outcome (Thrown ε) Bool × Site V Finalization) : Prop where
  done : run.1 = .done true
  unfailed : run.2.progress.account.failure = s.progress.account.failure
  exact : ∀ path node, run.2.disk.Has path node ↔
    s.disk.Has path node ∧ ¬ListedDummy follow settings bytes s.disk root found path

/-- The names that the plugins of a root render as match its Dummy Plugins. -/
structure Matched (follow : Path → Option (Node Leaf)) (settings : Settings) (bytes : Bytes) (disk : Disk V)
    (root found : Path) : Prop where
  unicode : Unicode follow disk root found
  /-- Each name is a single-link file's. -/
  files : ∀ {name node plugin}, Listed follow settings disk root found name node plugin →
    ∃ q data, IsFile disk plugin.fullPath q data
  /-- No two are one dummy's. -/
  once : ∀ {name node plugin name' node' plugin'}, Listed follow settings disk root found name node plugin →
    Listed follow settings disk root found name' node' plugin' → ∀ q, IsFile disk plugin.fullPath q bytes →
      IsFile disk plugin'.fullPath q bytes → name = name'
  /-- The dummies they are of are those listed. -/
  exact : ∀ path, ListedDummy follow settings bytes disk root found path ↔
    ∃ name node plugin, Listed follow settings disk root found name node plugin ∧ IsFile disk plugin.fullPath path bytes

/-- The plugins of a root, in the order of its directory. -/
def plugins (follow : Path → Option (Node Leaf)) (settings : Settings) (disk : Disk V) (root found : Path) :
    List ArchiveName := (disk.children found).filterMap (pluginOf follow settings root)

omit [DecidableEq K] in
theorem mem_plugins {plugin : ArchiveName} : plugin ∈ plugins follow settings disk root found ↔
    ∃ name node, Listed follow settings disk root found name node plugin := by
  unfold plugins
  rw [List.mem_filterMap, Prod.exists]
  exact exists_congr fun name => exists_congr fun node => pluginOf_iff

omit [DecidableEq K] in
theorem Listed.dir {name : OsStr} {node : Node Leaf} {plugin : ArchiveName}
    (h : Listed follow settings disk root found name node plugin) : plugin.dir = root := by
  have hnamed := h.named
  unfold FilePath.make at hnamed
  rw [List.getLast?_concat, Option.bind_eq_bind, Option.bind_some, Option.bind_eq_bind] at hnamed
  obtain ⟨text, -, hplugin⟩ := Option.bind_eq_some_iff.mp hnamed
  dsimp only at hplugin
  split_ifs at hplugin
  rw [Option.some.injEq] at hplugin
  rw [← hplugin]
  exact List.dropLast_concat

/-- The names of the listed plugins are clear where each is a file's, and no two are one dummy's. -/
theorem clear_plugins : Clear bytes disk ((plugins follow settings disk root found).map ArchiveName.fullPath) ↔
    (∀ {name node plugin}, Listed follow settings disk root found name node plugin →
      ∃ q data, IsFile disk plugin.fullPath q data) ∧
    ∀ {name node plugin name' node' plugin'}, Listed follow settings disk root found name node plugin →
      Listed follow settings disk root found name' node' plugin' → ∀ q, IsFile disk plugin.fullPath q bytes →
        IsFile disk plugin'.fullPath q bytes → name = name' := by
  have hnodup := PathTree.nodup_children disk found
  have hpairwise : ((plugins follow settings disk root found).map ArchiveName.fullPath).Pairwise (fun path path' =>
      ∀ q, ¬(IsFile disk path q bytes ∧ IsFile disk path' q bytes)) ↔
      (disk.children found).Pairwise fun e e' => ∀ plugin, pluginOf follow settings root e = some plugin →
        ∀ plugin', pluginOf follow settings root e' = some plugin' →
          ∀ q, ¬(IsFile disk plugin.fullPath q bytes ∧ IsFile disk plugin'.fullPath q bytes) := by
    unfold plugins
    rw [List.pairwise_map, List.pairwise_filterMap]
  constructor
  · intro hclear
    refine ⟨fun h => hclear.found _ (List.mem_map_of_mem (mem_plugins.mpr ⟨_, _, h⟩)), ?_⟩
    intro name node plugin name' node' plugin' h h' q hq hq'
    by_contra hne
    obtain ⟨hmem, hplugin⟩ := pluginOf_iff.mpr h
    obtain ⟨hmem', hplugin'⟩ := pluginOf_iff.mpr h'
    have hsymm : Std.Symm fun e e' : OsStr × Node Leaf => ∀ plugin, pluginOf follow settings root e = some plugin →
        ∀ plugin', pluginOf follow settings root e' = some plugin' →
          ∀ q, ¬(IsFile disk plugin.fullPath q bytes ∧ IsFile disk plugin'.fullPath q bytes) :=
      ⟨fun e e' hapart plugin hp plugin' hp' q hboth => hapart plugin' hp' plugin hp q hboth.symm⟩
    exact (hpairwise.mp hclear.once).forall hmem hmem' (fun heq => hne (congrArg Prod.fst heq))
      plugin hplugin plugin' hplugin' q ⟨hq, hq'⟩
  · rintro ⟨hfound, honce⟩
    refine ⟨fun path hpath => ?_, hpairwise.mpr (hnodup.of_map.pairwise_of_forall_ne fun e he e' he' hne => ?_)⟩
    · obtain ⟨plugin, hplugin, rfl⟩ := List.mem_map.mp hpath
      obtain ⟨name, node, h⟩ := mem_plugins.mp hplugin
      exact hfound h
    · intro plugin hplugin plugin' hplugin' q hboth
      have hsame := honce (pluginOf_iff.mp ⟨he, hplugin⟩) (pluginOf_iff.mp ⟨he', hplugin'⟩) q hboth.1 hboth.2
      exact hne (List.inj_on_of_nodup_map hnodup he he' hsame)

/-- **Dummy removal is exact where the names match, and only there.** `looks` are the calls that look at a dummy first: only
there, and at the second look three calls on, do the stamps matter. -/
theorem dummiesRemoved_iff (hnative : ∀ n, seams.native n = .ok ()) (hcancelled : ∀ n, seams.cancelled n = false)
    (hfollow : ∀ n path, seams.follow n path = follow path) (settings : Settings) (plan : FinalizationPlan)
    (hdummies : plan.createDummies = false) (s : Site V Finalization) (hroot : s.disk.find root = some (found, .dir)) :
    ∃ looks : List Nat, looks.Pairwise (fun m n => m + 3 < n) ∧
      ∀ stamp : Nat → Nat, (∀ n ∈ looks, stamp (n + 3) = stamp n) →
        (DummiesRemoved follow settings plan.rules.dummyPlugin root found s
            (maintainExistingLoadingPlugins { seams with stamp } settings plan root s) ↔
          Matched follow settings plan.rules.dummyPlugin s.disk root found) := by
  have hlist := computes_listNames (P := Finalization) settings hnative hfollow hroot
  by_cases hunicode : Unicode follow s.disk root found
  · obtain ⟨n, hn⟩ := hlist.1 hunicode s rfl
    obtain ⟨looks, hpairwise, -, hrun⟩ := removeDummiesOf_ends (ε := String) plan (plugins follow settings s.disk root found)
      (fun plugin h => by obtain ⟨_, _, h⟩ := mem_plugins.mp h; exact h.dir) hroot n
    refine ⟨looks, hpairwise, fun stamp hstamp => ?_⟩
    have hends := @hrun { seams with stamp } hnative hcancelled hstamp { s with calls := n } rfl rfl
    have hmaintain : maintainExistingLoadingPlugins { seams with stamp } settings plan root s =
        removeDummiesOf { seams with stamp } plan root (plugins follow settings s.disk root found) { s with calls := n } := by
      unfold maintainExistingLoadingPlugins removeDummyPlugins
      rw [if_neg (by rw [hdummies]; exact Bool.false_ne_true)]
      exact Prog.bind_of_done (result_of_done hn)
    rw [hmaintain]
    generalize removeDummiesOf { seams with stamp } plan root (plugins follow settings s.disk root found)
      { s with calls := n } = run at hends ⊢
    have hnames : ∀ path, (∃ name ∈ (plugins follow settings s.disk root found).map ArchiveName.fullPath,
        IsFile s.disk name path plan.rules.dummyPlugin) ↔ ∃ name node plugin,
          Listed follow settings s.disk root found name node plugin ∧
            IsFile s.disk plugin.fullPath path plan.rules.dummyPlugin := by
      intro path
      constructor
      · rintro ⟨_, hmem, hfile⟩
        obtain ⟨plugin, hplugin, rfl⟩ := List.mem_map.mp hmem
        obtain ⟨name, node, hlisted⟩ := mem_plugins.mp hplugin
        exact ⟨name, node, plugin, hlisted, hfile⟩
      · rintro ⟨name, node, plugin, hlisted, hfile⟩
        exact ⟨_, List.mem_map_of_mem (mem_plugins.mpr ⟨name, node, hlisted⟩), hfile⟩
    constructor
    · intro h
      have hclear : Clear plan.rules.dummyPlugin s.disk ((plugins follow settings s.disk root found).map
          ArchiveName.fullPath) := by
        by_contra hclear
        have hfalse := h.done.symm.trans (hends.fails hclear)
        cases hfalse
      obtain ⟨hfiles, honce⟩ := clear_plugins.mp hclear
      refine ⟨hunicode, hfiles, honce, fun path => ?_⟩
      rw [← hnames]
      have hgone : ∀ node, s.disk.Has path node → (ListedDummy follow settings plan.rules.dummyPlugin s.disk root found path ↔
          ∃ name ∈ (plugins follow settings s.disk root found).map ArchiveName.fullPath,
            IsFile s.disk name path plan.rules.dummyPlugin) := by
        intro node hhas
        have hboth := (h.exact path node).symm.trans (hends.has hclear path node)
        rw [and_congr_right_iff] at hboth
        exact not_iff_not.mp (hboth hhas)
      constructor
      · intro hlisted
        obtain ⟨name, plugin, rfl, hlisted'⟩ := hlisted
        exact (hgone _ hlisted'.has).mp ⟨name, plugin, rfl, hlisted'⟩
      · rintro ⟨name, hmem, hfile⟩
        obtain ⟨plugin, -, rfl⟩ := List.mem_map.mp hmem
        have hhas := ((PathTree.find_eq_some (by unfold ArchiveName.fullPath; simp)).mp hfile).1
        exact (hgone _ hhas).mpr ⟨_, hmem, hfile⟩
    · intro h
      have hclear := clear_plugins.mpr ⟨h.files, h.once⟩
      refine ⟨hends.done hclear, hends.unfailed hclear, fun path node => ?_⟩
      rw [hends.has hclear, hnames, h.exact]
  · obtain ⟨detail, hfails⟩ := hlist.2 hunicode
    obtain ⟨n, hn⟩ := hfails s rfl
    refine ⟨[], .nil, fun stamp _ => iff_of_false (fun h => ?_) fun h => hunicode h.unicode⟩
    have hmaintain : maintainExistingLoadingPlugins { seams with stamp } settings plan root s =
        failRemoval { seams with stamp } detail { s with calls := n } := by
      unfold maintainExistingLoadingPlugins removeDummyPlugins
      rw [if_neg (by rw [hdummies]; exact Bool.false_ne_true)]
      exact Prog.bind_of_done (result_of_error hn)
    have hdone := h.done
    rw [hmaintain] at hdone
    cases hdone

/-- Plugins that are named again match, if they are ordinary files. -/
theorem matched_of_own (hroot : disk.find root = some (found, .dir)) (hunicode : Unicode follow disk root found)
    (hown : ∀ {name node plugin}, Listed follow settings disk root found name node plugin →
      plugin.fullPath = root ++ [name] ∧ ∃ data, node = .leaf (.file data 1)) :
    Matched follow settings bytes disk root found := by
  have hfile : ∀ {name node plugin}, Listed follow settings disk root found name node plugin → ∀ q data,
      IsFile disk plugin.fullPath q data ↔ q = found ++ [name] ∧ node = .leaf (.file data 1) := by
    intro name node plugin h q data
    unfold IsFile
    rw [(hown h).1, find_below hroot, h.has.find, Option.some.injEq, Prod.mk.injEq]
    exact and_congr_left fun _ => eq_comm
  refine ⟨hunicode, fun {name node plugin} h => ?_, fun h h' q hq hq' => ?_, fun path => ⟨?_, ?_⟩⟩
  · obtain ⟨-, data, hdata⟩ := hown h
    exact ⟨found ++ [name], data, (hfile h _ _).mpr ⟨rfl, hdata⟩⟩
  · have heq := ((hfile h _ _).mp hq).1.symm.trans ((hfile h' _ _).mp hq').1
    rw [List.append_cancel_left_eq, List.cons.injEq] at heq
    exact heq.1
  · rintro ⟨name, plugin, rfl, h⟩
    exact ⟨name, _, plugin, h, (hfile h _ _).mpr ⟨rfl, rfl⟩⟩
  · rintro ⟨name, node, plugin, h, hq⟩
    obtain ⟨rfl, rfl⟩ := (hfile h _ _).mp hq
    exact ⟨name, plugin, rfl, h⟩

/-- **Plugins whose stems render as they were match.** -/
theorem matched_of_renders {game : Game} {requestedLimit : Option UInt64} (hroot : disk.find root = some (found, .dir))
    (hunicode : Unicode follow disk root found)
    (hplugins : ∀ {name node plugin}, Listed follow (.forProfile game requestedLimit) disk root found name node plugin →
      Renders (.forProfile game requestedLimit) (stemOf (root ++ [name])) ∧ ∃ data, node = .leaf (.file data 1)) :
    Matched follow (.forProfile game requestedLimit) bytes disk root found :=
  matched_of_own hroot hunicode fun h => ⟨(fullPath_eq_iff h.named).mpr (hplugins h).1, (hplugins h).2⟩

/-- The plan of a run that leaves dummies out. -/
def dummylessPlan : FinalizationPlan where
  outputs := []
  roots := [pathOf ["m"]]
  rules := GameArchivePacker.rules (.forProfile .sse none)
  compress := false
  deleteSources := false
  createDummies := false
  dummyCapacityByRoot := []

/-- A Mod Root with a Dummy Plugin and another. -/
def dummyDisk : Disk asciiVolume where
  entries := [(pathOf ["m"], .dir), (pathOf ["m", "Foo.esp"], .leaf (.file dummylessPlan.rules.dummyPlugin 1)),
    (pathOf ["m", "Bar2.esp"], .leaf (.file [1] 1))]
  rooted := by decide
  named := by decide
  distinct := by decide
  closed := by decide

theorem dummiesRemoved_iff_sample :
    DummiesRemoved (fun _ => none) (.forProfile .sse none) dummylessPlan.rules.dummyPlugin (pathOf ["m"]) (pathOf ["m"])
      ⟨dummyDisk, [], ⟨.start, .default, []⟩, 0, []⟩
      (maintainExistingLoadingPlugins allowing (.forProfile .sse none) dummylessPlan (pathOf ["m"])
        ⟨dummyDisk, [], ⟨.start, .default, []⟩, 0, []⟩) := by
  have hroot : dummyDisk.find (pathOf ["m"]) = some (pathOf ["m"], .dir) := by decide +kernel
  obtain ⟨looks, -, hiff⟩ := @dummiesRemoved_iff _ _ asciiVolume allowing (fun _ => none) (pathOf ["m"]) (pathOf ["m"])
    (fun _ => rfl) (fun _ => rfl) (fun _ _ => rfl) (.forProfile .sse none) dummylessPlan rfl
    ⟨dummyDisk, [], ⟨.start, .default, []⟩, 0, []⟩ hroot
  have hentries : ∀ {name node}, dummyDisk.Has (pathOf ["m"] ++ [name]) node →
      name = OsStr.ofText "Foo.esp".toList ∧ node = .leaf (.file dummylessPlan.rules.dummyPlugin 1) ∨
        name = OsStr.ofText "Bar2.esp".toList ∧ node = .leaf (.file [1] 1) := by
    intro name node h
    have hmem : (name, node) ∈ dummyDisk.children (pathOf ["m"]) := PathTree.mem_children.mpr h
    have hchildren : dummyDisk.children (pathOf ["m"]) =
        [(OsStr.ofText "Foo.esp".toList, .leaf (.file dummylessPlan.rules.dummyPlugin 1)),
          (OsStr.ofText "Bar2.esp".toList, .leaf (.file [1] 1))] := by decide +kernel
    rw [hchildren, List.mem_cons, List.mem_singleton, Prod.mk.injEq, Prod.mk.injEq] at hmem
    exact hmem
  refine (hiff (fun _ => 0) fun _ _ => rfl).mpr (matched_of_own hroot (fun name node h => .inr ?_) fun h => ?_)
  · rcases hentries h with ⟨rfl, -⟩ | ⟨rfl, -⟩ <;> decide
  · obtain ⟨hhas, -, hnamed⟩ := h
    rcases hentries hhas with ⟨rfl, rfl⟩ | ⟨rfl, rfl⟩
    · have hmake : FilePath.make (pathOf ["m"] ++ [OsStr.ofText "Foo.esp".toList]) (.forProfile .sse none) .plugin =
          some ⟨pathOf ["m"], "Foo".toList, [], ".esp".toList, none⟩ := by decide +kernel
      rw [hmake, Option.some.injEq] at hnamed
      subst hnamed
      exact ⟨by decide, _, rfl⟩
    · have hmake : FilePath.make (pathOf ["m"] ++ [OsStr.ofText "Bar2.esp".toList]) (.forProfile .sse none) .plugin =
          some ⟨pathOf ["m"], "Bar".toList, [], ".esp".toList, some 2⟩ := by decide +kernel
      rw [hmake, Option.some.injEq] at hnamed
      subst hnamed
      exact ⟨by decide, _, rfl⟩

/-- A Mod Root with one plugin, whose counter has a leading zero. -/
def leadingZeroDisk : Disk asciiVolume where
  entries := [(pathOf ["m"], .dir), (pathOf ["m", "Foo01.esp"], .leaf (.file [1] 1))]
  rooted := by decide
  named := by decide
  distinct := by decide
  closed := by decide

/-- A plugin that is no dummy, and makes removal fail: `Foo01.esp` is looked for as `Foo1.esp`. -/
theorem leadingZero_fails :
    ¬DummiesRemoved (fun _ => none) (.forProfile .sse none) dummylessPlan.rules.dummyPlugin (pathOf ["m"]) (pathOf ["m"])
      ⟨leadingZeroDisk, [], ⟨.start, .default, []⟩, 0, []⟩
      (maintainExistingLoadingPlugins allowing (.forProfile .sse none) dummylessPlan (pathOf ["m"])
        ⟨leadingZeroDisk, [], ⟨.start, .default, []⟩, 0, []⟩) := by
  intro h
  have hdone := h.done
  revert hdone
  decide +kernel

end Cao.Finalize
