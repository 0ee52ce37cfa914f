import Cao.Staging.Operations

/-!
# The manifest round trip

* `Machine.start`: a scope that has touched nothing, on any tree;
* **`manifest_round_trip`**: whatever the run registered, the reader reads back, and the writer refuses
  what the reader's limits would.
-/

namespace Cao

variable {K : Type} [DecidableEq K] {V : Volume K}

/-- A new scope of a run over a tree, with the fates of the steps to come. -/
def Machine.start (disk : Disk V) (tape : List Fate) (runId : Text) : Machine V where
  disk := disk
  tape := tape
  scope := ⟨runId, none⟩
  durable := []
  cleaned := false
  made := []
  committed := []
  requests := []

omit [DecidableEq K] in
theorem ledger_start {strict : Prop} {root runId : Text} {disk : Disk V} {tape : List Fate} :
    Ledger strict root runId [] (Machine.start disk tape runId) where
  run := rfl
  requests := nofun
  made := nofun
  committed := nofun
  durable := nofun
  listed := nofun
  covered := nofun
  unclaimed := fun _ => ⟨rfl, rfl⟩
  safe := .inl ⟨nofun, rfl, rfl⟩

/-- The state a run of operations leaves, however it ended. -/
def after (root runId : Text) (disk : Disk V) (tape : List Fate) (operations : List Operation) : Machine V :=
  (run root operations (Machine.start disk tape runId)).2

/-- **The ledger of a whole run.** -/
theorem ledger_after {strict : Prop} (root runId : Text) (disk : Disk V) (tape : List Fate)
    (operations : List Operation) (hfresh : strict → (noncesOf operations).Nodup)
    (hordinary : strict → ∀ operation ∈ operations, operation.Ordinary V) :
    Ledger strict root runId (noncesOf operations) (after root runId disk tape operations) := by
  have hstart : Ledger strict root runId [] (Machine.start disk tape runId) := ledger_start
  have hrun := ledger_run operations hstart hfresh hordinary
  unfold Prog.Spec at hrun
  unfold after
  split at hrun <;> rename_i he <;> rw [he]
  · exact hrun
  · exact hrun.elim
  · exact hrun

/-- A list a scope holds or has asked `publish_manifest` to publish, with its run child. -/
def Registers (w : Machine V) (child : Text) (l : List Artifact) : Prop :=
  (child, l) ∈ w.requests ∨
    ∃ area, w.scope.area = some area ∧ child ≠ [] ∧ area.child = child ∧ area.artifacts = l

/-- **Manifest round trip.** In any scope a run reaches with fresh nonces and ordinary names, the reader
reads back exactly the list the writer accepted, in order, and the writer refuses exactly the lists the
reader's limits refuse. -/
theorem manifest_round_trip (root runId : Text) (disk : Disk V) (tape : List Fate)
    (operations : List Operation) (hfresh : (noncesOf operations).Nodup)
    (hordinary : ∀ operation ∈ operations, operation.Ordinary V) (child : Text) (l : List Artifact)
    (h : Registers (after root runId disk tape operations) child l) :
    (∀ bytes, publishedBytes root runId child l = some bytes →
      parseManifest bytes root (fun _ => false) = .ok ⟨3, l⟩) ∧
    (publishedBytes root runId child l = none ↔
      LimitRefused root (manifestBytes root runId child l)) := by
  have hledger : Ledger True root runId (noncesOf operations) (after root runId disk tape operations) :=
    ledger_after root runId disk tape operations (fun _ => hfresh) fun _ => hordinary
  have hlist : RunList True runId child (noncesOf operations) l := by
    rcases h with hrequest | ⟨area, harea, hne, rfl, rfl⟩
    · exact hledger.requests _ hrequest
    · exact (hledger.listed area harea).resolve_left fun he => hne he.1
  have hformed := hlist.wellFormed
  exact ⟨fun bytes hb => (published_some hformed hb).2.2, published_none_iff hformed⟩

/-! ## An example volume -/

/-- ASCII case folding of one code point. -/
def foldAscii : CodePoint → CodePoint
  | .char c => .char c.toLower
  | .lone surrogate => .lone surrogate

/-- A volume that compares names by ASCII case folding. -/
def asciiVolume : Volume OsStr where
  fold := List.map foldAscii
  valid name := name ≠ [] && name.all fun c => c ≠ .char '/' && c ≠ .char '\\'
  staging a b h := by
    have hlossy : ∀ name : OsStr, OsStr.lossy (name.map foldAscii) = name.lossy.map Char.toLower := by
      intro name
      simp only [OsStr.lossy, List.map_map]
      refine List.map_congr_left fun c _ => ?_
      cases c with
      | char c => rfl
      | lone surrogate => exact (by decide : '\uFFFD' = Char.toLower '\uFFFD')
    unfold isStagingName
    rw [← hlossy, ← hlossy, h]
  length a b h := by
    have := congrArg List.length h
    simpa using this
  component name h := by
    simp only [Bool.and_eq_true, decide_eq_true_eq, List.all_eq_true] at h
    exact ⟨h.1, fun hm => (h.2 _ hm).1 rfl, fun hm => (h.2 _ hm).2 rfl⟩

/-- A nonce of one byte repeated. -/
def sampleNonce (byte : UInt8) : Nonce := ⟨List.replicate 16 byte, List.length_replicate⟩

/-- A root of one directory. -/
def sampleDisk : Disk asciiVolume where
  entries := [([OsStr.ofText "a".toList], .dir)]
  rooted := by decide
  named := by decide
  distinct := by decide
  closed := by decide

/-- The staging of one mesh in it. -/
def sampleOperations : List Operation :=
  [.stageForPublication (["a".toList, "x.NIF".toList].map OsStr.ofText) (sampleNonce 10) (sampleNonce 11)]

/-- The list it registers. -/
def sampleRegistered : List Artifact :=
  [⟨"run-r-".toList ++ nonceText (sampleNonce 10), true, false⟩,
   ⟨"a/".toList ++ siblingName "r".toList ".cao-staging-mesh-".toList ".nif".toList (sampleNonce 11),
    false, true⟩]

theorem sample_registers : Registers (after "C:/M".toList "r".toList sampleDisk [] sampleOperations)
    ("run-r-".toList ++ nonceText (sampleNonce 10)) sampleRegistered := by
  left
  decide +kernel

theorem manifest_round_trip_sample :
    (∀ bytes, publishedBytes "C:/M".toList "r".toList ("run-r-".toList ++ nonceText (sampleNonce 10))
        sampleRegistered = some bytes →
      parseManifest bytes "C:/M".toList (fun _ => false) = .ok ⟨3, sampleRegistered⟩) ∧
    (publishedBytes "C:/M".toList "r".toList ("run-r-".toList ++ nonceText (sampleNonce 10))
        sampleRegistered = none ↔
      LimitRefused "C:/M".toList (manifestBytes "C:/M".toList "r".toList
        ("run-r-".toList ++ nonceText (sampleNonce 10)) sampleRegistered)) :=
  manifest_round_trip "C:/M".toList "r".toList sampleDisk [] sampleOperations (by decide)
    (by simp [sampleOperations, Operation.Ordinary]) _ _ sample_registers

end Cao
