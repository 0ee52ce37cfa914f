import Cao.Capacity.Check

/-!
# What a Capacity Check decides

A check groups roots by volume without knowing every volume, and adds with saturation. Its answer is that of the
exact sums, over every grouping the unknown volumes allow.

* `placed`: the estimated bytes on one volume, exactly; **`placed_demandOf`**: a demand saturates nothing else;
* `identityOf`, `Looked`: the identity a check uses of each root, whatever it looked up before;
* `requiredOf`, **`requiredAt_run`**: what a root is checked against, as a function of the identities;
* **`capacityCheck_exact`**: what fits fits under every completion, a shortage is a real one, and identities stay.
-/

namespace Cao.Capacity

open Evidence

variable {κ : Type} [DecidableEq κ] {label : Path → κ} {place : κ} {probe : VolumeProbe} {root : Path}
variable {volumes volumes' volumes'' : FrozenVolumes} {mode : ExecutionMode} {estimates : List (Path × Nat)}

/-! ## Sums -/

/-- `u64::MAX`. -/
def mostBytes : Nat := 2 ^ 64 - 1

/-- The bytes at the roots labelled with a place. -/
def placed (label : Path → κ) (place : κ) : List (Path × Nat) → Nat
  | [] => 0
  | (root, bytes) :: estimates => (if label root = place then bytes else 0) + placed label place estimates

theorem saturatingAdd_eq (a b : Nat) : saturatingAdd a b = min (a + b) mostBytes := rfl

theorem placed_append (first second : List (Path × Nat)) :
    placed label place (first ++ second) = placed label place first + placed label place second := by
  induction first with
  | nil => simp [placed]
  | cons estimate first ih =>
    obtain ⟨root, bytes⟩ := estimate
    simp only [List.cons_append, placed, ih]
    omega

/-- Adding to a root's demand saturates its entry only. -/
theorem placed_addTo (root : Path) (bytes : Nat) (roots : List (Path × Nat)) :
    min (placed label place (Demand.addTo root bytes roots)) mostBytes =
      min (placed label place roots + if label root = place then bytes else 0) mostBytes := by
  induction roots with
  | nil => simp [Demand.addTo, placed]
  | cons entry roots ih =>
    obtain ⟨added, demand⟩ := entry
    unfold Demand.addTo
    by_cases hroot : added = root
    · subst hroot
      rw [if_pos rfl]
      simp only [placed, saturatingAdd_eq]
      generalize mostBytes = most
      split_ifs <;> omega
    · rw [if_neg hroot]
      simp only [placed]
      generalize mostBytes = most at ih ⊢
      omega

theorem roots_demandOf_append (estimates : List (Path × Nat)) (estimate : Path × Nat) :
    (demandOf (estimates ++ [estimate])).roots = Demand.addTo estimate.1 estimate.2 (demandOf estimates).roots := by
  simp [demandOf, List.foldl_append, Demand.add]

/-- **What a demand places anywhere** is what was estimated there, up to saturation. -/
theorem placed_demandOf (label : Path → κ) (place : κ) (estimates : List (Path × Nat)) :
    min (placed label place (demandOf estimates).roots) mostBytes = min (placed label place estimates) mostBytes := by
  induction estimates using List.reverseRecOn with
  | nil => rfl
  | append_singleton estimates estimate ih =>
    rw [roots_demandOf_append, placed_addTo, placed_append]
    simp only [placed]
    generalize mostBytes = most at ih ⊢
    omega

/-- **The total does not wrap.** -/
theorem total_demandOf (estimates : List (Path × Nat)) :
    (demandOf estimates).total = min (placed (fun _ => ()) () estimates) mostBytes := by
  induction estimates using List.reverseRecOn with
  | nil => rfl
  | append_singleton estimates estimate ih =>
    obtain ⟨root, bytes⟩ := estimate
    have hadd : (demandOf (estimates ++ [(root, bytes)])).total = saturatingAdd (demandOf estimates).total bytes := by
      simp [demandOf, List.foldl_append, Demand.add]
    rw [hadd, ih, placed_append, saturatingAdd_eq]
    simp only [placed, if_true]
    generalize mostBytes = most
    omega

/-- One place gets no more than all of them. -/
theorem placed_le (label : Path → κ) (place : κ) (estimates : List (Path × Nat)) :
    placed label place estimates ≤ placed (fun _ => ()) () estimates := by
  induction estimates with
  | nil => exact le_refl _
  | cons estimate estimates ih =>
    simp only [placed, if_true]
    split_ifs <;> omega

theorem placed_eq_zero : placed label place estimates = 0 ↔ ∀ e ∈ estimates, label e.1 = place → e.2 = 0 := by
  induction estimates with
  | nil => simp [placed]
  | cons estimate estimates ih =>
    simp only [placed, Nat.add_eq_zero_iff, ih, List.forall_mem_cons]
    by_cases h : label estimate.1 = place <;> simp [h]

/-- Two labels that agree on where bytes go place as many. -/
theorem placed_congr {κ' : Type} [DecidableEq κ'] {label' : Path → κ'} {place' : κ'}
    (h : ∀ e ∈ estimates, e.2 ≠ 0 → (label e.1 = place ↔ label' e.1 = place')) :
    placed label place estimates = placed label' place' estimates := by
  induction estimates with
  | nil => rfl
  | cons estimate estimates ih =>
    obtain ⟨hhead, htail⟩ := List.forall_mem_cons.mp h
    simp only [placed, ih htail, Nat.add_right_cancel_iff]
    by_cases hzero : estimate.2 = 0
    · simp [hzero]
    · simp [hhead hzero]

theorem placed_demanded (demand : Demand) : placed label place (demanded demand) = placed label place demand.roots := by
  unfold demanded
  induction demand.roots with
  | nil => rfl
  | cons entry roots ih =>
    by_cases hzero : entry.2 = 0
    · simpa [placed, hzero] using ih
    · simpa [placed, hzero] using ih

theorem mem_demanded {demand : Demand} {e : Path × Nat} :
    e ∈ demanded demand ↔ e ∈ demand.roots ∧ e.2 ≠ 0 := by
  simp [demanded]

/-- **A root is demanded** exactly if some bytes were estimated there. -/
theorem demanded_demandOf (root : Path) :
    (∃ bytes, (root, bytes) ∈ demanded (demandOf estimates)) ↔ ∃ bytes, (root, bytes) ∈ estimates ∧ bytes ≠ 0 := by
  have hsum := placed_demandOf id root estimates
  have hzero : placed id root (demandOf estimates).roots = 0 ↔ placed id root estimates = 0 := by
    have hmost : 0 < mostBytes := by decide
    generalize mostBytes = most at hsum hmost
    omega
  rw [← not_iff_not]
  rw [placed_eq_zero, placed_eq_zero] at hzero
  simp only [mem_demanded, not_exists, not_and, not_not]
  constructor
  · intro h bytes hmem
    exact hzero.mp (fun e he heq => h e.2 (by rw [← show id e.1 = root from heq]; exact he)) (root, bytes) hmem rfl
  · intro h bytes hmem
    exact hzero.mpr (fun e he heq => h e.2 (by rw [← show id e.1 = root from heq]; exact he)) (root, bytes) hmem rfl

theorem fst_addTo (root : Path) (bytes : Nat) (roots : List (Path × Nat)) :
    (Demand.addTo root bytes roots).map Prod.fst =
      if root ∈ roots.map Prod.fst then roots.map Prod.fst else roots.map Prod.fst ++ [root] := by
  induction roots with
  | nil => simp [Demand.addTo]
  | cons entry roots ih =>
    obtain ⟨added, demand⟩ := entry
    unfold Demand.addTo
    by_cases hroot : added = root
    · simp [hroot]
    · have hne : ¬ root = added := fun h => hroot h.symm
      simp only [hroot, if_false, List.map_cons, ih, List.mem_cons, hne, false_or]
      split_ifs <;> rfl

theorem addTo_le {bytes : Nat} {roots : List (Path × Nat)} (hbytes : bytes ≤ mostBytes)
    (h : ∀ e ∈ roots, e.2 ≤ mostBytes) : ∀ e ∈ Demand.addTo root bytes roots, e.2 ≤ mostBytes := by
  induction roots with
  | nil => simpa [Demand.addTo] using hbytes
  | cons entry roots ih =>
    obtain ⟨added, demand⟩ := entry
    obtain ⟨hhead, htail⟩ := List.forall_mem_cons.mp h
    unfold Demand.addTo
    by_cases hroot : added = root
    · rw [if_pos hroot]
      exact List.forall_mem_cons.mpr ⟨Nat.min_le_right _ _, htail⟩
    · rw [if_neg hroot]
      exact List.forall_mem_cons.mpr ⟨hhead, ih htail⟩

/-- A demand has one entry for each root. -/
theorem nodup_demandOf (estimates : List (Path × Nat)) : ((demandOf estimates).roots.map Prod.fst).Nodup := by
  induction estimates using List.reverseRecOn with
  | nil => exact List.nodup_nil
  | append_singleton estimates estimate ih =>
    rw [roots_demandOf_append, fst_addTo]
    split_ifs with hmem
    · exact ih
    · rw [List.nodup_append]
      refine ⟨ih, List.nodup_singleton _, ?_⟩
      rintro root hroot _ hlast rfl
      rw [List.mem_singleton.mp hlast] at hroot
      exact hmem hroot

theorem demandOf_le (h : ∀ e ∈ estimates, e.2 ≤ mostBytes) : ∀ e ∈ (demandOf estimates).roots, e.2 ≤ mostBytes := by
  induction estimates using List.reverseRecOn with
  | nil => exact List.forall_mem_nil _
  | append_singleton estimates estimate ih =>
    rw [roots_demandOf_append]
    rw [List.forall_mem_append] at h
    exact addTo_le (h.2 estimate List.mem_cons_self) (ih h.1)

/-- The entry of a root is all that is placed there. -/
theorem placed_of_mem {roots : List (Path × Nat)} (hnodup : (roots.map Prod.fst).Nodup) {e : Path × Nat}
    (he : e ∈ roots) : placed id e.1 roots = e.2 := by
  induction roots with
  | nil => cases he
  | cons entry roots ih =>
    rw [List.map_cons, List.nodup_cons] at hnodup
    simp only [placed, id_eq]
    obtain rfl | he := List.mem_cons.mp he
    · have hrest : placed id e.1 roots = 0 := by
        refine placed_eq_zero.mpr fun e' he' heq => absurd ?_ hnodup.1
        rw [← show e'.1 = e.1 from heq]
        exact List.mem_map_of_mem he'
      simp [hrest]
    · have hne : entry.1 ≠ e.1 := by
        intro heq
        rw [heq] at hnodup
        exact hnodup.1 (List.mem_map_of_mem he)
      simp [hne, ih hnodup.2 he]

/-- **No root's demand wraps.** -/
theorem entry_demandOf (h : ∀ e ∈ estimates, e.2 ≤ mostBytes) {e : Path × Nat} (he : e ∈ (demandOf estimates).roots) :
    e.2 = min (placed id e.1 estimates) mostBytes := by
  rw [← placed_demandOf, placed_of_mem (nodup_demandOf estimates) he, Nat.min_eq_left (demandOf_le h e he)]

/-! ## Identities -/

/-- The identity a check uses of a root: the frozen one, or what the probe answers now. -/
def identityOf (probe : VolumeProbe) (volumes : FrozenVolumes) (root : Path) : Option String :=
  (volumes root).getD (containedProbe (probe.volumeIdentity root))

/-- Some roots were looked up and frozen, and nothing else happened. -/
def Looked (probe : VolumeProbe) (volumes volumes' : FrozenVolumes) : Prop :=
  ∀ root, volumes' root = volumes root ∨
    volumes root = none ∧ volumes' root = some (containedProbe (probe.volumeIdentity root))

theorem Looked.refl (volumes : FrozenVolumes) : Looked probe volumes volumes := fun _ => .inl rfl

theorem Looked.trans (h : Looked probe volumes volumes') (h' : Looked probe volumes' volumes'') :
    Looked probe volumes volumes'' := by
  intro root
  obtain heq | ⟨hnone, hsome⟩ := h' root
  · rw [heq]
    exact h root
  · obtain heq | ⟨-, hfrozen⟩ := h root
    · exact .inr ⟨heq ▸ hnone, hsome⟩
    · rw [hfrozen] at hnone
      cases hnone

/-- **An identity once frozen stays.** -/
theorem Looked.frozen (h : Looked probe volumes volumes') {identity : Option String}
    (hfrozen : volumes root = some identity) : volumes' root = some identity := by
  obtain heq | ⟨hnone, -⟩ := h root
  · rw [heq, hfrozen]
  · rw [hfrozen] at hnone
    cases hnone

/-- Looking up changes no identity a check uses. -/
theorem Looked.identityOf (h : Looked probe volumes volumes') : identityOf probe volumes' = identityOf probe volumes := by
  funext root
  unfold Capacity.identityOf
  obtain heq | ⟨hnone, hsome⟩ := h root
  · rw [heq]
  · rw [hnone, hsome]
    rfl

/-- A part of a check: its value is a function of the identities, and it only looks roots up. -/
def Looks {α : Type} (probe : VolumeProbe) (x : StateM FrozenVolumes α) (f : (Path → Option String) → α) : Prop :=
  ∀ volumes, (x volumes).1 = f (identityOf probe volumes) ∧ Looked probe volumes (x volumes).2

section Looks

variable {α β : Type} {x : StateM FrozenVolumes α} {f : (Path → Option String) → α}

theorem looks_pure (a : α) : Looks probe (pure a) fun _ => a := fun volumes => ⟨rfl, .refl volumes⟩

theorem Looks.bind {k : α → StateM FrozenVolumes β} {g : α → (Path → Option String) → β} (hx : Looks probe x f)
    (hk : ∀ a, Looks probe (k a) (g a)) : Looks probe (x >>= k) fun identities => g (f identities) identities := by
  intro volumes
  obtain ⟨hvalue, hlooked⟩ := hx volumes
  obtain ⟨hvalue', hlooked'⟩ := hk (x volumes).1 (x volumes).2
  refine ⟨?_, hlooked.trans hlooked'⟩
  show (k (x volumes).1 (x volumes).2).1 = _
  rw [hvalue', hlooked.identityOf, hvalue]

theorem Looks.congr {g : (Path → Option String) → α} (hx : Looks probe x f) (h : f = g) : Looks probe x g := h ▸ hx

theorem looks_volumeIdentity (root : Path) : Looks probe (volumeIdentity probe root) fun identities => identities root := by
  intro volumes
  cases hroot : volumes root with
  | some volume =>
    have hrun : volumeIdentity probe root volumes = (volume, volumes) := by simp [volumeIdentity, hroot]
    rw [hrun]
    exact ⟨by simp [identityOf, hroot], .refl volumes⟩
  | none =>
    have hrun : volumeIdentity probe root volumes = (containedProbe (probe.volumeIdentity root),
        volumes.orInsert root (containedProbe (probe.volumeIdentity root))) := by simp [volumeIdentity, hroot]
    rw [hrun]
    refine ⟨by simp [identityOf, hroot], fun other => ?_⟩
    by_cases hother : other = root
    · subst hother
      exact .inr ⟨hroot, by simp [FrozenVolumes.orInsert, hroot]⟩
    · exact .inl (if_neg hother)

end Looks

/-! ## What a root is checked against -/

/-- The sum of `sum_on_volume`, of roots whose volumes are known. -/
def sumOf (identities : Path → Option String) (volume : String) (required : Nat) (roots : List (Path × Nat)) :
    Option Nat :=
  if ∀ e ∈ roots, identities e.1 ≠ none then some (min (required + placed identities (some volume) roots) mostBytes)
  else none

theorem sumOf_cons (identities : Path → Option String) (volume : String) (required : Nat) (entry : Path × Nat)
    (roots : List (Path × Nat)) : sumOf identities volume required (entry :: roots) =
      (identities entry.1).bind fun other =>
        sumOf identities volume (if other = volume then saturatingAdd required entry.2 else required) roots := by
  cases hother : identities entry.1 with
  | none => exact if_neg fun h => h entry List.mem_cons_self hother
  | some other =>
    have hknown : (∀ e ∈ entry :: roots, identities e.1 ≠ none) ↔ ∀ e ∈ roots, identities e.1 ≠ none := by
      rw [List.forall_mem_cons, hother]
      exact and_iff_right (Option.some_ne_none other)
    have hsum : min (required + placed identities (some volume) (entry :: roots)) mostBytes =
        min ((if other = volume then saturatingAdd required entry.2 else required) +
          placed identities (some volume) roots) mostBytes := by
      simp only [placed, hother, Option.some.injEq, saturatingAdd_eq]
      generalize mostBytes = most
      split_ifs <;> omega
    unfold sumOf
    simp only [hknown, hsum, Option.bind_some]

theorem looks_sumOnVolume (volume : String) (roots : List (Path × Nat)) {required : Nat} (hle : required ≤ mostBytes) :
    Looks probe (sumOnVolume probe volume required roots) fun identities => sumOf identities volume required roots := by
  induction roots generalizing required with
  | nil =>
    refine (looks_pure _).congr ?_
    funext identities
    simp [sumOf, placed, Nat.min_eq_left hle]
  | cons entry roots ih =>
    unfold sumOnVolume
    refine Looks.congr ((looks_volumeIdentity entry.1).bind (g := fun found identities => found.bind fun other =>
      sumOf identities volume (if other = volume then saturatingAdd required entry.2 else required) roots) ?_) ?_
    · rintro (_ | other)
      · exact looks_pure none
      · by_cases hsame : other = volume
        · simp only [hsame, if_true, Option.bind_some]
          exact ih (Nat.min_le_right _ _)
        · simp only [hsame, if_false, Option.bind_some]
          exact ih hle
    · funext identities
      rw [sumOf_cons]

/-- Whether no other root is demanded. -/
def alone (demand : Demand) (root : Path) : Bool := demand.roots.all fun (other, bytes) => bytes = 0 || other = root

/-- What `required_at` gives, as a function of the identities. -/
def requiredOf (identities : Path → Option String) (demand : Demand) (root : Path) : Nat :=
  if alone demand root then demand.total
  else ((identities root).bind fun volume => sumOf identities volume 0 (demanded demand)).getD demand.total

theorem looks_requiredAt (demand : Demand) (root : Path) :
    Looks probe (requiredAt probe demand root) fun identities => requiredOf identities demand root := by
  unfold requiredAt requiredOf
  change Looks probe (if alone demand root = true then _ else _) _
  split_ifs with halone
  · exact looks_pure demand.total
  · refine (looks_volumeIdentity root).bind (g := fun found identities =>
      (found.bind fun volume => sumOf identities volume 0 (demanded demand)).getD demand.total) ?_
    rintro (_ | volume)
    · exact looks_pure demand.total
    · exact (looks_sumOnVolume volume (demanded demand) (Nat.zero_le _)).bind fun sum => looks_pure (sum.getD demand.total)

/-- What `shortage_at` gives. -/
def shortageOf (probe : VolumeProbe) (identities : Path → Option String) (demand : Demand) (root : Path) :
    Option CapacityShortage :=
  (availableBytes probe root).bind fun available =>
    if available < requiredOf identities demand root then some ⟨root, requiredOf identities demand root, available⟩
    else none

theorem looks_shortageAt (demand : Demand) (root : Path) :
    Looks probe (shortageAt probe demand root) fun identities => shortageOf probe identities demand root := by
  unfold shortageAt shortageOf
  refine (looks_requiredAt demand root).bind (g := fun required _ => (availableBytes probe root).bind fun available =>
    if available < required then some (CapacityShortage.mk root required available) else none) fun required => ?_
  cases availableBytes probe root with
  | none => exact looks_pure none
  | some available => exact looks_pure (if available < required then some (CapacityShortage.mk root required available) else none)

theorem looks_findShortage (demand : Demand) (roots : List (Path × Nat)) :
    Looks probe (findShortage probe demand roots) fun identities =>
      roots.findSome? fun entry => shortageOf probe identities demand entry.1 := by
  induction roots with
  | nil => exact looks_pure none
  | cons entry roots ih =>
    unfold findShortage
    refine Looks.congr ((looks_shortageAt demand entry.1).bind (g := fun found identities =>
      found.or (roots.findSome? fun entry => shortageOf probe identities demand entry.1)) ?_) ?_
    · rintro (_ | shortage)
      · simpa using ih
      · exact looks_pure (some shortage)
    · funext identities
      rw [List.findSome?_cons]
      cases shortageOf probe identities demand entry.1 <;> rfl

/-! ## Verdicts -/

/-- What `verdict` gives. -/
def verdictOf (identities : Path → Option String) (mode : ExecutionMode) (stage : CapacityStage) :
    Option CapacityShortage → CapacityVerdict
  | none => .fits
  | some shortage =>
    match stage, mode with
    | .beforeExtraction, .apply => .failRun (insufficientCapacity shortage)
    | .beforeExtraction, .dryRun => .warn (shortageWarning shortage .discoveringArchives (identities shortage.root))
    | .beforeCreation, .dryRun => .warn (shortageWarning shortage .archiveFinalization (identities shortage.root))
    | .beforeCreation, .apply => .failWork shortage
    | .recheck, _ => .failWork shortage

theorem looks_verdict (stage : CapacityStage) (shortage : Option CapacityShortage) :
    Looks probe (verdict probe mode stage shortage) fun identities => verdictOf identities mode stage shortage := by
  cases shortage with
  | none => exact looks_pure CapacityVerdict.fits
  | some shortage =>
    have hwarn : ∀ phase, Looks probe (do return CapacityVerdict.warn (← warning probe phase shortage)) fun identities =>
        CapacityVerdict.warn (shortageWarning shortage phase (identities shortage.root)) := fun phase =>
      ((looks_volumeIdentity shortage.root).bind fun volume =>
        looks_pure (shortageWarning shortage phase volume)).bind fun warning => looks_pure (CapacityVerdict.warn warning)
    cases stage <;> cases mode
    · exact looks_pure _
    · exact hwarn .discoveringArchives
    · exact looks_pure _
    · exact hwarn .archiveFinalization
    · exact looks_pure _
    · exact looks_pure _

theorem verdictOf_eq_fits {identities : Path → Option String} {stage : CapacityStage}
    {shortage : Option CapacityShortage} : verdictOf identities mode stage shortage = .fits ↔ shortage = none := by
  cases shortage with
  | none => simp [verdictOf]
  | some shortage => cases stage <;> cases mode <;> simp [verdictOf]

/-- The shortage a check finds. -/
def foundBy (probe : VolumeProbe) (identities : Path → Option String) : Query → Option CapacityShortage
  | .check _ estimates => (demanded (demandOf estimates)).findSome? fun entry =>
    shortageOf probe identities (demandOf estimates) entry.1
  | .checkAt _ estimates root => shortageOf probe identities (demandOf estimates) root

/-- **A check** is a function of the identities it uses and of the free space it samples. -/
theorem looks_ask (query : Query) : Looks probe (ask probe mode query) fun identities =>
    verdictOf identities mode query.stage (foundBy probe identities query) := by
  cases query with
  | check stage estimates =>
    exact (looks_findShortage (demandOf estimates) (demanded (demandOf estimates))).bind fun shortage =>
      looks_verdict stage shortage
  | checkAt stage estimates root =>
    exact (looks_shortageAt (demandOf estimates) root).bind fun shortage => looks_verdict stage shortage

theorem foundBy_eq_none {identities : Path → Option String} {query : Query} :
    foundBy probe identities query = none ↔
      ∀ root, query.Tests root → shortageOf probe identities (demandOf query.estimates) root = none := by
  cases query with
  | check stage estimates =>
    simp only [foundBy, List.findSome?_eq_none_iff, Query.Tests, Query.estimates]
    constructor
    · intro h root htests
      obtain ⟨bytes, hmem⟩ := (demanded_demandOf root).mpr htests
      exact h (root, bytes) hmem
    · intro h entry hmem
      exact h entry.1 ((demanded_demandOf entry.1).mp ⟨entry.2, hmem⟩)
  | checkAt stage estimates root => simp [foundBy, Query.Tests, Query.estimates]

/-- **Identities once frozen stay** through any later checks. -/
theorem frozen_afterChecks {identity : Option String} (hfrozen : volumes root = some identity)
    (checks : List (VolumeProbe × Query)) : afterChecks mode volumes checks root = some identity := by
  unfold afterChecks
  induction checks generalizing volumes with
  | nil => exact hfrozen
  | cons asked checks ih => exact ih ((looks_ask asked.2 volumes).2.frozen hfrozen)

/-! ## Exactness -/

/-- **A recheck** fails only the work it guards. -/
theorem recheckAt_ok (demand : Demand) (root : Path) :
    (recheckAt probe mode demand root volumes).1 = .ok (shortageOf probe (identityOf probe volumes) demand root) := by
  have hlooks : Looks probe (recheckAt probe mode demand root) fun identities =>
      Except.ok (shortageOf probe identities demand root) := by
    refine (((looks_shortageAt demand root).bind fun shortage => looks_verdict .recheck shortage).bind
      fun verdict => looks_pure (failsWork verdict)).congr ?_
    funext identities
    cases shortageOf probe identities demand root <;> rfl
  exact (hlooks volumes).1

/-- A grouping of roots by volume that the known identities allow. -/
def Completes (identities : Path → Option String) (completion : Path → String) : Prop :=
  ∀ root identity, identities root = some identity → completion root = identity

section Exact

variable {identities : Path → Option String} {completion : Path → String}

theorem alone_iff {demand : Demand} : alone demand root = true ↔ ∀ e ∈ demand.roots, e.2 = 0 ∨ e.1 = root := by
  simp [alone]

/-- All is placed where a root is that is alone. -/
theorem placed_of_alone {label : Path → κ} (halone : alone (demandOf estimates) root = true) :
    min (placed label (label root) estimates) mostBytes = (demandOf estimates).total := by
  rw [total_demandOf, ← placed_demandOf, ← placed_demandOf (fun _ => ())]
  refine congrArg (min · mostBytes) (placed_congr fun e he hne => ?_)
  rw [((alone_iff.mp halone) e he).resolve_left hne]
  simp

/-- **No completion places more on a root's volume** than the root is checked against. -/
theorem le_requiredOf (hcompletes : Completes identities completion) (root : Path) :
    min (placed completion (completion root) estimates) mostBytes ≤ requiredOf identities (demandOf estimates) root := by
  have htotal : min (placed completion (completion root) estimates) mostBytes ≤ (demandOf estimates).total := by
    rw [total_demandOf]
    have hle := placed_le completion (completion root) estimates
    generalize mostBytes = most
    omega
  unfold requiredOf
  split_ifs with halone
  · exact htotal
  · cases hroot : identities root with
    | none => exact htotal
    | some volume =>
      simp only [Option.bind_some, sumOf]
      split_ifs with hknown
      · rw [Option.getD_some, Nat.zero_add, ← placed_demandOf, ← placed_demanded]
        refine le_of_eq (congrArg (min · mostBytes) (placed_congr fun e he _ => ?_))
        obtain ⟨identity, hidentity⟩ := Option.ne_none_iff_exists'.mp (hknown e he)
        rw [hcompletes root volume hroot, hcompletes e.1 identity hidentity, hidentity, Option.some.injEq]
      · exact htotal

/-- **With every volume known**, a root is checked against exactly what shares its volume. -/
theorem requiredOf_of_known (hroot : identities root ≠ none)
    (hknown : ∀ root, (∃ bytes, (root, bytes) ∈ estimates ∧ bytes ≠ 0) → identities root ≠ none) :
    requiredOf identities (demandOf estimates) root = min (placed identities (identities root) estimates) mostBytes := by
  unfold requiredOf
  split_ifs with halone
  · exact (placed_of_alone halone).symm
  · obtain ⟨volume, hvolume⟩ := Option.ne_none_iff_exists'.mp hroot
    have hall : ∀ e ∈ demanded (demandOf estimates), identities e.1 ≠ none := fun e he =>
      hknown e.1 ((demanded_demandOf e.1).mp ⟨e.2, he⟩)
    rw [hvolume, Option.bind_some, sumOf, if_pos hall, Option.getD_some, Nat.zero_add, placed_demanded, placed_demandOf]

/-- What a root is checked against does not wrap. -/
theorem requiredOf_eq (identities : Path → Option String) (root : Path) :
    requiredOf identities (demandOf estimates) root = min (placed (fun _ => ()) () estimates) mostBytes ∨
      requiredOf identities (demandOf estimates) root = min (placed identities (identities root) estimates) mostBytes := by
  unfold requiredOf
  split_ifs with halone
  · exact .inl (total_demandOf estimates)
  · cases hroot : identities root with
    | none => exact .inl (total_demandOf estimates)
    | some volume =>
      simp only [Option.bind_some, sumOf]
      split_ifs with hknown
      · rw [Option.getD_some, Nat.zero_add, placed_demanded, placed_demandOf]
        exact .inr rfl
      · exact .inl (total_demandOf estimates)

theorem shortageOf_eq_none {demand : Demand} : shortageOf probe identities demand root = none ↔
    ∀ available, availableBytes probe root = some available → requiredOf identities demand root ≤ available := by
  unfold shortageOf
  cases availableBytes probe root with
  | none => simp
  | some available => simp

/-- What a check decides, of a run that has frozen some volumes. -/
structure Exact (mode : ExecutionMode) (volumes : FrozenVolumes) (probe : VolumeProbe) (query : Query) : Prop where
  /-- What fits fits on every volume, whichever the unknown volumes are. -/
  fits : (ask probe mode query volumes).1 = .fits →
    ∀ completion, Completes (identityOf probe volumes) completion →
      ∀ root, query.Tests root → ∀ available, availableBytes probe root = some available → available < mostBytes →
        placed completion (completion root) query.estimates ≤ available
  /-- With every volume and every sample known, there is a shortage exactly if a volume is short. -/
  short : (∀ root, query.Tests root ∨ (∃ bytes, (root, bytes) ∈ query.estimates ∧ bytes ≠ 0) →
      identityOf probe volumes root ≠ none) →
    (∀ root, query.Tests root → ∃ available, availableBytes probe root = some available ∧ available < mostBytes) →
    ((ask probe mode query volumes).1 ≠ .fits ↔
      ∃ root, query.Tests root ∧ ∃ available, availableBytes probe root = some available ∧
        available < placed (identityOf probe volumes) (identityOf probe volumes root) query.estimates)
  /-- The demand of the whole run saturates. -/
  total : (demandOf query.estimates).total = min (placed (fun _ => ()) () query.estimates) mostBytes
  /-- So does the demand of each root. -/
  entry : ∀ e ∈ (demandOf query.estimates).roots, e.2 = min (placed id e.1 query.estimates) mostBytes
  /-- So does what a root is checked against: all bytes, or those on its volume. -/
  required : ∀ root, (requiredAt probe (demandOf query.estimates) root volumes).1 =
      min (placed (fun _ => ()) () query.estimates) mostBytes ∨
    (requiredAt probe (demandOf query.estimates) root volumes).1 =
      min (placed (identityOf probe volumes) (identityOf probe volumes root) query.estimates) mostBytes
  /-- The identity any later check uses of a root is the first recorded. -/
  frozen : ∀ root identity, (ask probe mode query volumes).2 root = some identity → ∀ later probe',
    identityOf probe' (afterChecks mode (ask probe mode query volumes).2 later) root = identity
  /-- What the probe would answer of a recorded root makes no difference. -/
  uses : ∀ probe', (∀ root, availableBytes probe' root = availableBytes probe root) →
    (∀ root, volumes root = none →
      containedProbe (probe'.volumeIdentity root) = containedProbe (probe.volumeIdentity root)) →
    (ask probe' mode query volumes).1 = (ask probe mode query volumes).1

theorem ask_eq_fits {query : Query} : (ask probe mode query volumes).1 = .fits ↔
    ∀ root, query.Tests root → ∀ available, availableBytes probe root = some available →
      requiredOf (identityOf probe volumes) (demandOf query.estimates) root ≤ available := by
  rw [((looks_ask query) volumes).1, verdictOf_eq_fits, foundBy_eq_none]
  exact forall_congr' fun root => forall_congr' fun _ => shortageOf_eq_none

theorem le_of_min_le {a most available : Nat} (h : min a most ≤ available) (hlt : available < most) : a ≤ available := by
  omega

theorem shortageOf_congr {probe' : VolumeProbe}
    (h : ∀ root, availableBytes probe' root = availableBytes probe root) : shortageOf probe' = shortageOf probe := by
  funext identities demand root
  unfold shortageOf
  rw [h]

/-- **The Capacity Check is exact and conservative**, after any checks of the run. -/
theorem capacityCheck_exact (mode : ExecutionMode) (checks : List (VolumeProbe × Query)) (probe : VolumeProbe)
    (query : Query) (hbytes : ∀ e ∈ query.estimates, e.2 ≤ mostBytes) :
    Exact mode (afterChecks mode .default checks) probe query := by
  generalize afterChecks mode .default checks = volumes
  constructor
  · intro hfits completion hcompletes root htests available havailable hlt
    have hrequired := ask_eq_fits.mp hfits root htests available havailable
    exact le_of_min_le ((le_requiredOf hcompletes root).trans hrequired) hlt
  · intro hknown hsampled
    rw [Ne, ask_eq_fits]
    have hrequired : ∀ root, query.Tests root → requiredOf (identityOf probe volumes) (demandOf query.estimates) root =
        min (placed (identityOf probe volumes) (identityOf probe volumes root) query.estimates) mostBytes :=
      fun root htests => requiredOf_of_known (hknown root (.inl htests)) fun other h => hknown other (.inr h)
    constructor
    · intro hshort
      push Not at hshort
      obtain ⟨root, htests, available, havailable, hlt⟩ := hshort
      rw [hrequired root htests] at hlt
      exact ⟨root, htests, available, havailable, hlt.trans_le (Nat.min_le_left _ _)⟩
    · rintro ⟨root, htests, available, havailable, hlt⟩ hfits
      obtain ⟨sampled, hsample, hmost⟩ := hsampled root htests
      rw [havailable, Option.some.injEq] at hsample
      subst hsample
      have hle := hfits root htests available havailable
      rw [hrequired root htests] at hle
      exact absurd (le_of_min_le hle hmost) hlt.not_ge
  · exact total_demandOf query.estimates
  · exact fun e he => entry_demandOf hbytes he
  · intro root
    rw [((looks_requiredAt (demandOf query.estimates) root) volumes).1]
    exact requiredOf_eq (identityOf probe volumes) root
  · intro root identity hfrozen later probe'
    rw [identityOf, frozen_afterChecks hfrozen later]
    rfl
  · intro probe' havailable hunrecorded
    have hidentity : identityOf probe' volumes = identityOf probe volumes := by
      funext root
      unfold identityOf
      cases hroot : volumes root with
      | some identity => rfl
      | none => exact hunrecorded root hroot
    rw [((looks_ask query) volumes).1, ((looks_ask query) volumes).1, hidentity]
    cases query <;> simp only [foundBy, shortageOf_congr havailable]

/-- One mod on a known volume, one on an unknown one: a demand that needs both is checked against all of it. -/
def sampleProbe : VolumeProbe where
  availableBytes := fun _ => .answered (some 100)
  volumeIdentity := fun root => if root = [OsStr.ofText "Archives".toList] then .answered (some "C:") else .panicked

def sampleQuery : Query :=
  .check .beforeCreation [([OsStr.ofText "Archives".toList], 60), ([OsStr.ofText "Textures".toList], 40)]

theorem capacityCheck_exact_sample : placed (fun _ => "C:") "C:" sampleQuery.estimates ≤ 100 :=
  (capacityCheck_exact .apply [] sampleProbe sampleQuery (by decide)).fits (by decide +kernel) (fun _ => "C:")
    (by
      intro root identity hidentity
      unfold identityOf FrozenVolumes.default sampleProbe at hidentity
      simp only at hidentity
      split_ifs at hidentity
      · exact Option.some.inj hidentity
      · cases hidentity)
    [OsStr.ofText "Archives".toList] ⟨60, by decide⟩ 100 rfl (by decide)

end Exact

end Cao.Capacity
