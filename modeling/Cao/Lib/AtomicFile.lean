import Cao.Lib.Prog
import Mathlib.Data.Finset.Card
import Mathlib.Data.List.Induction
import Mathlib.Logic.Function.Basic

/-!
# Replacing files atomically

Files under keys, and the replacement of one of them: the new contents go to a fresh temporary file,
which is then renamed over the old one. The system may refuse each step, and the process may die at it.

* `Files`, `State`, `Fate`: the files, a process that works on them, what becomes of each of its steps;
* `read`, `isThere`, `createNew`, `writeAll`, `settle`, `rename`, `remove`: the steps;
* `createTemporary`, **`spec_createTemporary`**: a name that is free is found, however many are taken;
* `replace`, **`spec_replace`**: the file is replaced, or is what it was, or one of these where the process died;
* `Leaves`, `Held`, **`contents_of_log`**: what any number of changes leaves of each file.
-/

namespace AtomicFile

variable {K β ε α : Type}

/-! ## State -/

/-- Files under keys, with a list that names each of them. -/
structure Files (K β : Type) where
  contents : K → Option (List β)
  names : List K
  named : ∀ k, contents k ≠ none → k ∈ names

/-- What becomes of one step: it takes place, it is refused, or the process dies. Of a write, `written`
elements have then reached the file. -/
inductive Fate
  | ok
  | refused (written : Nat)
  | crash (written : Nat)
  deriving DecidableEq, Repr

/-- Why a step is refused. -/
inductive Refusal
  /-- Whatever the files do not decide. -/
  | fault
  | notFound
  | alreadyExists
  deriving DecidableEq, Repr

/-- The files, the fates of the steps to come, and the process: its number, and the count of the
temporary names it has asked for. -/
structure State (K β : Type) where
  files : Files K β
  fates : List Fate
  pid : Nat
  counter : Nat

/-- The names of temporary files: those of one process for one file all differ. -/
structure Temporaries (K : Type) where
  name : (target : K) → (pid counter : Nat) → K
  injective : ∀ target pid, Function.Injective (name target pid)

/-- A name that a temporary file may have. -/
def Temporaries.Has (T : Temporaries K) (k : K) : Prop := ∃ target pid counter, T.name target pid counter = k

theorem Files.named_empty (k : K) (h : (fun _ : K => (none : Option (List β))) k ≠ none) : k ∈ ([] : List K) := absurd rfl h

/-- No files. -/
def Files.empty : Files K β := ⟨fun _ => none, [], Files.named_empty⟩

variable [DecidableEq K]

theorem Files.named_set (files : Files K β) (k : K) (contents : Option (List β)) (j : K)
    (h : Function.update files.contents k contents j ≠ none) : j ∈ k :: files.names := by
  by_cases hj : j = k
  · exact List.mem_cons.mpr (.inl hj)
  · rw [Function.update_of_ne hj] at h
    exact List.mem_cons_of_mem _ (files.named j h)

/-- The files with other contents under one key, or with none. -/
def Files.set (files : Files K β) (k : K) (contents : Option (List β)) : Files K β :=
  ⟨Function.update files.contents k contents, k :: files.names, files.named_set k contents⟩

@[simp] theorem Files.contents_set (files : Files K β) (k : K) (contents : Option (List β)) :
    (files.set k contents).contents = Function.update files.contents k contents := rfl

/-! ## Steps -/

/-- One step on the files. -/
def step (act : Files K β → Except Refusal (α × Files K β)) : Prog (State K β) Refusal α := fun s =>
  let act := fun s : State K β => match act s.files with
    | .ok (a, files) => (.done a, { s with files })
    | .error e => (.fail e, s)
  match s.fates with
  | [] => act s
  | .ok :: fates => act { s with fates }
  | .refused _ :: fates => (.fail .fault, { s with fates })
  | .crash _ :: fates => (.crash, { s with fates })

/-- Read a file. -/
def read (k : K) : Prog (State K β) Refusal (List β) :=
  step fun files => match files.contents k with
    | some contents => .ok (contents, files)
    | none => .error .notFound

/-- Whether a file is there, as far as the system says. -/
def isThere (k : K) : Prog (State K β) ε Bool := do
  match ← Prog.attempt (step fun files => .ok ((files.contents k).isSome, files)) with
  | .ok found => return found
  | .error _ => return false

/-- Create a file that is not there. -/
def createNew (k : K) : Prog (State K β) Refusal Unit :=
  step fun files => match files.contents k with
    | some _ => .error .alreadyExists
    | none => .ok ((), files.set k (some []))

/-- Write a new file, wholly where nothing happens. -/
def writeAll (k : K) (contents : List β) : Prog (State K β) Refusal Unit := fun s =>
  let written := fun fates n => { s with fates, files := s.files.set k (some (contents.take n)) }
  match s.fates with
  | [] => (.done (), written [] contents.length)
  | .ok :: fates => (.done (), written fates contents.length)
  | .refused n :: fates => (.fail .fault, written fates n)
  | .crash n :: fates => (.crash, written fates n)

/-- A step that changes no file: a directory is made sure of, or what was written reaches the disk. -/
def settle : Prog (State K β) Refusal Unit := step fun files => .ok ((), files)

/-- Rename one file over another. -/
def rename (k target : K) : Prog (State K β) Refusal Unit :=
  step fun files => match files.contents k with
    | some contents => .ok ((), (files.set target (some contents)).set k none)
    | none => .error .notFound

/-- Remove a file. -/
def remove (k : K) : Prog (State K β) Refusal Unit :=
  step fun files => match files.contents k with
    | some _ => .ok ((), files.set k none)
    | none => .error .notFound

/-! ## Replacing a file -/

section

variable (T : Temporaries K) (target : K)

omit [DecidableEq K] in
/-- The next temporary name. -/
def nextName : Prog (State K β) Refusal K := fun s =>
  (.done (T.name target s.pid s.counter), { s with counter := s.counter + 1 })

/-- Create a temporary file under the first name that is free, among so many. -/
def createWithin : Nat → Prog (State K β) Refusal K
  | 0 => Prog.fail .alreadyExists
  | tries + 1 => do
    let candidate ← nextName T target
    match ← Prog.attempt (createNew candidate) with
    | .ok () => return candidate
    | .error .alreadyExists => createWithin tries
    | .error e => Prog.fail e

/-- Create a temporary file under the first name that is free: one more name than there are files has one. -/
def createTemporary : Prog (State K β) Refusal K := do
  createWithin T target ((← Prog.get).files.names.length + 1)

/-- Replace a file by a temporary one, which is removed where that fails. -/
def replace (contents : List β) : Prog (State K β) Refusal Unit := do
  settle
  let temporary ← createTemporary T target
  match ← Prog.attempt (do writeAll temporary contents; settle; rename temporary target) with
  | .ok () => return ()
  | .error e =>
    let _ ← (Prog.attempt (remove temporary) : Prog (State K β) Refusal _)
    Prog.fail e

end

/-! ## What the steps do -/

section

variable {s : State K β} {Q : α → State K β → Prop} {E : Refusal → State K β → Prop} {C : State K β → Prop}

omit [DecidableEq K] in
/-- **One step**: what it does where it takes place; else no file moves. -/
theorem spec_step {act : Files K β → Except Refusal (α × Files K β)}
    (hdone : ∀ a files fates, act s.files = .ok (a, files) → Q a { s with files, fates })
    (herror : ∀ e fates, act s.files = .error e → E e { s with fates })
    (hfault : ∀ fates, E .fault { s with fates }) (hcrash : ∀ fates, C { s with fates }) : Prog.Spec (step act) s Q E C := by
  have hact : ∀ fates, Prog.Spec (fun t : State K β => match act t.files with
      | .ok (a, files) => (Outcome.done a, { t with files })
      | .error e => (.fail e, t)) { s with fates } Q E C := by
    intro fates
    unfold Prog.Spec
    dsimp only
    cases hresult : act s.files with
    | ok result => exact hdone result.1 result.2 fates hresult
    | error e => exact herror e fates hresult
  obtain ⟨files, fates, pid, counter⟩ := s
  cases fates with
  | nil => exact hact []
  | cons fate fates =>
    cases fate with
    | ok => exact hact fates
    | refused written => exact hfault fates
    | crash written => exact hcrash fates

/-- **A write** leaves a part of the contents, all of them where it takes place. -/
theorem spec_writeAll {k : K} {contents : List β} {Q : Unit → State K β → Prop}
    (hdone : ∀ fates, Q () { s with fates, files := s.files.set k (some contents) })
    (hfault : ∀ fates n, E .fault { s with fates, files := s.files.set k (some (contents.take n)) })
    (hcrash : ∀ fates n, C { s with fates, files := s.files.set k (some (contents.take n)) }) :
    Prog.Spec (writeAll k contents) s Q E C := by
  obtain ⟨files, fates, pid, counter⟩ := s
  rw [← List.take_length (l := contents)] at hdone
  cases fates with
  | nil => exact hdone []
  | cons fate fates =>
    cases fate with
    | ok => exact hdone fates
    | refused n => exact hfault fates n
    | crash n => exact hcrash fates n

omit [DecidableEq K] in
theorem spec_settle {Q : Unit → State K β → Prop} (hdone : ∀ fates, Q () { s with fates })
    (hfault : ∀ fates, E .fault { s with fates }) (hcrash : ∀ fates, C { s with fates }) : Prog.Spec settle s Q E C := by
  refine spec_step (fun a files fates h => ?_) (fun e fates h => by cases h) hfault hcrash
  cases h
  exact hdone fates

theorem spec_createNew {k : K} {Q : Unit → State K β → Prop}
    (hnew : ∀ fates, s.files.contents k = none → Q () { s with fates, files := s.files.set k (some []) })
    (hthere : ∀ fates, s.files.contents k ≠ none → E .alreadyExists { s with fates })
    (hfault : ∀ fates, E .fault { s with fates }) (hcrash : ∀ fates, C { s with fates }) :
    Prog.Spec (createNew k) s Q E C := by
  refine spec_step (fun a files fates h => ?_) (fun e fates h => ?_) hfault hcrash
  · split at h
    · cases h
    · next hnone =>
      cases h
      exact hnew fates hnone
  · split at h
    · next hsome =>
      cases h
      exact hthere fates (by rw [hsome]; exact Option.some_ne_none _)
    · cases h

theorem spec_rename {k target : K} {Q : Unit → State K β → Prop} {contents : List β}
    (hthere : s.files.contents k = some contents)
    (hdone : ∀ fates, Q () { s with fates, files := (s.files.set target (some contents)).set k none })
    (hfault : ∀ fates, E .fault { s with fates }) (hcrash : ∀ fates, C { s with fates }) :
    Prog.Spec (rename k target) s Q E C := by
  refine spec_step (fun a files fates h => ?_) (fun e fates h => ?_) hfault hcrash
  all_goals
    rw [hthere] at h
    cases h
  exact hdone fates

/-- **A removal** that is tried leaves the file or no file. -/
theorem spec_try_remove {k : K} {Q : Except Refusal Unit → State K β → Prop} {E : ε → State K β → Prop}
    (hsame : ∀ result fates, Q result { s with fates })
    (hdone : ∀ result fates, Q result { s with fates, files := s.files.set k none }) (hcrash : ∀ fates, C { s with fates }) :
    Prog.Spec (Prog.attempt (remove k)) s Q E C := by
  refine Prog.spec_attempt.mpr (spec_step (fun a files fates h => ?_) (fun e fates h => hsame _ fates) (hsame _) hcrash)
  split at h
  · cases h
    exact hdone _ fates
  · cases h

omit [DecidableEq K] in
theorem spec_read {k : K} {Q : List β → State K β → Prop} (hdone : ∀ contents fates, s.files.contents k = some contents →
      Q contents { s with fates })
    (hmissing : ∀ fates, s.files.contents k = none → E .notFound { s with fates })
    (hfault : ∀ fates, E .fault { s with fates }) (hcrash : ∀ fates, C { s with fates }) : Prog.Spec (read k) s Q E C := by
  refine spec_step (fun a files fates h => ?_) (fun e fates h => ?_) hfault hcrash
  · split at h
    · next hsome =>
      cases h
      exact hdone _ fates hsome
    · cases h
  · split at h
    · cases h
    · next hnone =>
      cases h
      exact hmissing fates hnone

omit [DecidableEq K] in
theorem spec_isThere {k : K} {Q : Bool → State K β → Prop} {E : ε → State K β → Prop}
    (hdone : ∀ found fates, (found = true → s.files.contents k ≠ none) → Q found { s with fates })
    (hcrash : ∀ fates, C { s with fates }) : Prog.Spec (isThere k) s Q E C := by
  unfold isThere
  refine Prog.spec_bind.mpr (Prog.spec_attempt.mpr (spec_step (fun a files fates h => ?_) (fun e fates h => by cases h)
    (fun fates => hdone false fates nofun) hcrash))
  cases h
  exact hdone _ fates fun h => Option.isSome_iff_ne_none.mp h

end

/-! ## A temporary file -/

section

variable {T : Temporaries K} {target : K}

omit [DecidableEq K] in
/-- **One more name than there are files is free.** -/
theorem exists_free (T : Temporaries K) (target : K) (files : Files K β) (pid counter : Nat) :
    ∃ n < files.names.length + 1, files.contents (T.name target pid (counter + n)) = none := by
  classical
  by_contra htaken
  have htaken : ∀ n < files.names.length + 1, T.name target pid (counter + n) ∈ files.names := by
    intro n hn
    refine files.named _ fun hnone => htaken ⟨n, hn, hnone⟩
  have hsubset : (Finset.range (files.names.length + 1)).image (fun n => T.name target pid (counter + n)) ⊆
      files.names.toFinset := by
    intro k hk
    obtain ⟨n, hn, rfl⟩ := Finset.mem_image.mp hk
    exact List.mem_toFinset.mpr (htaken n (Finset.mem_range.mp hn))
  have hcard := Finset.card_le_card hsubset
  rw [Finset.card_image_of_injective _ fun m n h => Nat.add_left_cancel (T.injective target pid h), Finset.card_range] at hcard
  have := files.names.toFinset_card_le
  omega

/-- What a temporary file's creation leaves. -/
structure Made (T : Temporaries K) (before : Files K β) (k : K) (after : State K β) : Prop where
  absent : before.contents k = none
  has : T.Has k
  files : after.files.contents = Function.update before.contents k (some [])

theorem spec_createWithin {tries : Nat} {s : State K β}
    (hfree : ∃ n < tries, s.files.contents (T.name target s.pid (s.counter + n)) = none) :
    Prog.Spec (createWithin T target tries) s (Made T s.files) (fun e s' => e ≠ .alreadyExists ∧ s'.files = s.files)
      fun s' => s'.files = s.files := by
  induction tries generalizing s with
  | zero =>
    obtain ⟨n, hn, -⟩ := hfree
    exact absurd hn (Nat.not_lt_zero n)
  | succ tries ih =>
    unfold createWithin
    refine Prog.spec_bind.mpr ?_
    show Prog.Spec _ { s with counter := s.counter + 1 } _ _ _
    refine Prog.spec_bind.mpr (Prog.spec_attempt.mpr (spec_createNew (fun fates hnone => ?_) (fun fates htaken => ?_)
      (fun fates => ⟨nofun, rfl⟩) fun fates => rfl))
    · exact ⟨hnone, ⟨target, s.pid, s.counter, rfl⟩, rfl⟩
    · -- The first name is taken, so a later one is free.
      refine ih (s := { s with fates, counter := s.counter + 1 }) ?_
      obtain ⟨n, hn, hnone⟩ := hfree
      cases n with
      | zero => exact absurd hnone htaken
      | succ n => exact ⟨n, by omega, by rwa [show s.counter + (n + 1) = s.counter + 1 + n by omega] at hnone⟩

/-- **A temporary file is created under a name that was free**, however many are taken. -/
theorem spec_createTemporary (T : Temporaries K) (target : K) (s : State K β) :
    Prog.Spec (createTemporary T target) s (Made T s.files) (fun e s' => e ≠ .alreadyExists ∧ s'.files = s.files)
      fun s' => s'.files = s.files :=
  Prog.spec_bind.mpr (spec_createWithin (exists_free T target s.files s.pid s.counter))

end

/-! ## Changes of one file -/

/-- How a change ended. -/
inductive Ended
  | done
  | failed
  | died
  deriving DecidableEq, Repr

section

variable (T : Temporaries K) (target : K) (rewrite : Option (List β) → List β)

/-- **What a change of one file leaves**: its new contents where it is done, what it held where it failed, and one of the two
where the process died. No other file moves, but that a temporary one may be left. -/
structure Leaves (ended : Ended) (before after : K → Option (List β)) : Prop where
  done : ended = .done → after target = some (rewrite (before target))
  failed : ended = .failed → after target = before target
  died : ended = .died → after target = before target ∨ after target = some (rewrite (before target))
  others : ∀ k, k ≠ target → after k = before k ∨ before k = none ∧ T.Has k ∧ ended ≠ .done

/-- A program that makes a change of one file. -/
def Changes (x : Prog (State K β) ε α) : Prop := ∀ s,
  Prog.Spec x s (fun _ s' => Leaves T target rewrite .done s.files.contents s'.files.contents)
    (fun _ s' => Leaves T target rewrite .failed s.files.contents s'.files.contents)
    fun s' => Leaves T target rewrite .died s.files.contents s'.files.contents

end

section

variable {T : Temporaries K} {target : K} {rewrite : Option (List β) → List β} {before after : K → Option (List β)}

omit [DecidableEq K] in
/-- A change that moved no file failed, or the process died. -/
theorem leaves_same {ended : Ended} (hended : ended ≠ .done) (h : after = before) :
    Leaves T target rewrite ended before after := by
  subst h
  exact ⟨fun h => absurd h hended, fun _ => rfl, fun _ => .inl rfl, fun _ _ => .inl rfl⟩

omit [DecidableEq K] in
theorem Leaves.congr {rewrite' : Option (List β) → List β} {ended : Ended} (h : Leaves T target rewrite ended before after)
    (hsame : rewrite (before target) = rewrite' (before target)) : Leaves T target rewrite' ended before after :=
  ⟨fun hended => hsame ▸ h.done hended, h.failed, fun hended => hsame ▸ h.died hended, h.others⟩

/-- A change that left a temporary file only. -/
theorem leaves_temporary {ended : Ended} (hended : ended ≠ .done) {k : K} {contents : Option (List β)}
    (hk : T.Has k) (habsent : before k = none) (htarget : ¬T.Has target) (h : after = Function.update before k contents) :
    Leaves T target rewrite ended before after := by
  have hne : target ≠ k := fun h => htarget (h ▸ hk)
  have hsame : after target = before target := by rw [h, Function.update_of_ne hne]
  refine ⟨fun h => absurd h hended, fun _ => hsame, fun _ => .inl hsame, fun j _ => ?_⟩
  by_cases hj : j = k
  · exact .inr ⟨hj ▸ habsent, hj ▸ hk, hended⟩
  · exact .inl (by rw [h, Function.update_of_ne hj])

/-- **A replacement is a change of the file it is about.** -/
theorem spec_replace (htarget : ¬T.Has target) (contents : List β) :
    Changes T target (fun _ => contents) (replace T target contents) := by
  intro s
  unfold replace
  refine Prog.spec_bind.mpr (spec_settle (fun fates => ?_) (fun fates => leaves_same nofun rfl) fun fates => leaves_same nofun rfl)
  refine Prog.spec_bind.mpr ((spec_createTemporary T target _).mono (fun k s' hmade => ?_)
    (fun e s' h => leaves_same nofun (congrArg Files.contents h.2)) fun s' h => leaves_same nofun (congrArg Files.contents h))
  have habsent : s.files.contents k = none := hmade.absent
  have hne : target ≠ k := fun h => htarget (h ▸ hmade.has)
  -- What was written into the temporary file, and what is left of it.
  have hwritten : ∀ kept : Option (List β), Function.update s'.files.contents k kept =
      Function.update s.files.contents k kept := by
    intro kept
    rw [hmade.files]
    exact Function.update_idem ..
  have hfailed : ∀ (ended : Ended) (kept : Option (List β)) (after : K → Option (List β)), ended ≠ .done →
      after = Function.update s.files.contents k kept →
      Leaves T target (fun _ => contents) ended s.files.contents after := fun ended kept after hended h =>
    leaves_temporary hended hmade.has habsent htarget h
  have hcleared : ∀ (e : Refusal) (kept : Option (List β)) (t : State K β),
      t.files.contents = Function.update s.files.contents k kept →
      Prog.Spec (do let _ ← (Prog.attempt (remove k) : Prog (State K β) Refusal _); Prog.fail e : Prog (State K β) Refusal Unit) t
        (fun _ s' => Leaves T target (fun _ => contents) .done s.files.contents s'.files.contents)
        (fun _ s' => Leaves T target (fun _ => contents) .failed s.files.contents s'.files.contents)
        fun s' => Leaves T target (fun _ => contents) .died s.files.contents s'.files.contents := by
    intro e kept t ht
    refine Prog.spec_bind.mpr (spec_try_remove (fun result fates => hfailed _ kept _ nofun ht) (fun result fates => ?_)
      fun fates => hfailed _ kept _ nofun ht)
    refine hfailed _ none _ nofun ?_
    show Function.update t.files.contents k none = _
    rw [ht]
    exact Function.update_idem ..
  refine Prog.spec_bind.mpr (Prog.spec_attempt.mpr (Prog.spec_bind.mpr (spec_writeAll (fun fates => ?_)
    (fun fates n => hcleared _ _ _ (hwritten _)) fun fates n => hfailed _ _ _ nofun (hwritten _))))
  refine Prog.spec_bind.mpr (spec_settle (fun fates => ?_) (fun fates => hcleared _ _ _ (hwritten _))
    fun fates => hfailed _ _ _ nofun (hwritten _))
  have hthere : Function.update s'.files.contents k (some contents) k = some contents := Function.update_self ..
  refine spec_rename hthere (fun fates => ?_)
    (fun fates => hcleared _ _ _ (hwritten _)) fun fates => hfailed _ _ _ nofun (hwritten _)
  -- Renamed: the target holds the contents, and the temporary file is gone.
  show Leaves T target (fun _ => contents) .done s.files.contents
    (Function.update (Function.update (Function.update s'.files.contents k (some contents)) target (some contents)) k none)
  rw [hwritten]
  refine ⟨fun _ => ?_, nofun, nofun, fun j hj => .inl ?_⟩
  · rw [Function.update_of_ne hne, Function.update_self]
  · by_cases hjk : j = k
    · rw [hjk, Function.update_self, habsent]
    · rw [Function.update_of_ne hjk, Function.update_of_ne hj, Function.update_of_ne hjk]

end

/-! ## Any number of changes -/

section

variable {L : Type} (T : Temporaries K) (target : L → K) (rewrite : L → Option (List β) → List β)

/-- What a file holds after changes. -/
def rewritten (changes : List L) (contents : Option (List β)) : Option (List β) :=
  changes.foldl (fun contents change => some (rewrite change contents)) contents

/-- What the changes of a log leave. -/
inductive Logged (before : K → Option (List β)) : List (L × Ended) → (K → Option (List β)) → Prop
  | nil : Logged before [] before
  | snoc {log : List (L × Ended)} {middle after : K → Option (List β)} {change : L} {ended : Ended} :
    Logged before log middle → Leaves T (target change) (rewrite change) ended middle after →
    Logged before (log ++ [(change, ended)]) after

/-- **The changes that are held**: each that is done, none that failed, and of those the process died in any. -/
inductive Held : List (L × Ended) → List L → Prop
  | nil : Held [] []
  | done {log : List (L × Ended)} {held : List L} {change : L} : Held log held → Held (log ++ [(change, .done)]) (held ++ [change])
  | failed {log : List (L × Ended)} {held : List L} {change : L} : Held log held → Held (log ++ [(change, .failed)]) held
  | lost {log : List (L × Ended)} {held : List L} {change : L} : Held log held → Held (log ++ [(change, .died)]) held
  | wrote {log : List (L × Ended)} {held : List L} {change : L} : Held log held → Held (log ++ [(change, .died)]) (held ++ [change])

omit [DecidableEq K] in
/-- Where each change failed, none is held. -/
theorem Held.eq_nil {log : List (L × Ended)} {held : List L} (h : Held log held) (hfailed : ∀ entry ∈ log, entry.2 = .failed) :
    held = [] := by
  induction h with
  | nil => rfl
  | failed _ ih => exact ih fun entry hentry => hfailed entry (List.mem_append_left _ hentry)
  | done | lost | wrote =>
    have hlast := hfailed _ (List.mem_append_right _ List.mem_cons_self)
    cases hlast

variable {T target rewrite}

/-- **What any number of changes leaves of a file**: its contents, rewritten by the changes of it that are held, in order. -/
theorem contents_of_log {before after : K → Option (List β)} {log : List (L × Ended)} (h : Logged T target rewrite before log after)
    {k : K} (hk : ¬T.Has k) : ∃ held, Held (log.filter fun entry => target entry.1 = k) held ∧
      after k = rewritten rewrite held (before k) := by
  induction h with
  | nil => exact ⟨[], .nil, rfl⟩
  | @snoc log middle after change ended _ hleaves ih =>
    obtain ⟨held, hheld, hmiddle⟩ := ih
    rw [List.filter_append]
    by_cases hchange : target change = k
    · rw [List.filter_cons_of_pos (by simpa using hchange), List.filter_nil]
      have hwritten : after k = some (rewrite change (middle k)) → after k = rewritten rewrite (held ++ [change]) (before k) := by
        intro hafter
        unfold rewritten at hmiddle ⊢
        rw [List.foldl_append, ← hmiddle]
        exact hafter
      subst hchange
      cases ended with
      | done => exact ⟨_, .done hheld, hwritten (hleaves.done rfl)⟩
      | failed => exact ⟨_, .failed hheld, (hleaves.failed rfl).trans hmiddle⟩
      | died =>
        cases hleaves.died rfl with
        | inl hsame => exact ⟨_, .lost hheld, hsame.trans hmiddle⟩
        | inr hwrote => exact ⟨_, .wrote hheld, hwritten hwrote⟩
    · rw [List.filter_cons_of_neg (by simpa using hchange), List.filter_nil, List.append_nil]
      refine ⟨held, hheld, ?_⟩
      cases hleaves.others k (Ne.symm hchange) with
      | inl hsame => exact hsame.trans hmiddle
      | inr htemporary => exact absurd htemporary.2.1 hk

end

end AtomicFile
