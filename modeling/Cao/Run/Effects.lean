import Cao.Lib.Trace
import Cao.Run.SourcePin

/-!
# What took effect

The log of an attempt against the tree: which events change it, and a log that is all that happened to it.

* `Logged`: events that change nothing, and the operations that log them;
* `spec_publishReceipt`: a publication takes place whole or not at all;
* `Did J events s s'`: from one state to another these events happened, each as `J` says, and nothing else
  happened to the tree.
-/

namespace Cao

open Prog (Spec spec_bind)

variable {K : Type} [DecidableEq K] {V : Volume K}

/-! ## Steps that log -/

/-- The tree and the progress stay; the log gains these events. -/
structure Logged {P : Type} (events : List Event) (s s' : Site V P) : Prop where
  disk : s'.disk = s.disk
  progress : s'.progress = s.progress
  log : s'.log = s.log ++ events

section

omit [DecidableEq K]

variable {P : Type} {events events' : List Event} {s s' s'' : Site V P} {seams : Seams}

theorem Idle.logged (h : Idle s s') : Logged [] s s' := by
  rw [h]
  exact ⟨rfl, rfl, by simp⟩

theorem Logged.trans (h : Logged events s s') (h' : Logged events' s' s'') :
    Logged (events ++ events') s s'' :=
  ⟨h'.disk.trans h.disk, h'.progress.trans h.progress, by rw [h'.log, h.log, List.append_assoc]⟩

theorem Logged.idle (h : Logged events s s') (h' : Idle s' s'') : Logged events s s'' := by
  simpa using h.trans h'.logged

theorem Idle.then (h : Idle s s') (h' : Logged events s' s'') : Logged events s s'' := by
  simpa using h.logged.trans h'

theorem spec_listArchive (archive : Path) : Spec (listArchive seams archive) s
    (fun _ s' => Logged [.listed archive] s s') (fun _ s' => Idle s s') fun _ => False := by
  refine spec_bind.mpr ((along_call _ s).mono (fun _ s₁ h => ?_) (fun _ _ h => h) fun _ h => h)
  exact h.1.then ⟨rfl, rfl, rfl⟩

theorem spec_stageForPublication : Spec (stageForPublication seams) s
    (fun receipt s' => Logged [] s s' ∧ receipt < s'.staged.length) (fun _ s' => Logged [] s s') fun _ => False := by
  refine spec_bind.mpr ((along_call _ s).mono (fun _ s₁ h₁ => ?_) (fun _ _ h => h.logged) fun _ h => h)
  rw [spec_bind, Prog.spec_get, spec_bind, Prog.spec_modify]
  have h₂ : Logged [] s { s₁ with staged := s₁.staged ++ [[]] } :=
    h₁.1.then ⟨rfl, rfl, (List.append_nil _).symm⟩
  refine spec_bind.mpr ((along_call _ _).mono (fun _ s₃ h => ⟨h₂.idle h.1, ?_⟩) (fun _ _ h => h₂.idle h) fun _ h => h)
  rw [h.1]
  simp

theorem spec_releaseReader {ε : Type} : Spec (releaseReader seams : Prog (Site V P) (Thrown ε) Unit) s
    (fun _ s' => Logged [.unloaded] s s') (fun _ s' => Idle s s') fun _ => False := by
  refine spec_bind.mpr ((along_nextCall s).mono (fun n s₁ h => ?_) (fun _ _ h => h) fun _ h => h)
  cases seams.release n with
  | none => exact h.1.then ⟨rfl, rfl, rfl⟩
  | some message => exact h.1

end

/-- What a publication left: nothing, or its destination. -/
theorem spec_publishReceipt {P ε : Type} {s : Site V P} (receipt : Nat) (destination : Path) :
    Spec (publishReceipt seams receipt destination : Prog (Site V P) ε _) s
      (fun result s' => (result.state = .notPublished ∧ Idle s s') ∨
        ∃ released, (result.state = if released then .publishedAndReleased else .publishedStillOwned) ∧
          s'.log = s.log ++ [.published receipt destination released] ∧ s'.progress = s.progress ∧
          s'.staged = s.staged ∧ ∃ q, s.disk.create destination
            (.leaf (.file (s.staged[receipt]?.getD []) 1)) = some (q, s'.disk))
      (fun _ _ => False) fun _ => False := by
  have hrename : ∀ (released : Bool) (detail : String) {s₁ : Site V P}, Idle s s₁ →
      Spec (renameStaged receipt destination released detail : Prog (Site V P) ε _) s₁
        (fun result s' => (result.state = .notPublished ∧ Idle s s') ∨
          ∃ released, (result.state = if released then .publishedAndReleased else .publishedStillOwned) ∧
            s'.log = s.log ++ [.published receipt destination released] ∧ s'.progress = s.progress ∧
            s'.staged = s.staged ∧ ∃ q, s.disk.create destination
              (.leaf (.file (s.staged[receipt]?.getD []) 1)) = some (q, s'.disk))
        (fun _ _ => False) fun _ => False := by
    intro released detail s₁ h₁
    unfold renameStaged createEntry
    rw [spec_bind, Prog.spec_get]
    cases hc : s₁.disk.create destination (.leaf (.file (s₁.staged[receipt]?.getD []) 1)) with
    | none => exact .inl ⟨rfl, h₁⟩
    | some e =>
      rw [h₁] at hc ⊢
      refine .inr ⟨released, ?_, rfl, rfl, rfl, e.1, hc⟩
      cases released <;> rfl
  refine spec_bind.mpr (spec_nextCall.mpr ?_)
  cases seams.publish s.calls with
  | refused detail => exact .inl ⟨rfl, rfl⟩
  | unreleased detail => exact hrename false detail rfl
  | released => exact hrename true "" rfl

/-! ## A log that is all that happened -/

section

omit [DecidableEq K]

variable {P : Type}

/-- These events happened, each did to the tree what `J` says, and nothing else happened to it. -/
structure Did (J : Event → Disk V → Disk V → Prop) (events : List Event) (s s' : Site V P) : Prop where
  log : s'.log = s.log ++ events
  tree : Trace J events s.disk s'.disk

variable {J J' : Event → Disk V → Disk V → Prop} {events events' : List Event} {s s' s'' : Site V P}

theorem Did.trans (h : Did J events s s') (h' : Did J events' s' s'') : Did J (events ++ events') s s'' :=
  ⟨by rw [h'.log, h.log, List.append_assoc], h.tree.append h'.tree⟩

theorem Did.mono (h : Did J events s s') (himp : ∀ event ∈ events, ∀ disk disk', J event disk disk' → J' event disk disk') :
    Did J' events s s' := ⟨h.log, h.tree.mono himp⟩

theorem Logged.did (h : Logged events s s') (hJ : ∀ event ∈ events, J event s.disk s.disk) : Did J events s s' :=
  ⟨h.log, by rw [h.disk]; exact trace_silent hJ⟩

theorem Idle.did (h : Idle s s') : Did J [] s s' := h.logged.did (by simp)

theorem Did.idle (h : Did J events s s') (h' : Idle s' s'') : Did J events s s'' := by
  simpa using h.trans h'.did

/-- Some events happened, each as `J` says. -/
def Moves (J : Event → Disk V → Disk V → Prop) (s s' : Site V P) : Prop := ∃ events, Did J events s s'

instance : IsPreorder (Site V P) (Moves J) where
  refl s := ⟨[], Idle.did (.refl s)⟩
  trans _ _ _ := by
    rintro ⟨events, h⟩ ⟨events', h'⟩
    exact ⟨events ++ events', h.trans h'⟩

theorem Did.moves (h : Did J events s s') : Moves J s s' := ⟨events, h⟩

theorem Idle.moves (h : Idle s s') : Moves J s s' := h.did.moves

theorem Moves.trans (h : Moves J s s') (h' : Moves J s' s'') : Moves J s s'' := IsTrans.trans _ _ _ h h'

/-- Events that only added entries. -/
def Adds (J : Event → Disk V → Disk V → Prop) (s s' : Site V P) : Prop :=
  Moves J s s' ∧ ∀ p n, s.disk.Has p n → s'.disk.Has p n

theorem Idle.adds (h : Idle s s') : Adds J s s' := ⟨h.moves, fun p n hn => by rwa [h.disk]⟩

theorem Adds.trans (h : Adds J s s') (h' : Adds J s' s'') : Adds J s s'' :=
  ⟨h.1.trans h'.1, fun p n hn => h'.2 p n (h.2 p n hn)⟩

variable {ε α : Type} {x : Prog (Site V P) ε α} {R : α → Prop}

theorem along_moves (hx : Prog.Along Idle x R) : Prog.Along (Moves J) x R := hx.imp fun _ _ h => h.moves

/-- Only the progress changes. -/
theorem along_modifyProgress (f : P → P) :
    Prog.Along (Moves J) (modifyProgress f : Prog (Site V P) ε Unit) fun _ => True :=
  fun _ => ⟨⟨[], (List.append_nil _).symm, rfl⟩, trivial⟩

theorem along_getProgress : Prog.Along Idle (getProgress : Prog (Site V P) ε P) fun _ => True :=
  fun s => ⟨.refl s, trivial⟩

end

end Cao
