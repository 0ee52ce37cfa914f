import Mathlib.Tactic.Common

/-!
# Runs of labelled steps

A step relation says what each label may do to a state; a trace is a run of steps with the list of their labels.

* `Trace step labels s s'`: the labels, one after the other, lead from `s` to `s'`;
* `trace_append`, `Trace.mono`: traces compose, and weaken with their step;
* **`Trace.invariant`**: what every step keeps, a trace keeps.
-/

variable {L S : Type} {step step' : L → S → S → Prop} {labels labels' : List L} {s s' s'' : S}

/-- The steps of these labels lead from one state to the other. -/
def Trace (step : L → S → S → Prop) : List L → S → S → Prop
  | [], s, s' => s' = s
  | label :: labels, s, s' => ∃ mid, step label s mid ∧ Trace step labels mid s'

theorem trace_nil : Trace step [] s s' ↔ s' = s := Iff.rfl

theorem trace_cons {label : L} :
    Trace step (label :: labels) s s' ↔ ∃ mid, step label s mid ∧ Trace step labels mid s' := Iff.rfl

theorem trace_singleton {label : L} : Trace step [label] s s' ↔ step label s s' := by
  rw [trace_cons]
  constructor
  · rintro ⟨mid, h, rfl⟩
    exact h
  · exact fun h => ⟨s', h, rfl⟩

theorem trace_append :
    Trace step (labels ++ labels') s s' ↔ ∃ mid, Trace step labels s mid ∧ Trace step labels' mid s' := by
  induction labels generalizing s with
  | nil => simp [trace_nil]
  | cons label labels ih =>
    simp only [List.cons_append, trace_cons, ih]
    constructor
    · rintro ⟨mid, h, mid', h', h''⟩
      exact ⟨mid', ⟨mid, h, h'⟩, h''⟩
    · rintro ⟨mid', ⟨mid, h, h'⟩, h''⟩
      exact ⟨mid, h, mid', h', h''⟩

theorem Trace.append (h : Trace step labels s s') (h' : Trace step labels' s' s'') :
    Trace step (labels ++ labels') s s'' := trace_append.mpr ⟨s', h, h'⟩

/-- Labels that do nothing. -/
theorem trace_silent (h : ∀ label ∈ labels, step label s s) : Trace step labels s s := by
  induction labels with
  | nil => rfl
  | cons label labels ih =>
    exact ⟨s, h label List.mem_cons_self, ih fun other hother => h other (List.mem_cons_of_mem _ hother)⟩

theorem Trace.mono (h : Trace step labels s s') (himp : ∀ label ∈ labels, ∀ s s', step label s s' → step' label s s') :
    Trace step' labels s s' := by
  induction labels generalizing s with
  | nil => exact h
  | cons label labels ih =>
    obtain ⟨mid, hstep, hrest⟩ := h
    exact ⟨mid, himp label List.mem_cons_self s mid hstep,
      ih hrest fun other hother => himp other (List.mem_cons_of_mem _ hother)⟩

/-- **What every step keeps, a trace keeps.** -/
theorem Trace.invariant {I : S → Prop} (h : Trace step labels s s')
    (hstep : ∀ label ∈ labels, ∀ s s', step label s s' → I s → I s') (hI : I s) : I s' := by
  induction labels generalizing s with
  | nil =>
    rw [trace_nil] at h
    rwa [h]
  | cons label labels ih =>
    obtain ⟨mid, hfirst, hrest⟩ := h
    exact ih hrest (fun other hother => hstep other (List.mem_cons_of_mem _ hother))
      (hstep label List.mem_cons_self s mid hfirst hI)
