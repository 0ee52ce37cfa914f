import Cao.LogTab.Feed

/-!
# The Log tab shows the newest rows

What holds of the sink, the feed and the tab after any run of their steps.

* **`pushCapped_eq`**: a capped queue is the newest of what was pushed;
* **`trailingDetails_shown`**, **`apply_shown`**, **`showDetails_shown`**: the two parts of the model;
* `Exact`, **`exact_step`**: the invariant, kept by each step;
* **`logTab_exact`**: the tab and the queue are the sink's history, the detail rows come last, and no wake is lost.
-/

namespace Cao.LogTab

/-! ## Capped queues -/

theorem pushCapped_eq {rows : List LogLine} {line : LogLine} (h : rows.length ≤ maxFeedRows) :
    pushCapped rows line = (rows ++ [line]).rtake maxFeedRows := by
  unfold pushCapped List.rtake
  rw [List.length_append, List.length_singleton]
  by_cases hfull : rows.length = maxFeedRows
  · have hone : rows.length + 1 - maxFeedRows = 1 := by omega
    have hpos : 1 ≤ rows.length := hfull ▸ maxFeedRows_pos
    rw [if_pos hfull, hone, List.drop_append_of_le_length hpos]
  · have hzero : rows.length + 1 - maxFeedRows = 0 := by omega
    rw [if_neg hfull, hzero, List.drop_zero]

theorem length_pushCapped {rows : List LogLine} {line : LogLine} (h : rows.length ≤ maxFeedRows) :
    (pushCapped rows line).length ≤ maxFeedRows := by
  rw [pushCapped_eq h, length_rtake]
  exact min_le_left _ _

/-! ## The two parts of the model -/

/-- Rows of the log: none is a run-detail row. -/
def Logs (rows : List LogRow) : Prop := ∀ row ∈ rows, row.severity ≠ .detail

theorem logs_map (lines : List LogLine) : Logs (lines.map row) := by
  intro r hr
  obtain ⟨line, -, rfl⟩ := List.mem_map.mp hr
  show line.severity.severity ≠ .detail
  cases line.severity <;> exact nofun

theorem Logs.rtake {rows : List LogRow} (h : Logs rows) (n : Nat) : Logs (rows.rtake n) :=
  fun row hrow => h row (List.mem_of_mem_drop hrow)

theorem Logs.append {rows rows' : List LogRow} (h : Logs rows) (h' : Logs rows') : Logs (rows ++ rows') :=
  fun row hrow => (List.mem_append.mp hrow).elim (h row) (h' row)

/-- **The run-detail rows are those at the end.** -/
theorem trailingDetails_shown {rows : List LogRow} (h : Logs rows) (details : List Text) :
    trailingDetails (rows ++ details.map detailRow) = details.length := by
  unfold trailingDetails
  rw [List.reverse_append, List.takeWhile_append_of_pos]
  · have hnone : rows.reverse.takeWhile (fun row => decide (row.severity = .detail)) = [] := by
      cases hrows : rows.reverse with
      | nil => rfl
      | cons row rest =>
        have hrow := h row (List.mem_reverse.mp (hrows ▸ List.mem_cons_self))
        rw [List.takeWhile_cons_of_neg]
        simpa using hrow
    rw [hnone, List.append_nil, List.length_reverse, List.length_map]
  · intro row hrow
    obtain ⟨detail, -, rfl⟩ := List.mem_map.mp (List.mem_reverse.mp hrow)
    exact decide_eq_true rfl

theorem insertIdx_append (rows : List LogRow) {at_ : Nat} (h : at_ ≤ rows.length) (line : LogRow) :
    rows.insertIdx at_ line = rows.take at_ ++ line :: rows.drop at_ := by
  induction rows generalizing at_ with
  | nil =>
    rw [Nat.le_zero.mp h]
    rfl
  | cons first rows ih =>
    cases at_ with
    | zero => rfl
    | succ at_ =>
      rw [List.insertIdx_succ_cons, ih (Nat.le_of_succ_le_succ h)]
      rfl

theorem insertRows_eq (rows : List LogRow) {at_ : Nat} (h : at_ ≤ rows.length) (new : List LogRow) :
    insertRows rows at_ new = rows.take at_ ++ new ++ rows.drop at_ := by
  induction new generalizing rows at_ with
  | nil => rw [insertRows, List.append_nil, List.take_append_drop]
  | cons line new ih =>
    have hinsert : rows.insertIdx at_ line = (rows.take at_ ++ [line]) ++ rows.drop at_ := by
      rw [insertIdx_append rows h, List.append_assoc]
      rfl
    have hlength : (rows.take at_ ++ [line]).length = at_ + 1 := by
      rw [List.length_append, List.length_take_of_le h]
      rfl
    rw [insertRows, ih, hinsert, ← hlength, List.take_left, List.drop_left]
    · simp
    · rw [List.length_insertIdx_of_le_length h]
      omega

/-- What a rebuild past the cap keeps of the log's rows, and of the new ones. -/
theorem trimmed_eq {cap : Nat} {rows new : List LogRow} (details : List LogRow) (h : cap ≤ rows.length + new.length) :
    ((rows ++ details).drop (rows.length - min rows.length (cap - (new.drop (new.length - cap)).length))).take
        (min rows.length (cap - (new.drop (new.length - cap)).length)) ++ new.drop (new.length - cap) =
      (rows ++ new).rtake cap := by
  have hnew : (new.drop (new.length - cap)).length = min cap new.length := length_rtake new cap
  rw [hnew]
  have hkept : rows.length - min rows.length (cap - min cap new.length) ≤ rows.length := by omega
  have hroom : (rows.drop (rows.length - min rows.length (cap - min cap new.length))).length =
      min rows.length (cap - min cap new.length) := by
    rw [List.length_drop]
    omega
  rw [List.drop_append_of_le_length hkept, List.take_left' hroom]
  exact rtake_append_parts h

/-- **A drain: the newest of the log's rows and the new ones, above the run-detail rows.** -/
theorem apply_shown {rows : List LogRow} (h : Logs rows) (details : List Text) (update : FeedUpdate) :
    apply (rows ++ details.map detailRow) update =
      ((if update.reset then [] else rows) ++ update.lines.map row).rtake maxFeedRows ++ details.map detailRow := by
  have hlogged : (rows ++ details.map detailRow).length - trailingDetails (rows ++ details.map detailRow) = rows.length := by
    rw [trailingDetails_shown h, List.length_append, List.length_map]
    omega
  unfold apply
  rw [hlogged]
  dsimp only
  generalize update.lines.map row = new
  cases update.reset with
  | true =>
    rw [Bool.not_true, Bool.false_and, if_neg Bool.false_ne_true, if_pos rfl, if_pos rfl, List.take_zero, List.nil_append,
      List.nil_append, List.drop_left]
    rfl
  | false =>
    rw [Bool.not_false, Bool.true_and, if_neg Bool.false_ne_true, if_neg Bool.false_ne_true]
    by_cases hfits : rows.length + new.length ≤ maxFeedRows
    · have hwhole : (rows ++ new).length ≤ maxFeedRows := by rwa [List.length_append]
      rw [if_pos (decide_eq_true hfits), insertRows_eq _ (by simp), List.take_left, List.drop_left,
        rtake_of_length_le hwhole]
    · -- As many of the old rows stay as the newest of the new ones leave room for.
      rw [if_neg (by rwa [decide_eq_true_eq]), List.drop_left]
      exact congrArg (· ++ details.map detailRow) (trimmed_eq (details.map detailRow) (by omega))

/-- **The run-detail rows are replaced by a new run's, and grow with one's own.** -/
theorem showDetails_shown {rows : List LogRow} (h : Logs rows) {details details' : List Text}
    (hgrows : details' = [] ∨ details <+: details') :
    showDetails (rows ++ details.map detailRow) details' = rows ++ details'.map detailRow := by
  unfold showDetails
  rw [trailingDetails_shown h]
  dsimp only
  split_ifs with hfewer
  · rw [List.length_append, List.length_map, Nat.add_sub_cancel, List.take_left]
  · have hprefix : details <+: details' := by
      rcases hgrows with rfl | hprefix
      · have hnil : details = [] := List.eq_nil_of_length_eq_zero (by simpa using hfewer)
        rw [hnil]
      · exact hprefix
    obtain ⟨more, rfl⟩ := hprefix
    rw [List.drop_left, List.append_assoc, ← List.map_append]

/-! ## The invariant -/

/-- The log's rows on the tab, once a pending reset is done. -/
def afterReset (pending : Pending) (rows : List LogRow) : List LogRow := if pending.reset then [] else rows

/-- The tab and the queue of a feed hold a history between them. -/
structure Holds (rows : List LogRow) (pending : Pending) (history : List LogLine) : Prop where
  newest : (afterReset pending rows ++ pending.lines.map row).rtake maxFeedRows = history.map row
  bound : pending.lines.length ≤ maxFeedRows

/-- What holds between two steps: the rows of the log, and the run-detail rows below them. -/
structure Exact (s : System) (rows : List LogRow) : Prop where
  shown : s.rows = rows ++ s.details.map detailRow
  logs : Logs rows
  history : s.sink.history = s.logged.rtake maxFeedRows
  feed : ∀ subscriber, s.sink.subscriber = some subscriber → Holds rows subscriber.pending s.sink.history
  awake : ∀ subscriber, s.sink.subscriber = some subscriber → subscriber.pending.isIdle = false →
    subscriber.feed ∈ s.issued ∨ subscriber.feed ∈ s.owed

variable {s s' : System} {rows : List LogRow}

theorem exact_start (path : Path) (debug : Bool) : Exact (.start path debug) [] where
  shown := rfl
  logs := nofun
  history := (List.rtake_nil _).symm
  feed := nofun
  awake := nofun

theorem Exact.length_history (h : Exact s rows) : s.sink.history.length ≤ maxFeedRows := by
  rw [h.history, length_rtake]
  exact min_le_left _ _

/-- **A change of the queue**: the attached feed stays attached, and is owed a wake where it was idle. -/
theorem changePending_subscriber (sink : State) (change : Pending → Pending) :
    (sink.changePending change).1 = { sink with subscriber := (sink.changePending change).1.subscriber } ∧
      ∀ subscriber, (sink.changePending change).1.subscriber = some subscriber →
        ∃ before, sink.subscriber = some before ∧ subscriber = { before with pending := change before.pending } ∧
          (before.pending.isIdle = true → (sink.changePending change).2 = some before.feed) := by
  unfold State.changePending
  cases hbefore : sink.subscriber with
  | none =>
    refine ⟨rfl, fun subscriber h => ?_⟩
    rw [hbefore] at h
    cases h
  | some before =>
    refine ⟨rfl, fun subscriber h => ⟨before, rfl, (Option.some.inj h).symm, fun hidle => ?_⟩⟩
    exact if_pos hidle

/-- A wake is still owed to a queue that is changed. -/
theorem awake_change (hawake : ∀ subscriber, s.sink.subscriber = some subscriber → subscriber.pending.isIdle = false →
      subscriber.feed ∈ s.issued ∨ subscriber.feed ∈ s.owed) {sink : State} {change : Pending → Pending}
    (subscriber : Subscriber) (h : (sink.changePending change).1.subscriber = some subscriber)
    (hsame : sink.subscriber = s.sink.subscriber) :
    subscriber.feed ∈ s.issued ∨ subscriber.feed ∈ s.owed ++ (sink.changePending change).2.toList := by
  obtain ⟨before, hbefore, rfl, hwake⟩ := (changePending_subscriber sink change).2 subscriber h
  rw [hsame] at hbefore
  cases hidle : before.pending.isIdle with
  | false => exact (hawake before hbefore hidle).imp_right (List.mem_append_left _)
  | true =>
    refine .inr (List.mem_append_right _ ?_)
    rw [hwake hidle]
    exact List.mem_singleton_self _

/-- **One row more, in the history and in the queue.** -/
theorem Holds.push {pending : Pending} {history : List LogLine} (h : Holds rows pending history)
    (hbound : history.length ≤ maxFeedRows) (line : LogLine) :
    Holds rows { pending with lines := pushCapped pending.lines line } (pushCapped history line) where
  newest := by
    show (afterReset pending rows ++ (pushCapped pending.lines line).map row).rtake maxFeedRows = _
    rw [pushCapped_eq h.bound, pushCapped_eq hbound, map_rtake, map_rtake, rtake_append_rtake, List.map_append,
      List.map_append, ← List.append_assoc, ← rtake_rtake_append, h.newest]
  bound := length_pushCapped h.bound

/-- A drained queue: the tab has it all. -/
theorem Holds.drained {pending : Pending} {history : List LogLine} (h : Holds rows pending history) :
    Holds ((afterReset pending rows ++ pending.lines.map row).rtake maxFeedRows) ⟨false, []⟩ history where
  newest := by
    have hidle : ∀ rows, afterReset ⟨false, []⟩ rows = rows := fun _ => rfl
    rw [hidle, List.map_nil, rtake_rtake_append, List.append_nil, h.newest]
  bound := Nat.zero_le _

/-- **A record is logged.** -/
theorem Exact.log (h : Exact s rows) (record : Record) (at_ : Stamp) : Exact (s.log record at_) rows := by
  have hbound := h.length_history
  unfold System.log
  split_ifs with hadmits
  · unfold State.logRecord
    dsimp only
    generalize s.sink.lineOf record at_ = line
    have hchange := changePending_subscriber { s.sink with history := pushCapped s.sink.history line }
      fun pending => { pending with lines := pushCapped pending.lines line }
    have hhistory := congrArg State.history hchange.1
    refine ⟨h.shown, h.logs, ?_, fun subscriber hsubscriber => ?_, fun subscriber hsubscriber _ => ?_⟩
    · dsimp only
      rw [hhistory]
      dsimp only
      rw [pushCapped_eq hbound, h.history, rtake_rtake_append]
    · obtain ⟨before, hbefore, rfl, -⟩ := hchange.2 subscriber hsubscriber
      dsimp only
      rw [hhistory]
      exact (h.feed before hbefore).push hbound line
    · exact awake_change h.awake subscriber hsubscriber rfl
  · exact ⟨h.shown, h.logs, h.history, h.feed, h.awake⟩

/-- **The log moves, or stays where it is.** -/
theorem Exact.redirect (h : Exact s rows) (path : Path) (debug opens : Bool) : Exact (s.redirect path debug opens) rows := by
  unfold System.redirect State.redirect
  by_cases hpath : s.sink.path = path
  · rw [if_neg (not_not.mpr hpath), if_neg (not_not.mpr hpath)]
    refine ⟨h.shown, h.logs, h.history, h.feed, fun subscriber hsubscriber hbusy => ?_⟩
    exact (h.awake subscriber hsubscriber hbusy).imp_right (List.mem_append_left _)
  · rw [if_pos hpath, if_pos hpath]
    cases opens with
    | false => exact h
    | true =>
      rw [if_pos rfl]
      dsimp only
      have hchange := changePending_subscriber { s.sink with path, history := [] } State.clearPending
      have hhistory := congrArg State.history hchange.1
      refine ⟨h.shown, h.logs, ?_, fun subscriber hsubscriber => ?_, fun subscriber hsubscriber _ => ?_⟩
      · dsimp only
        rw [hhistory, List.rtake_nil]
      · obtain ⟨before, -, rfl, -⟩ := hchange.2 subscriber hsubscriber
        dsimp only
        rw [hhistory]
        have hcleared : afterReset (State.clearPending before.pending) rows = [] := rfl
        refine ⟨?_, Nat.zero_le _⟩
        rw [hcleared, List.nil_append]
        exact List.rtake_nil _
      · exact awake_change h.awake subscriber hsubscriber rfl

/-- **The queue goes to the tab.** -/
theorem Exact.drain (h : Exact s rows) (feed : Nat) : ∃ rows', Exact (s.drain feed) rows' := by
  unfold System.drain
  cases hattached : s.sink.subscriber with
  | none => exact ⟨rows, h⟩
  | some subscriber =>
    dsimp only
    split_ifs with hfeed
    · have hholds := h.feed subscriber hattached
      refine ⟨(afterReset subscriber.pending rows ++ subscriber.pending.lines.map row).rtake maxFeedRows, ?_, ?_,
        h.history, ?_, ?_⟩
      · dsimp only
        rw [h.shown, apply_shown h.logs]
        rfl
      · refine Logs.rtake (Logs.append ?_ (logs_map _)) _
        unfold afterReset
        split_ifs
        · exact nofun
        · exact h.logs
      · intro drained hdrained
        cases hdrained
        exact hholds.drained
      · intro drained hdrained hbusy
        cases hdrained
        cases hbusy
    · exact ⟨rows, h⟩

/-- **Every step keeps the invariant.** -/
theorem exact_step {label : Label} (hstep : Step label s s') (h : Exact s rows) : ∃ rows', Exact s' rows' := by
  cases label with
  | enabled record =>
    rw [Step] at hstep
    subst hstep
    split_ifs
    · exact ⟨rows, h.shown, h.logs, h.history, h.feed, h.awake⟩
    · exact ⟨rows, h⟩
  | log record at_ =>
    obtain ⟨-, rfl⟩ := hstep
    exact ⟨rows, h.log record at_⟩
  | redirect path debug opens =>
    rw [Step] at hstep
    subst hstep
    exact ⟨rows, h.redirect path debug opens⟩
  | subscribe =>
    rw [Step] at hstep
    subst hstep
    refine ⟨rows, h.shown, h.logs, h.history, fun subscriber hsubscriber => ?_, fun subscriber hsubscriber _ => ?_⟩
    · cases hsubscriber
      have hreset : afterReset ⟨true, s.sink.history⟩ rows = [] := rfl
      refine ⟨?_, h.length_history⟩
      rw [hreset, List.nil_append, ← map_rtake, rtake_of_length_le h.length_history]
      rfl
    · cases hsubscriber
      exact .inr (List.mem_append_right _ (List.mem_singleton_self _))
  | wake feed =>
    obtain ⟨hfeed, rfl⟩ := hstep
    refine ⟨rows, h.shown, h.logs, h.history, h.feed, fun subscriber hsubscriber hpending => ?_⟩
    by_cases hsame : subscriber.feed = feed
    · exact .inl (List.mem_append_right _ (List.mem_singleton.mpr hsame))
    · exact (h.awake subscriber hsubscriber hpending).imp (List.mem_append_left _) fun howed =>
        (List.mem_erase_of_ne hsame).mpr howed
  | drain feed =>
    rw [Step] at hstep
    subst hstep
    exact h.drain feed
  | showDetails details =>
    obtain ⟨hgrows, rfl⟩ := hstep
    refine ⟨rows, ?_, h.logs, h.history, h.feed, h.awake⟩
    dsimp only
    rw [h.shown, showDetails_shown h.logs hgrows]

/-- The log's rows on the tab: those above the run-detail rows. -/
def logRows (rows : List LogRow) : List LogRow := rows.take (rows.length - trailingDetails rows)

/-- **The Log tab and the feed's queue are the sink's history, whatever the order of the steps.** -/
theorem logTab_exact (path : Path) (debug : Bool) (labels : List Label) (s : System)
    (h : Trace Step labels (.start path debug) s) :
    s.sink.history = s.logged.rtake maxFeedRows ∧
      s.rows = logRows s.rows ++ s.details.map detailRow ∧
      (∀ row ∈ logRows s.rows, row.severity ≠ .detail) ∧
      ∀ subscriber, s.sink.subscriber = some subscriber →
        ((if subscriber.pending.reset then [] else logRows s.rows) ++ subscriber.pending.lines.map row).rtake maxFeedRows =
            s.sink.history.map row ∧
          (subscriber.pending.isIdle = false → subscriber.feed ∈ s.issued ∨ subscriber.feed ∈ s.owed) := by
  obtain ⟨rows, hexact⟩ := h.invariant (I := fun s => ∃ rows, Exact s rows)
    (fun _ _ _ _ hstep ⟨_, hexact⟩ => exact_step hstep hexact) ⟨[], exact_start path debug⟩
  have hrows : logRows s.rows = rows := by
    unfold logRows
    rw [hexact.shown, trailingDetails_shown hexact.logs, List.length_append, List.length_map, Nat.add_sub_cancel,
      List.take_left]
  rw [hrows]
  exact ⟨hexact.history, hexact.shown, hexact.logs, fun subscriber hsubscriber =>
    ⟨(hexact.feed subscriber hsubscriber).newest, hexact.awake subscriber hsubscriber⟩⟩

/-- A record of the sample. -/
def sampleRecord : Record := ⟨.info, "cao".toList, none, none, "started".toList⟩

/-- A run that attaches the tab, logs a row, shows it and a detail row, and logs another. -/
def sampleRun : List Label :=
  [.subscribe, .enabled sampleRecord, .log sampleRecord ⟨"t".toList, "t".toList⟩, .wake 0, .drain 0, .showDetails [],
    .showDetails ["detail".toList], .enabled sampleRecord, .log sampleRecord ⟨"u".toList, "u".toList⟩]

theorem logTab_exact_sample : ∃ s, Trace Step sampleRun (.start [] false) s ∧ s.logged.length = 2 ∧
    s.sink.history = s.logged.rtake maxFeedRows ∧
      s.rows = logRows s.rows ++ s.details.map detailRow ∧
      (∀ row ∈ logRows s.rows, row.severity ≠ .detail) ∧
      ∀ subscriber, s.sink.subscriber = some subscriber →
        ((if subscriber.pending.reset then [] else logRows s.rows) ++ subscriber.pending.lines.map row).rtake maxFeedRows =
            s.sink.history.map row ∧
          (subscriber.pending.isIdle = false → subscriber.feed ∈ s.issued ∨ subscriber.feed ∈ s.owed) := by
  have hrun : ∃ s, Trace Step sampleRun (.start [] false) s ∧ s.logged.length = 2 := by
    refine ⟨_, ⟨_, rfl, _, rfl, _, ⟨?_, rfl⟩, _, ⟨?_, rfl⟩, _, rfl, _, ⟨.inl rfl, rfl⟩, _, ⟨.inr (List.nil_prefix), rfl⟩, _, rfl, _,
      ⟨?_, rfl⟩, rfl⟩, ?_⟩
    all_goals decide +kernel
  obtain ⟨s, hrun, hlogged⟩ := hrun
  exact ⟨s, hrun, hlogged, logTab_exact [] false sampleRun s hrun⟩

end Cao.LogTab
