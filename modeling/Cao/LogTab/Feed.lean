import Cao.Lib.Newest
import Cao.Lib.Trace
import Cao.Staging.Names

/-!
# The Application Log and the Log tab

The sink that every thread logs to (`application_log.rs`), the feed that queues its rows, and the Log tab that shows
them (`log_tab.rs`).

* `Level`, `Record`, `plainText`: a record, and its row in the info or the debug layout;
* `State`, `logRecord`, `redirect`, `subscribe`: the sink, under its lock; `Pending`, `FeedUpdate`: the feed's queue;
* `trailingDetails`, `apply`, `showDetails`: the model that the tab shows;
* `System`, `Step`: the sections under a lock and the turns of the event loop, as atomic steps in any order.
-/

namespace Cao.LogTab

/-! ## Records -/

/-- `log::Level`. -/
inductive Level
  | error
  | warn
  | info
  | debug
  | trace
  deriving DecidableEq, Repr

/-- How verbose a level is. -/
def Level.rank : Level → Nat
  | error => 1
  | warn => 2
  | info => 3
  | debug => 4
  | trace => 5

/-- `level_for`. -/
def levelFor (debug : Bool) : Level := if debug then .trace else .info

/-- `style`, without the colour. -/
def Level.token : Level → Text
  | error => "ERROR".toList
  | warn => "WARN".toList
  | info => "INFO".toList
  | debug => "DEBUG".toList
  | trace => "VERB".toList

/-- `Record`, with its message formatted. -/
structure Record where
  level : Level
  target : Text
  modulePath : Option Text
  line : Option Nat
  message : Text
  deriving DecidableEq, Repr

/-- What the clock reads, to the second and to the millisecond. -/
structure Stamp where
  seconds : Text
  milliseconds : Text
  deriving DecidableEq, Repr

/-- `plain_text`. -/
def plainText (debug : Bool) (record : Record) (at_ : Stamp) : Text :=
  let token := record.level.token
  if debug then
    at_.milliseconds ++ ' ' :: (token ++ List.replicate (5 - token.length) ' ') ++
      '{' :: record.modulePath.getD record.target ++ '@' :: Nat.toDigits 10 (record.line.getD 0) ++ ['}', ' '] ++
      record.message
  else at_.seconds ++ " [".toList ++ token ++ "] ".toList ++ record.message

/-- `LogLine`. -/
structure LogLine where
  severity : Level
  text : Text
  deriving DecidableEq, Repr

/-! ## The sink -/

/-- `MAX_FEED_ROWS`. -/
@[irreducible] def maxFeedRows : Nat := 10000

theorem maxFeedRows_pos : 0 < maxFeedRows := by
  unfold maxFeedRows
  decide

/-- `push_capped`. -/
def pushCapped (rows : List LogLine) (line : LogLine) : List LogLine :=
  (if rows.length = maxFeedRows then rows.drop 1 else rows) ++ [line]

/-- `Pending`. -/
structure Pending where
  reset : Bool
  lines : List LogLine
  deriving DecidableEq, Repr

/-- A queue with nothing to drain. -/
def Pending.isIdle (pending : Pending) : Bool := !pending.reset && pending.lines.isEmpty

/-- `Subscriber`: its queue, and which of the feeds attached so far it is. -/
structure Subscriber where
  feed : Nat
  pending : Pending
  deriving DecidableEq, Repr

/-- `Subscriber::needs_wake_after`, and the feed to wake. -/
def Subscriber.needsWakeAfter (subscriber : Subscriber) (change : Pending → Pending) : Subscriber × Option Nat :=
  ({ subscriber with pending := change subscriber.pending },
    if subscriber.pending.isIdle then some subscriber.feed else none)

/-- `State`: the log file by its path. -/
structure State where
  path : Path
  debug : Bool
  history : List LogLine
  subscriber : Option Subscriber
  deriving DecidableEq, Repr

namespace State

/-- `ApplicationLog::open`. -/
def opened (path : Path) (debug : Bool) : State := ⟨path, debug, [], none⟩

/-- The level check that `enabled` makes, and `log` again under the lock. -/
def admits (state : State) (record : Record) : Bool := record.level.rank ≤ (levelFor state.debug).rank

/-- A change of the attached feed's queue, if there is one. -/
def changePending (state : State) (change : Pending → Pending) : State × Option Nat :=
  match state.subscriber with
  | none => (state, none)
  | some subscriber =>
    let update := subscriber.needsWakeAfter change
    ({ state with subscriber := some update.1 }, update.2)

/-- The row of a record. -/
def lineOf (state : State) (record : Record) (at_ : Stamp) : LogLine := ⟨record.level, plainText state.debug record at_⟩

/-- `Log::log`, of an admitted record. -/
def logRecord (state : State) (line : LogLine) : State × Option Nat :=
  let state := { state with history := pushCapped state.history line }
  state.changePending fun pending => { pending with lines := pushCapped pending.lines line }

/-- The queue once the log is in a new file. -/
def clearPending (_ : Pending) : Pending := ⟨true, []⟩

/-- `redirect`, given whether a new file opens. -/
def redirect (state : State) (path : Path) (debug opens : Bool) : Option (State × Option Nat) :=
  if state.path ≠ path then
    if opens then
      let update := { state with path, history := [] }.changePending clearPending
      some ({ update.1 with debug }, update.2)
    else none
  else some ({ state with debug }, none)

/-- `subscribe`. -/
def subscribe (state : State) (feed : Nat) : State :=
  { state with subscriber := some ⟨feed, ⟨true, state.history⟩⟩ }

end State

/-! ## The tab -/

/-- `LogSeverity`. -/
inductive LogSeverity
  | error
  | warn
  | info
  | debug
  | trace
  | detail
  deriving DecidableEq, Repr

/-- `LogRow`. -/
structure LogRow where
  text : Text
  severity : LogSeverity
  deriving DecidableEq, Repr

/-- The severity of a sink row. -/
def Level.severity : Level → LogSeverity
  | error => .error
  | warn => .warn
  | info => .info
  | debug => .debug
  | trace => .trace

/-- `row`. -/
def row (line : LogLine) : LogRow := ⟨line.text, line.severity.severity⟩

/-- A run-detail row. -/
def detailRow (detail : Text) : LogRow := ⟨detail, .detail⟩

/-- `trailing_details`. -/
def trailingDetails (rows : List LogRow) : Nat := (rows.reverse.takeWhile fun row => row.severity = .detail).length

/-- `FeedUpdate`. -/
structure FeedUpdate where
  reset : Bool
  lines : List LogLine
  deriving DecidableEq, Repr

/-- The loop of `apply`: each new row inserted after the one before it. -/
def insertRows (rows : List LogRow) (at_ : Nat) : List LogRow → List LogRow
  | [] => rows
  | line :: new => insertRows (rows.insertIdx at_ line) (at_ + 1) new

/-- `apply`. -/
def apply (rows : List LogRow) (update : FeedUpdate) : List LogRow :=
  let logged := rows.length - trailingDetails rows
  let new := update.lines.map row
  if !update.reset && logged + new.length ≤ maxFeedRows then insertRows rows logged new
  else
    let new := new.drop (new.length - maxFeedRows)
    let kept := if update.reset then 0 else min logged (maxFeedRows - new.length)
    (rows.drop (logged - kept)).take kept ++ new ++ rows.drop logged

/-- `show_details`: rows beyond those asked for are the previous run's, and go from the last one back. -/
def showDetails (rows : List LogRow) (details : List Text) : List LogRow :=
  let shown := trailingDetails rows
  if shown > details.length then rows.take (rows.length - shown) ++ details.map detailRow
  else rows ++ (details.drop shown).map detailRow

/-! ## The steps -/

/-- The sink, the tab, and what the threads and the event loop hold between two sections. -/
structure System where
  sink : State
  /-- The records between the check of `enabled` and the lock of `log`. -/
  composing : List Record
  /-- The feeds whose wake is due: the lock is released, and the callback not yet called. -/
  owed : List Nat
  /-- The feeds woken since they were last drained. -/
  issued : List Nat
  /-- How many feeds were attached. -/
  attached : Nat
  rows : List LogRow
  /-- The rows logged since the path changed. -/
  logged : List LogLine
  /-- The run-detail rows last shown. -/
  details : List Text
  deriving DecidableEq, Repr

namespace System

/-- The sink opened, and an empty tab. -/
def start (path : Path) (debug : Bool) : System := ⟨.opened path debug, [], [], [], 0, [], [], []⟩

/-- The section of `log` under the lock: the level is checked again. -/
def log (s : System) (record : Record) (at_ : Stamp) : System :=
  if s.sink.admits record then
    let line := s.sink.lineOf record at_
    let update := s.sink.logRecord line
    { s with
      sink := update.1
      composing := s.composing.erase record
      owed := s.owed ++ update.2.toList
      logged := s.logged ++ [line] }
  else { s with composing := s.composing.erase record }

/-- `redirect`. -/
def redirect (s : System) (path : Path) (debug opens : Bool) : System :=
  match s.sink.redirect path debug opens with
  | none => s
  | some update =>
    { s with
      sink := update.1
      owed := s.owed ++ update.2.toList
      logged := if s.sink.path ≠ path then [] else s.logged }

/-- `LogFeed::drain` and `apply`, in one turn of the event loop; a feed replaced by another is gone. -/
def drain (s : System) (feed : Nat) : System :=
  match s.sink.subscriber with
  | none => s
  | some subscriber =>
    if subscriber.feed = feed then
      { s with
        sink := { s.sink with subscriber := some { subscriber with pending := ⟨false, []⟩ } }
        issued := s.issued.filter (· ≠ feed)
        rows := apply s.rows ⟨subscriber.pending.reset, subscriber.pending.lines⟩ }
    else s

end System

/-- The steps of the threads and of the event loop. -/
inductive Label
  | enabled (record : Record)
  | log (record : Record) (at_ : Stamp)
  | redirect (path : Path) (debug opens : Bool)
  | subscribe
  | wake (feed : Nat)
  | drain (feed : Nat)
  | showDetails (details : List Text)
  deriving DecidableEq, Repr

/-- One step. A run's detail rows are shown empty first, and only grow. -/
def Step : Label → System → System → Prop
  | .enabled record, s, s' => s' = if s.sink.admits record then { s with composing := s.composing ++ [record] } else s
  | .log record at_, s, s' => record ∈ s.composing ∧ s' = s.log record at_
  | .redirect path debug opens, s, s' => s' = s.redirect path debug opens
  | .subscribe, s, s' => s' =
      { s with
        sink := s.sink.subscribe s.attached
        owed := s.owed ++ [s.attached]
        attached := s.attached + 1 }
  | .wake feed, s, s' => feed ∈ s.owed ∧ s' = { s with owed := s.owed.erase feed, issued := s.issued ++ [feed] }
  | .drain feed, s, s' => s' = s.drain feed
  | .showDetails details, s, s' => (details = [] ∨ s.details <+: details) ∧
      s' = { s with rows := LogTab.showDetails s.rows details, details }

end Cao.LogTab
