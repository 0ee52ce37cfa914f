import Cao.Text
import Cao.Lib.Prog
import Cao.Lib.PathTree
import Cao.Lib.Decimal
import Cao.Staging.Manifest
import Cao.Staging.Parse
import Cao.Staging.Confine
import Cao.Staging.Names
import Cao.Staging.Snapshot
import Cao.Staging.Lists
import Cao.Staging.Disk
import Cao.Staging.Recover
import Cao.Staging.Prove
import Cao.Staging.RecoverExact
import Cao.Staging.Scope
import Cao.Staging.Ledger
import Cao.Staging.Operations
import Cao.Staging.RoundTrip
import Cao.Staging.CrashAnywhere
import Cao.Staging.Untouched
import Cao.Staging.Collision
import Cao.Staging.Outside
import Cao.Staging.Registry
import Cao.Lib.AtomicFile
import Cao.Lib.OrdMap
import Cao.Ordinal
import Cao.Lib.Ascii
import Cao.Archive.EntryPath
import Cao.Archive.EntryCase
import Cao.Archive.Preflight
import Cao.Archive.Conflicts
import Cao.Archive.Winners
import Cao.Archive.Precedence
import Cao.Run.Attempt
import Cao.Run.SourcePin
import Cao.Archive.Extract
import Cao.Archive.Destination
import Cao.Archive.Truthful
import Cao.Word
import Cao.Pack.Settings
import Cao.Pack.Names
import Cao.Pack.Data
import Cao.Pack.Split
import Cao.Pack.Merge
import Cao.Pack.Bounds
import Cao.Pack.Overflow
import Cao.Pack.Library
import Cao.Pack.Write
import Cao.Pack.Keys
import Cao.Pack.BsaBound
import Cao.Pack.Read
import Cao.Pack.Stored
import Cao.Pack.Listed
import Cao.Pack.RoundTrip
import Cao.Lib.TreeWalk
import Cao.Run.Reads
import Cao.Run.Capacity
import Cao.Finalize.Plan
import Cao.Finalize.Partition
import Cao.Finalize.Plugins
import Cao.Finalize.Planning
import Cao.Finalize.Attempt
import Cao.Finalize.Sources
import Cao.Finalize.Planned
import Cao.Finalize.OutputNames
import Cao.Lib.Trace
import Cao.Run.Effects
import Cao.Finalize.Loading
import Cao.Finalize.Order
import Cao.Finalize.Phase
import Cao.Finalize.Pruning
import Cao.Finalize.Skeletons
import Cao.Finalize.Ensured
import Cao.Finalize.Frame
import Cao.Evidence.Lifecycle
import Cao.Evidence.Store
import Cao.Evidence.Invariant
import Cao.Evidence.Atomic
import Cao.Evidence.Sealed
import Cao.Evidence.Recorded
import Cao.Routing.Route
import Cao.Routing.Compile
import Cao.Capacity.Check
import Cao.Capacity.Exact
import Cao.Capacity.Preview
import Cao.Discovery.Walk
import Cao.Discovery.Reproducible
import Cao.Pack.SourceOrder
import Cao.Discovery.EnumerationOrder
import Cao.Lib.Newest
import Cao.LogTab.Feed
import Cao.LogTab.Exact
import Cao.Asset.Files
import Cao.Asset.Execute
import Cao.Asset.Before
import Cao.Asset.Truthful
import Cao.Asset.DryRun
import Cao.Executor.Run
import Cao.Executor.Finalization
import Cao.Executor.WorkPhases
import Cao.Executor.Execute
import Cao.Executor.Ready
import Cao.Executor.Phases
import Cao.Executor.Finalizing
import Cao.Executor.Traversal
import Cao.Executor.Results
import Cao.Service.Protocol
import Cao.Service.Exclusive
import Cao.Texture.Plan
import Cao.Texture.Dimensions
import Cao.Texture.Apply
import Cao.Lib.Loop
import Cao.Winfs.Canonical
import Cao.Winfs.Normal
import Cao.Winfs.Idempotent
import Cao.Winfs.Weakly
import Cao.Ini.Encoding
import Cao.Ini.Value
import Cao.Ini.File
import Cao.Ini.Write
import Cao.Ini.Lines
import Cao.Ini.Unescape
import Cao.Ini.Codec
import Cao.Ini.Kept
import Cao.Ini.Read
import Cao.Ini.Ordered
import Cao.Ini.Scan
import Cao.Ini.Saved
import Cao.Ini.Lossless
import Cao.Ini.Again
import Cao.Profile.ArchiveSize
import Cao.Profile.Integers
import Cao.Profile.Closed
import Cao.Profile.Options
import Cao.Profile.Settings
import Cao.Profile.Common
import Cao.Profile.Store
import Cao.Evidence.Published
import Cao.Evidence.Summaries
import Cao.Executor.Outcome
import Cao.Executor.Coverage
import Cao.Selection.Resolve
import Cao.Selection.Overlap
import Cao.Selection.Order
import Cao.Lib.Slice
import Cao.Plugin.Path
import Cao.Plugin.Headparts
import Cao.Plugin.Serial
import Cao.Gui.CleanPath
import Cao.Gui.Form
import Cao.Gui.Rows
import Cao.Gui.RunView
import Cao.Lib.Repeats
import Cao.Run.Request
import Cao.Gui.Rules
import Cao.Lib.Rotate
import Cao.Lib.Binary64
import Cao.Mesh.References
import Cao.Mesh.Withheld
import Cao.LogTab.Rolling
import Cao.Finalize.Dummies
import Cao.Finalize.Deleted
import Cao.Lib.Cancellable
import Cao.Mesh.Scan
import Cao.Mesh.Optimize
import Cao.Gui.Session
import Cao.Gui.InFlight
