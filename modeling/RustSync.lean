import RustSync.Access.SigningPayload
import RustSync.Cli.Delivery
import RustSync.Cli.Membership
import RustSync.Cli.Resolve
import RustSync.Client.Transport
import RustSync.Local.Bootstrap
import RustSync.Server.AccessHistory
import RustSync.Server.CorruptionReports
import RustSync.Server.HeadRefinement
import RustSync.Server.ObjectIntegrity
import RustSync.Server.Paths
import RustSync.Server.Router
import RustSync.Server.PendingMembers
import RustSync.Sync.Applicable
import RustSync.Sync.Apply
import RustSync.Sync.Confined
import RustSync.Sync.Availability
import RustSync.Sync.Lineage
import RustSync.Sync.NoLostUpdate
import RustSync.Sync.Plans
import RustSync.Sync.Quiet
import RustSync.Sync.Rounds
import RustSync.Sync.Scan
import RustSync.Sync.Spared
import RustSync.Sync.TextMerge
import RustSync.Sync.Workflow
