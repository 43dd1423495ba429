import Wireops.Server.Confinement
import Wireops.Worker.Dedup
import Wireops.Channel.Provenance
import Wireops.Sync.Unchanged
import Wireops.Sync.Status
import Wireops.Sync.Retry
import Wireops.Sync.Transfer
import Wireops.Sync.Pending
import Wireops.Policy.Interpolation
import Wireops.Policy.Names
import Wireops.Policy.Inherit
import Wireops.Jobs.Dispatch
import Wireops.Jobs.Registration
import Wireops.Jobs.Targets
import Wireops.Jobs.Timeouts
import Wireops.Sync.Convergence
import Wireops.Sync.Recovery
import Wireops.Sync.Protection
import Wireops.Sync.SharedTree
import Wireops.Sync.Relocation
import Wireops.Sync.Boot
import Wireops.Users.Elevation
import Wireops.Integrations.Store
import Wireops.Worker.Cancel
import Wireops.Git.Tokens
import Wireops.Jobs.Completions
import Wireops.Jobs.Waiting
import Wireops.Server.Revocation
import Wireops.Sync.Pausing
import Wireops.Sync.Projects
import Wireops.Worker.Output
import Wireops.Users.Throttle
import Wireops.Policy.Sockets
import Wireops.Worker.Migration
import Wireops.Secrets.Batches
import Wireops.Sync.Bypass
import Wireops.Sync.LogStream
import Wireops.Registry.Credentials
import Wireops.Policy.Violations
import Wireops.Policy.Tightening
import Wireops.Server.ReplayOrder
import Wireops.Server.Answers
import Wireops.Server.Duplicates
import Wireops.Worker.Flush
import Wireops.Jobs.ConfigMounts
import Wireops.Registry.Probe
import Wireops.Worker.Throttle
import Wireops.Worker.Drain
import Wireops.Server.TokenStatus
import Wireops.Server.LiveOutput
import Wireops.Sync.Deadlines
import Wireops.Safepath
import Wireops.Sync.Checksum
import Wireops.Sync.Renaming
import Wireops.Sync.PostCheck
import Wireops.Sync.Metadata
import Wireops.Lint.Mounts
import Wireops.Server.Wakeup
