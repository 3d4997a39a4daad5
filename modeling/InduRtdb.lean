import InduRtdb.Lib.Probe
import InduRtdb.Lib.Reads
import InduRtdb.Lib.Ring
import InduRtdb.Lib.Bytes
import InduRtdb.Lib.Crc
import InduRtdb.Lib.Pages
import InduRtdb.Lib.Latest
import InduRtdb.Lib.Faults
import InduRtdb.Lib.Lines
import InduRtdb.Lib.Text
import InduRtdb.Lib.Inline
import InduRtdb.Lib.Strtoul
import InduRtdb.Lib.Getopt
import InduRtdb.Lib.Floats
import InduRtdb.Spec.Registry
import InduRtdb.Spec.Replay
import InduRtdb.Spec.Sections
import InduRtdb.Core.Layout
import InduRtdb.Core.Types
import InduRtdb.Core.Shm
import InduRtdb.Core.HeaderCrc
import InduRtdb.Core.Regions
import InduRtdb.Core.Store
import InduRtdb.Core.Index
import InduRtdb.Core.IndexSpec
import InduRtdb.Core.IndexInv
import InduRtdb.Core.Mapping
import InduRtdb.Core.Delta
import InduRtdb.Core.DeltaFile
import InduRtdb.Core.SeqlockSteps
import InduRtdb.Core.PointManager
import InduRtdb.Core.Serializable
import InduRtdb.Core.TornReads
import InduRtdb.Core.Snapshot
import InduRtdb.Core.Recovery
import InduRtdb.Core.Creation
import InduRtdb.Core.Ownership
import InduRtdb.Core.Timeouts
import InduRtdb.Core.Subscription
import InduRtdb.Core.Heartbeat
import InduRtdb.Api.Registry
import InduRtdb.Api.RegistrySpec
import InduRtdb.Api.RegistryRun
import InduRtdb.Api.Changes
import InduRtdb.Api.DeltaReplay
import InduRtdb.Api.Reload
import InduRtdb.Api.Respawn
import InduRtdb.Api.Sections
import InduRtdb.Api.LockFreeReads
import InduRtdb.Api.LoadAny
import InduRtdb.Api.Values
import InduRtdb.Api.Frames
import InduRtdb.Api.SlotReuse
import InduRtdb.Api.LongNames
import InduRtdb.Api.Atomicity
import InduRtdb.Api.RecordAccess
import InduRtdb.Api.RecordSafety
import InduRtdb.Api.ReplayFile
import InduRtdb.Api.Instances
import InduRtdb.Api.ConfigFile
import InduRtdb.Api.CanonicalConfig
import InduRtdb.Api.MalformedIds
import InduRtdb.Api.Contended
import InduRtdb.Api.ErrorCodes
import InduRtdb.Api.TypedValues
import InduRtdb.Daemon.Conn
import InduRtdb.Daemon.Audit
import InduRtdb.Daemon.Handlers
import InduRtdb.Daemon.Framing
import InduRtdb.Daemon.Effects
import InduRtdb.Daemon.Loop
import InduRtdb.Daemon.FrameIntegrity
import InduRtdb.Daemon.Announce
import InduRtdb.Daemon.Authority
import InduRtdb.Daemon.Baseline
import InduRtdb.Daemon.Convergence
import InduRtdb.Daemon.Outgoing
import InduRtdb.Daemon.RbeMap
import InduRtdb.Daemon.Subscriptions
import InduRtdb.Daemon.Table
import InduRtdb.Daemon.Validation
import InduRtdb.Daemon.TwoValidators
import InduRtdb.Daemon.Dumps
import InduRtdb.Daemon.PolicyFile
import InduRtdb.Daemon.ConfFile
import InduRtdb.Daemon.TwoReaders
import InduRtdb.Daemon.Supervisor
import InduRtdb.Client.Irtcli
import InduRtdb.Client.Place
import InduRtdb.Client.Stream
import InduRtdb.Client.Queue
import InduRtdb.Client.Partition
import InduRtdb.Client.Arguments
import InduRtdb.Client.CommandLine
import InduRtdb.Monitor.Protocol
import InduRtdb.Monitor.Listing
import InduRtdb.Monitor.Values
import InduRtdb.Monitor.Receiving
import InduRtdb.Monitor.Listener
import InduRtdb.Monitor.Requests
import InduRtdb.Migrate.Layout
import InduRtdb.Migrate.Index
import InduRtdb.Migrate.Segment
import InduRtdb.Migrate.Build
import InduRtdb.Migrate.Lossless
import InduRtdb.Daemon.Workers
import InduRtdb.Daemon.Counters
import InduRtdb.Daemon.Shutdown
import InduRtdb.Migrate.Command
import InduRtdb.Monitor.Delivery
import InduRtdb.Daemon.Database
import InduRtdb.Daemon.Lives
import InduRtdb.Monitor.HealthProbe
