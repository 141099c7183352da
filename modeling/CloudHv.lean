import CloudHv.Lib.Prog
import CloudHv.Lib.Threads
import CloudHv.Lib.Map
import CloudHv.Lib.Ledger
import CloudHv.Lib.Method
import CloudHv.Agent.Container
import CloudHv.Agent.Methods
import CloudHv.Agent.Server
import CloudHv.Agent.Stopped
import CloudHv.Agent.Tables
import CloudHv.Agent.Records
import CloudHv.Agent.Reported
import CloudHv.Agent.Logs
import CloudHv.Agent.Polls
import CloudHv.Daemon.Host
import CloudHv.Daemon.World
import CloudHv.Daemon.Names
import CloudHv.Daemon.Lifecycle
import CloudHv.Daemon.Pool
import CloudHv.Daemon.Api
import CloudHv.Daemon.Rules
import CloudHv.Daemon.Frame
import CloudHv.Daemon.PoolBound
import CloudHv.Daemon.Active
import CloudHv.Daemon.Charge
import CloudHv.Daemon.Procs
import CloudHv.Daemon.Orphan
import CloudHv.Daemon.Wiring
import CloudHv.Daemon.Disks
import CloudHv.Daemon.Warm
import CloudHv.Daemon.Taps
import CloudHv.Daemon.PodNet
import CloudHv.Daemon.Parts
import CloudHv.Daemon.Ids
import CloudHv.Daemon.ActiveCount
import CloudHv.Shim.Instance
import CloudHv.Shim.Count
import CloudHv.Shim.Race
import CloudHv.Daemon.Shadows
import CloudHv.Daemon.Refill
import CloudHv.Daemon.Registry
import CloudHv.Daemon.Release
import CloudHv.Daemon.Evict
import CloudHv.Shim.Erofs
import CloudHv.Common.Netlink
import CloudHv.Common.Socket
import CloudHv.Common.Redirect
import CloudHv.Daemon.Restart
import CloudHv.Daemon.CacheDirs
import CloudHv.Agent.Atomic
import CloudHv.Lib.Paths
import CloudHv.Daemon.Config
import CloudHv.Agent.Spec
import CloudHv.Agent.Volumes
import CloudHv.Agent.Blocks
import CloudHv.Daemon.Gateway
import CloudHv.Daemon.Panics
import CloudHv.Common.Configure
import CloudHv.Daemon.Images
import CloudHv.Lib.Walk
import CloudHv.Common.Dump
import CloudHv.Lib.Utf8
import CloudHv.Common.Nlas
import CloudHv.Agent.Inotify
import CloudHv.Lib.Fnv
import CloudHv.Shim.Cgroup
import CloudHv.Shim.Keys
import CloudHv.Lib.Tokens
import CloudHv.Daemon.Holders
import CloudHv.Lib.JsonText
import CloudHv.Lib.Lines
import CloudHv.Lib.Base64
import CloudHv.Daemon.Connection
import CloudHv.Shim.DaemonClient
import CloudHv.Lib.Refine
import CloudHv.Common.RawMethods
import CloudHv.Common.Levels
import CloudHv.Lib.Protobuf
import CloudHv.Common.AgentProto
import CloudHv.Daemon.PodAddress
import CloudHv.Daemon.Apart
import CloudHv.Shim.Delivery
import CloudHv.Shim.Exit
