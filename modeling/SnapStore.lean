import SnapStore.Conc.Prog
import SnapStore.Conc.Logic
import SnapStore.Conc.Machine
import SnapStore.Conc.Script
import SnapStore.Closure
import SnapStore.Disk.Bytes
import SnapStore.Disk.FileSys
import SnapStore.Types
import SnapStore.Pagestore.Pack
import SnapStore.Pagestore.PackFormat
import SnapStore.Pagestore.Index
import SnapStore.Manifest
import SnapStore.Meta
import SnapStore.Sql.Connection
import SnapStore.Meta.Actor
import SnapStore.Meta.Moves
import SnapStore.World
import SnapStore.Pagestore.PageStore
import SnapStore.Pagestore.Open
import SnapStore.Store.SnapshotStore
import SnapStore.Gc.Engine
import SnapStore.Gc.Server
import SnapStore.System
import SnapStore.Gc.Mark
import SnapStore.Gc.Protocol
import SnapStore.Gc.ProtocolSteps
import SnapStore.Gc.Frames
import SnapStore.Gc.Commits
import SnapStore.Gc.Collector
import SnapStore.Gc.Sweeps
import SnapStore.Gc.Roots
import SnapStore.Meta.Batches
import SnapStore.Meta.History
import SnapStore.Forest
import SnapStore.Meta.NodeForest
import SnapStore.Meta.VisitCounts
import SnapStore.Meta.Paths
import SnapStore.Meta.Tombstones
import SnapStore.Meta.ReapScope
import SnapStore.Meta.Resend
import SnapStore.Gc.Database
import SnapStore.Gc.Reaping
import SnapStore.Meta.Kv
import SnapStore.Gc.Grace
import SnapStore.Conc.Locks
import SnapStore.Store.Locks
import SnapStore.Store.Puts
import SnapStore.Store.Rejected
import SnapStore.Store.Counters
import SnapStore.Store.Interleavings
import SnapStore.Conc.Sequential
import SnapStore.Disk.Names
import SnapStore.Pagestore.Writer
import SnapStore.Pagestore.Flushes
import SnapStore.Pagestore.Contents
import SnapStore.Pagestore.Alone
import SnapStore.Pagestore.TornTail
import SnapStore.Pagestore.Imitation
import SnapStore.Pagestore.Interrupted
import SnapStore.Store.GroupCommit
import SnapStore.PageChannel.Proto
import SnapStore.PageChannel.Wire
import SnapStore.PageChannel.Channel
import SnapStore.PageChannel.Answers
import SnapStore.PageChannel.Pairing
import SnapStore.PageChannel.Admission
import SnapStore.Client.Retry
import SnapStore.Client.UpdateNodes
import SnapStore.Client.Resolve
import SnapStore.Lineage
import SnapStore.Manifest.Codec
import SnapStore.Manifest.Exact
import SnapStore.Manifest.Build
import SnapStore.Manifest.InputLog
import SnapStore.Manifest.Flatten
import SnapStore.Store.Resolve
import SnapStore.Store.PutAlone
import SnapStore.Store.Chains
import SnapStore.Paging
import SnapStore.Meta.Queries
import SnapStore.Service.InlineLogs
import SnapStore.Service.QueryOrders
import SnapStore.Startup
import SnapStore.Startup.Recovered
import SnapStore.Startup.Purge
import SnapStore.Fsck.Manifests
import SnapStore.Conc.Watch
import SnapStore.Pagestore.Batch
import SnapStore.Pagestore.Ingest
import SnapStore.Pagestore.Panics
import SnapStore.Pagestore.PackIds
import SnapStore.Pagestore.Rotation
import SnapStore.Pagestore.PackParsers
import SnapStore.Pagestore.SealedPack
import SnapStore.Pagestore.SidecarFile
import SnapStore.Pagestore.Sidecars
import SnapStore.Pagestore.Consistency
import SnapStore.Gc.Acked
import SnapStore.Store.Baseline
