import WWRaftKV.Core.Ballot
import WWRaftKV.Cluster.Model
import WWRaftKV.Cluster.Step
import WWRaftKV.General.Quorum
import WWRaftKV.Cluster.Election
import WWRaftKV.General.TermLog
import WWRaftKV.General.Consensus
import WWRaftKV.General.Commit
import WWRaftKV.Core.Window
import WWRaftKV.General.Triple
import WWRaftKV.Core.LogStep
import WWRaftKV.Cluster.Replication
import WWRaftKV.Cluster.Commitment
import WWRaftKV.Node.Books
import WWRaftKV.Node.Bookkeeping
import WWRaftKV.Node.Restart
import WWRaftKV.Node.HandOver
import WWRaftKV.Core.Answer
import WWRaftKV.Node.Replies
import WWRaftKV.General.Links
import WWRaftKV.Store.SkipList
import WWRaftKV.Store.Cells
import WWRaftKV.Store.Search
import WWRaftKV.Store.Insert
import WWRaftKV.Store.Erase
import WWRaftKV.General.SortedMap
import WWRaftKV.Store.Clear
import WWRaftKV.Store.Refine
import WWRaftKV.Store.KVStore
import WWRaftKV.Store.Replica
import WWRaftKV.General.Framing
import WWRaftKV.Rpc.Frame
import WWRaftKV.Rpc.Dispatcher
import WWRaftKV.Rpc.Channel
import WWRaftKV.Rpc.Completion
import WWRaftKV.General.Tiling
import WWRaftKV.Pool.PageCache
import WWRaftKV.Pool.Partition
import WWRaftKV.Pool.Pages
import WWRaftKV.Pool.Caches
import WWRaftKV.General.Listing
import WWRaftKV.Pool.Blocks
import WWRaftKV.Pool.Threads
import WWRaftKV.Pool.Accounts
import WWRaftKV.Node.Clerk
import WWRaftKV.Core.Places
import WWRaftKV.Node.Clients
import WWRaftKV.Node.Answers
import WWRaftKV.Node.Contents
import WWRaftKV.Node.Labels
import WWRaftKV.General.Fields
import WWRaftKV.Node.SnapshotData
import WWRaftKV.Node.Snapshots
import WWRaftKV.Node.Attend
import WWRaftKV.Cluster.Matching
import WWRaftKV.Cluster.Votes
import WWRaftKV.Core.Majority
import WWRaftKV.Cluster.Follow
import WWRaftKV.Node.Wire
import WWRaftKV.Node.Progress
import WWRaftKV.Node.Bounds
import WWRaftKV.Core.Peers
import WWRaftKV.Node.Truth
import WWRaftKV.Cluster.Nodes
import WWRaftKV.General.Records
import WWRaftKV.Node.PersistData
import WWRaftKV.Node.Saved
import WWRaftKV.Node.Recovery
import WWRaftKV.Node.Compaction
import WWRaftKV.General.Patch
import WWRaftKV.Store.Replay
import WWRaftKV.Store.Encoding
import WWRaftKV.Node.Leader
import WWRaftKV.Cluster.Leader
import WWRaftKV.Node.FailedInstall
import WWRaftKV.Node.Pace
import WWRaftKV.Node.Snapshoting
import WWRaftKV.Node.Calls
import WWRaftKV.Node.Durable
import WWRaftKV.General.Crc
import WWRaftKV.Rpc.Checksum
import WWRaftKV.Rpc.Lengths
import WWRaftKV.Store.EraseAgree
import WWRaftKV.Logger.Formatter
import WWRaftKV.Logger.Rotate
import WWRaftKV.Logger.Worker
import WWRaftKV.Pool.Lists
import WWRaftKV.Pool.Refusal
import WWRaftKV.Core.Pledge
import WWRaftKV.Core.Leading
import WWRaftKV.Core.Carry
import WWRaftKV.Cluster.Leadership
import WWRaftKV.Cluster.Crashes
import WWRaftKV.Cluster.Provenance
import WWRaftKV.Cluster.Replicas
import WWRaftKV.General.Mutex
import WWRaftKV.Pool.Concurrent
import WWRaftKV.Pool.Flight
import WWRaftKV.Pool.Sections
import WWRaftKV.Pool.Interleave
import WWRaftKV.Pool.Waiting
import WWRaftKV.Rpc.Exchange
import WWRaftKV.Rpc.Ends
import WWRaftKV.Rpc.Delivery
import WWRaftKV.Rpc.Settle
import WWRaftKV.General.Chain
import WWRaftKV.General.Ring
import WWRaftKV.Pool.Linked
import WWRaftKV.Pool.LinkedPages
import WWRaftKV.Pool.LinkedCaches
import WWRaftKV.Pool.LinkedRuns
