import RustExample.OpenraftCluster.Tasks.Idempotency
import RustExample.OpenraftCluster.Tasks.Attempts
import RustExample.OpenraftCluster.Kv.SecondaryReads
import RustExample.OpenraftCluster.StateMachine.Readable
import RustExample.OpenraftCluster.Kv.Linearizable
import RustExample.OpenraftCluster.Runtime.Config
import RustExample.OpenraftCluster.Network.OpenCircuit
import RustExample.OpenraftCluster.SqliteCache.Updates
import RustExample.OpenraftCluster.SnapshotSync.Exchange
import RustExample.OpenraftCluster.WasmSync.Installs
import RustExample.OpenraftTask.Acks
import RustExample.ApalisRaft.AtMostOnce
import RustExample.Paxos.Agreement
import RustExample.GameServer.Handoff
import RustExample.GameServer.Ledger
import RustExample.GameServer.Mirrors
import RustExample.GameSync.Reconnect
import RustExample.FileTransfer.Received
import RustExample.CourseProgram.RoundTrip
import RustExample.CourseProgram.History
import RustExample.TransactionPool.Conservation
import RustExample.OpenraftCluster.Network.Reconnect
import RustExample.OpenraftCluster.Membership.Cleanup
import RustExample.OpenraftCluster.Membership.WholeJoins
import RustExample.HotUpgrade.Upgrades
import RustExample.ApalisScheduler.Placement
import RustExample.OpenraftTask.Failures
import RustExample.RedisLock.Cluster
import RustExample.RedisLock.Watchdog
import RustExample.OpenraftKameo.Snapshots
import RustExample.ChitchatStore.Snapshots
import RustExample.OctopiiQueue.Reports
import RustExample.RedisUserCache.Writes
import RustExample.OpenraftCluster.Tasks.Scheduler
import RustExample.OpenraftCluster.StateMachine.Replicas
import RustExample.OpenraftCluster.StateMachine.Retention
import RustExample.OpenraftCluster.SnapshotSync.Bodies
import RustExample.OpenraftCluster.WasmSync.ManifestCache
import RustExample.OpenraftCluster.WasmSync.Planning
import RustExample.OpenraftTask.Ticks
import RustExample.OpenraftCluster.Tasks.Payload
import RustExample.FindDiff.Groups
import RustExample.LinkedVector.Calls
import RustExample.DeviceTrie.Answers
import RustExample.MessageHeap.Priorities
import RustExample.MergeArrays.Merge
import RustExample.DisjointSubset.Subfamily
import RustExample.FindDiff.DigitRuns
import RustExample.Terrain.Search
import RustExample.DeviceGraph.ShortestPath
import RustExample.RepeatedIds.Trees
import RustExample.Libp2pTask.Snapshots
import RustExample.Libp2pTask.Enqueue
import RustExample.PegSolitaire.Search
import RustExample.OpenraftCluster.Network.Pins
import RustExample.PostfixEval.Expression
import RustExample.MinimumSpanningTree.Kruskal
import RustExample.LabeledTrees.Enumeration
import RustExample.KmpSearch.FirstOccurrence
import RustExample.LongestCommon.Subsequence
import RustExample.LongestCommon.Substring
import RustExample.HeapifyDownUp.Heaps
import RustExample.SlidingWindow.Deque
import RustExample.GraphComponents.Components
import RustExample.MainlineRecord.Backoff
import RustExample.KameoTarpc.Counter
import RustExample.KameoHotUpgrade.Counters
import RustExample.OpenraftCluster.Tasks.CompileCache
