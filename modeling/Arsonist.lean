import Arsonist.ControlPlane.App
import Arsonist.ControlPlane.Completion
import Arsonist.ControlPlane.QueueInvariant
import Arsonist.ControlPlane.FinalReports
import Arsonist.ControlPlane.Evidence
import Arsonist.ControlPlane.Coordinator
import Arsonist.ControlPlane.Dispatch
import Arsonist.ControlPlane.Transactions
import Arsonist.ControlPlane.Crash
import Arsonist.ControlPlane.Replicas
import Arsonist.Library.Registers
import Arsonist.Library.Steps
import Arsonist.Mesh.PeerRegistry
import Arsonist.Mesh.SignedTraffic
import Arsonist.Mesh.MeshRouter
import Arsonist.ControlPlane.MeshRoutes
import Arsonist.ControlPlane.Entries
import Arsonist.ControlPlane.Forwarding
import Arsonist.ControlPlane.NodeAuth
import Arsonist.Federation.CrossClusterScheduler
import Arsonist.Library.Interleaving
import Arsonist.Federation.Failover
import Arsonist.Federation.Heartbeat
import Arsonist.Federation.Controller
import Arsonist.Federation.Processes
import Arsonist.Federation.Outcomes
import Arsonist.Federation.WatchLoop
import Arsonist.Federation.Handover
import Arsonist.Federation.LastHeartbeats
import Arsonist.Federation.Addresses
import Arsonist.Federation.Whole
import Arsonist.DistributedQueue.EventLog
import Arsonist.DistributedQueue.EventMerge
import Arsonist.DistributedQueue.QueueDeltas
import Arsonist.DistributedQueue.Claims
import Arsonist.Consensus.Leases
import Arsonist.GlobalControl.Consensus
import Arsonist.GlobalControl.GlobalState
import Arsonist.GlobalControl.Replication
import Arsonist.GlobalControl.Redelivery
import Arsonist.GlobalControl.Convergence
import Arsonist.GlobalControl.SyncLoop
import Arsonist.Replication.PeerDelivery
import Arsonist.Replication.Checkpoints
import Arsonist.Replication.CacheInvalidation
import Arsonist.Coordination.DecisionLife
import Arsonist.Coordination.MeshRounds
import Arsonist.Coordination.MeshLeader
import Arsonist.Runtime.ShardAccounts
import Arsonist.Runtime.JobAccounts
import Arsonist.Identity.Sessions
import Arsonist.Audit.AuditLog
import Arsonist.Billing.Invoices
import Arsonist.Gateway.ApiGateway
import Arsonist.Gateway.Credentials
import Arsonist.Gateway.Revocation
import Arsonist.Gateway.Isolation
import Arsonist.Gateway.Owners
import Arsonist.Billing.UsageTotals
import Arsonist.Billing.Metering
import Arsonist.Gateway.QuotaManager
import Arsonist.Gateway.UsageMeter
import Arsonist.Inference.OpenaiRoutes
import Arsonist.Gateway.QuotaRaces
import Arsonist.Gateway.InflightRequests
import Arsonist.Library.Text
import Arsonist.Networking.EncryptedTransport
import Arsonist.Library.CanonicalOrder
import Arsonist.Library.Mac
import Arsonist.Node.RunJob
import Arsonist.Regions.RegionRegistry
import Arsonist.Routing.SmartFailover
import Arsonist.Routing.Incidents
import Arsonist.Library.StableSort
import Arsonist.Routing.FailoverTargets
import Arsonist.Federation.Rerouting
import Arsonist.Federation.GpuPlacement
import Arsonist.GlobalControl.Versions
import Arsonist.GlobalControl.ChangelogConsumer
import Arsonist.GlobalControl.StoredValues
import Arsonist.Edge.EdgeRuntime
import Arsonist.Edge.Outbox
import Arsonist.Edge.EdgeCache
import Arsonist.Library.Grouping
import Arsonist.Planetary.ContinentalFailover
import Arsonist.Regions.ReadableRows
import Arsonist.Regions.RegionRaces
import Arsonist.DistributedQueue.MeshEvents
import Arsonist.Library.Paging
import Arsonist.DistributedQueue.MergeAtomicity
import Arsonist.DistributedQueue.EventPaging
import Arsonist.Mesh.AntiEntropy
import Arsonist.DistributedQueue.DeltaPages
import Arsonist.DistributedQueue.TerminalJobs
import Arsonist.Mesh.LatencyHints
import Arsonist.Mesh.GossipTicks
import Arsonist.GlobalControl.LocalView
import Arsonist.GlobalControl.NamedLocks
import Arsonist.FabricCore.InfrastructureGraph
import Arsonist.Library.ShortestPaths
import Arsonist.FabricCore.Adjacency
import Arsonist.FabricCore.GraphPaths
import Arsonist.Fabric.TopologyManager
import Arsonist.Runtime.DispatchOrder
import Arsonist.Runtime.TokenAccounts
import Arsonist.Library.Eviction
import Arsonist.Replication.CacheSizes
import Arsonist.Edge.LruCache
import Arsonist.Edge.EdgeScheduler
import Arsonist.Edge.NodeLoads
import Arsonist.Edge.QueueOrder
import Arsonist.Edge.OfflineSync
import Arsonist.Routing.GlobalRouter
import Arsonist.Planetary.GeoOptimizer
import Arsonist.FabricCore.PlanetaryScheduler
import Arsonist.Adaptation.AdaptiveScaling
import Arsonist.Adaptation.DynamicRouting
import Arsonist.Repair.FailureRecovery
import Arsonist.Library.Backlog
import Arsonist.Repair.WorkloadRebuilder
import Arsonist.Repair.DeploymentRepair
import Arsonist.Adaptation.TopologyOptimizer
import Arsonist.Networking.BandwidthOptimizer
import Arsonist.Intelligence.AnomalyDetector
import Arsonist.Intelligence.TrafficSpikes
import Arsonist.Gateway.RateLimit
import Arsonist.Identity.TokenSecrets
import Arsonist.Models.CacheManager
import Arsonist.Models.Downloader
import Arsonist.Library.LostUpdates
import Arsonist.Replication.ModelReplication
import Arsonist.Prediction.ScalingForecast
import Arsonist.ControlPlane.Provisioning
import Arsonist.Library.Slots
import Arsonist.Repair.AutoHealing
import Arsonist.Edge.DelayedJobs
import Arsonist.Routing.RequestAffinity
import Arsonist.ControlPlane.Autoscaler
import Arsonist.Routing.LatencyRouter
import Arsonist.Models.ModelRouter
import Arsonist.Federation.ClusterAgent
import Arsonist.Runtime.WorkloadStreaming
import Arsonist.GlobalControl.GlobalControlPlane
import Arsonist.Fabric.ComputeFabric
import Arsonist.Networking.OverlayNetwork
import Arsonist.Intelligence.OptimizationEngine
import Arsonist.Coordination.AdaptivePolicies
