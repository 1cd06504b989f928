import LibeventPaxos.Lib.Machine
import LibeventPaxos.Lib.CountedLoop
import LibeventPaxos.Lib.EpochLog
import LibeventPaxos.Lib.Prefix
import LibeventPaxos.Lib.BitVotes
import LibeventPaxos.Lib.Ballots
import LibeventPaxos.Lib.Memory
import LibeventPaxos.Common
import LibeventPaxos.Database
import LibeventPaxos.ConsensusMsg
import LibeventPaxos.Consensus
import LibeventPaxos.ConsensusExec
import LibeventPaxos.ConsensusRun
import LibeventPaxos.DeliveryOrder
import LibeventPaxos.GapFreeDelivery
import LibeventPaxos.FollowerConfluence
import LibeventPaxos.ConsensusFrame
import LibeventPaxos.Group
import LibeventPaxos.StampOwnership
import LibeventPaxos.NormalCase
import LibeventPaxos.QuorumAgreement
import LibeventPaxos.ElectionMsg
import LibeventPaxos.Election
import LibeventPaxos.Node
import LibeventPaxos.NodeFrame
import LibeventPaxos.ViewFence
import LibeventPaxos.Cluster
import LibeventPaxos.ElectionVotes
import LibeventPaxos.ElectionSteps
import LibeventPaxos.ElectionAgreement
import LibeventPaxos.RoleTimers
import LibeventPaxos.Voting
import LibeventPaxos.NodeVotes
import LibeventPaxos.LearnerSoundness
import LibeventPaxos.AcceptorMemory
import LibeventPaxos.BallotContent
import LibeventPaxos.Restart
import LibeventPaxos.NodeCalls
import LibeventPaxos.Proxy
import LibeventPaxos.DatabaseTypes
import LibeventPaxos.StampOrder
import LibeventPaxos.LeaderLog
import LibeventPaxos.LogCompleteness
import LibeventPaxos.CommitPoint
import LibeventPaxos.RecordTransfer
import LibeventPaxos.QuorumBits
import LibeventPaxos.PingCatchUp
import LibeventPaxos.BoundaryRecord
import LibeventPaxos.ViewCrossing
import LibeventPaxos.EdgeScan
import LibeventPaxos.EdgeReset
import LibeventPaxos.Lib.Framing
import LibeventPaxos.ProxyMsg
import LibeventPaxos.Connections
import LibeventPaxos.RequestTransfer
import LibeventPaxos.ClientStream
import LibeventPaxos.PayloadPath
import LibeventPaxos.EdgeMerge
import LibeventPaxos.AnnounceAcks
import LibeventPaxos.ScanCapacity
import LibeventPaxos.ReplayOrder
import LibeventPaxos.StampLinear
import LibeventPaxos.PingDeadline
import LibeventPaxos.ConnectionKeys
import LibeventPaxos.ReadLoops
import LibeventPaxos.PreloadShim
import LibeventPaxos.AssignedStamps
import LibeventPaxos.PeerCalls
import LibeventPaxos.PeerNames
import LibeventPaxos.PeerIndices
import LibeventPaxos.PostStage
import LibeventPaxos.ViewInstallation
import LibeventPaxos.CommitRule
import LibeventPaxos.ViewQuorums
import LibeventPaxos.ViewAgreement
import LibeventPaxos.Lib.Simulation
import LibeventPaxos.ClusterGroup
import LibeventPaxos.FailoverDurability
import LibeventPaxos.AnnounceReports
import LibeventPaxos.VouchedReports
import LibeventPaxos.GatheredReports
import LibeventPaxos.ViewBoundary
import LibeventPaxos.ReplicaReplay
import LibeventPaxos.ReplicaGroup
import LibeventPaxos.Lib.Layout
import LibeventPaxos.Wire
import LibeventPaxos.PeerLink
import LibeventPaxos.NodeSends
import LibeventPaxos.Network
import LibeventPaxos.NetworkRuns
import LibeventPaxos.NetworkCluster
import LibeventPaxos.NetworkLinks
import LibeventPaxos.Lib.Shares
import LibeventPaxos.Forwards
import LibeventPaxos.Submissions
import LibeventPaxos.Uplink
import LibeventPaxos.Service
import LibeventPaxos.ServiceRuns
import LibeventPaxos.ServiceLog
