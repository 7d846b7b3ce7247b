import QpidRecovery.Library.Transition
import QpidRecovery.Library.Majority
import QpidRecovery.Instance.Agreement
import QpidRecovery.Library.Fifo
import QpidRecovery.Instance.Progress
import QpidRecovery.Library.Layout
import QpidRecovery.Library.Channel
import QpidRecovery.Paxos.Wire
import QpidRecovery.Paxos.Delivery
import QpidRecovery.Paxos.Bounds
import QpidRecovery.Acceptor.Versions
import QpidRecovery.Requestor.Branches
import QpidRecovery.Requestor.Configuration
import QpidRecovery.Library.Trace
import QpidRecovery.Proposer.Branches
import QpidRecovery.Proposer.Detection
import QpidRecovery.Proposer.Subscribers
import QpidRecovery.Proposer.Announcement
import QpidRecovery.Library.Succession
import QpidRecovery.Library.ThreeWay
import QpidRecovery.Library.KeyedList
import QpidRecovery.Recovery.CopyObjects
import QpidRecovery.Requestor.Iterations
import QpidRecovery.Requestor.Lockstep
import QpidRecovery.Recovery.Collected
import QpidRecovery.Paxos.Ordering
import QpidRecovery.Paxos.Promises
import QpidRecovery.Paxos.Commits
import QpidRecovery.Cluster.HandOver
import QpidRecovery.Requestor.Membership
import QpidRecovery.Requestor.LostAcceptors
import QpidRecovery.Requestor.Arguments
import QpidRecovery.Proposer.Centralized
import QpidRecovery.Recovery.Urls
import QpidRecovery.Recovery.CopyBridges
import QpidRecovery.Common.Descriptors
import QpidRecovery.Paxos.Connections
import QpidRecovery.Proposer.AddBroker
import QpidRecovery.Proposer.Frame
import QpidRecovery.Proposer.Backups
import QpidRecovery.Proposer.Bootstrap
import QpidRecovery.Proposer.ProposerLists
import QpidRecovery.Proposer.Reroutes
import QpidRecovery.Proposer.Descriptors
import QpidRecovery.Proposer.Subscriptions
import QpidRecovery.Proposer.Accounts
import QpidRecovery.Proposer.Snapshots
import QpidRecovery.Proposer.EventOrder
import QpidRecovery.Requestor.Published
import QpidRecovery.Requestor.Descriptors
import QpidRecovery.Acceptor.Descriptors
import QpidRecovery.Pingd.Daemon
import QpidRecovery.Pingd.Answers
import QpidRecovery.Cluster.Registry
import QpidRecovery.Recovery.Store
import QpidRecovery.Library.Loop
import QpidRecovery.Recovery.UrlParsing
import QpidRecovery.Library.EraseLoop
import QpidRecovery.Cluster.SocketLoops
import QpidRecovery.Common.SelectorArray
import QpidRecovery.Library.Calls
import QpidRecovery.Library.Chain
import QpidRecovery.Pingd.Table
import QpidRecovery.Proposer.Addresses
import QpidRecovery.Cluster.Announcements
import QpidRecovery.Cluster.Reroutes
import QpidRecovery.Library.Timer
import QpidRecovery.Proposer.Clients
import QpidRecovery.Heartbeat.Server
import QpidRecovery.Heartbeat.World
import QpidRecovery.Heartbeat.Tracking
import QpidRecovery.Heartbeat.Accuracy
import QpidRecovery.Heartbeat.Completeness
import QpidRecovery.Recovery.HeapLedger
import QpidRecovery.Pingd.Network
import QpidRecovery.Requestor.CommandLine
import QpidRecovery.Requestor.Recruits
