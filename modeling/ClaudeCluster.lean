import ClaudeCluster.Lib.Run
import ClaudeCluster.Lib.History
import ClaudeCluster.Raft.Runs
import ClaudeCluster.Raft.WellFormed
import ClaudeCluster.Raft.Elections
import ClaudeCluster.Raft.Matching
import ClaudeCluster.Raft.Agreement
import ClaudeCluster.Raft.CommitRule
import ClaudeCluster.Raft.Acknowledged
import ClaudeCluster.Raft.Listeners
import ClaudeCluster.Raft.Roles
import ClaudeCluster.Tasks.Replay
import ClaudeCluster.Tasks.Determinism
import ClaudeCluster.Tasks.Signalling
import ClaudeCluster.Tasks.Dependencies
import ClaudeCluster.Tasks.Confluence
import ClaudeCluster.Tasks.Evaluation
import ClaudeCluster.Tasks.Deadlock
import ClaudeCluster.Tasks.Interrupted
import ClaudeCluster.Tasks.Assignment
import ClaudeCluster.Tasks.Budget
import ClaudeCluster.Tasks.Dispatch
import ClaudeCluster.Tasks.Failover
import ClaudeCluster.Memory.ExactlyOnce
import ClaudeCluster.Memory.Forwarding
import ClaudeCluster.Membership.Reconfiguration
import ClaudeCluster.Update.Recovery
import ClaudeCluster.Tasks.Execution
import ClaudeCluster.Tasks.SchedulingCycle
import ClaudeCluster.Tasks.Listing
import ClaudeCluster.Memory.Thoughts
import ClaudeCluster.Memory.Snapshot
import ClaudeCluster.Membership.OneLeader
import ClaudeCluster.Membership.LeaderAddress
import ClaudeCluster.Memory.Checksums
import ClaudeCluster.Tasks.LegacyScheduler
import ClaudeCluster.Agent.TaskExecutor
import ClaudeCluster.Messaging.Gateway
import ClaudeCluster.Messaging.Conversation
import ClaudeCluster.Messaging.Chunks
import ClaudeCluster.Messaging.TelegramNesting
import ClaudeCluster.Health.Liveness
import ClaudeCluster.Providers.Router
import ClaudeCluster.Providers.Ollama
import ClaudeCluster.Discovery.Tailscale
import ClaudeCluster.Tasks.LegacyForwarding
import ClaudeCluster.Tasks.LegacyCoherence
import ClaudeCluster.Discovery.Approval
import ClaudeCluster.Security.JoinTokens
import ClaudeCluster.Security.Secrets
