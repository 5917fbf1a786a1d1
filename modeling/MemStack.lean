import MemStack.Util.PrefixLog
import MemStack.Util.Text
import MemStack.Util.Lists
import MemStack.Util.Machine
import MemStack.Util.Since
import MemStack.Util.Table
import MemStack.Util.Checked
import MemStack.Port.CoreError
import MemStack.Port.Prog
import MemStack.Sync.Impl
import MemStack.Sync.Lemmas
import MemStack.Sync.View
import MemStack.Sync.Gossip
import MemStack.Sync.Delivery
import MemStack.Agent.Types
import MemStack.Agent.DoomLoop
import MemStack.Agent.React.Impl
import MemStack.Agent.React.Session
import MemStack.Agent.React.Keeps
import MemStack.Agent.React.Checkpoints
import MemStack.Agent.React.Human
import MemStack.Agent.React.Budget
import MemStack.Agent.React.Steering
import MemStack.Agent.React.Replay
import MemStack.Agent.React.CrashSafe
import MemStack.Agent.Plan
import MemStack.Agent.Orchestrator
import MemStack.Plugin.Profile
import MemStack.Plugin.Registry
import MemStack.Plugin.DataPlane
import MemStack.Plugin.Convergence
import MemStack.Plugin.Host
import MemStack.Graph.Impl
import MemStack.Graph.Orchestrator
import MemStack.Graph.Lemmas
import MemStack.Graph.Settled
import MemStack.Graph.Valid
import MemStack.Graph.Progress
import MemStack.Graph.Spawns
import MemStack.Graph.Concurrent
import MemStack.Workspace.Plan
import MemStack.Workspace.Valid
import MemStack.Workspace.Sprint
import MemStack.Workspace.Lemmas
import MemStack.Workspace.Barriers
import MemStack.Workspace.Planner
import MemStack.Workspace.Layered
import MemStack.Workspace.Append
import MemStack.Workspace.Replan
import MemStack.Workspace.Acyclic
import MemStack.Workspace.Review
import MemStack.Workspace.Accepted
import MemStack.Workspace.Reviewed
import MemStack.Util.Json
import MemStack.Util.JsonLemmas
import MemStack.Agent.Context.Compression
import MemStack.Agent.Context.Coverage
import MemStack.Agent.Context.NothingLost
import MemStack.Workspace.WtpEnvelope
import MemStack.Sandbox.PoolClosed
import MemStack.Agent.Control.Delivery
import MemStack.Agent.Control.Consume
import MemStack.Agent.Hitl.Answers
import MemStack.Agent.Hitl.Released
import MemStack.Agent.Subagent.Background
import MemStack.Agent.Subagent.Terminal
import MemStack.Agent.Subagent.ParallelScheduler
import MemStack.Agent.Subagent.ParallelSchedulerRuns
import MemStack.Sandbox.PoolSafe
import MemStack.Agent.Control.Channel
import MemStack.Cron.Owner
import MemStack.Cron.OperationRuns
import MemStack.Cron.ScheduleFire
import MemStack.Cron.ScheduleFireSteps
import MemStack.Cron.ScheduleFired
import MemStack.Cron.ControlIsolated
import MemStack.Cron.Fenced
import MemStack.Workspace.Outbox
import MemStack.Workspace.OutboxStranded
import MemStack.Workspace.OutboxLeases
import MemStack.Server.EventLog
import MemStack.Server.EventLogStored
import MemStack.Server.AgentRuns
import MemStack.Server.AgentRunsSafe
import MemStack.Util.Cursor
import MemStack.Server.Subscriptions
import MemStack.Server.SubscriptionsReplay
import MemStack.Server.SubscriptionsFilter
import MemStack.Server.TerminalHub
import MemStack.Server.TerminalHubContiguous
import MemStack.Llm.CircuitBreaker
import MemStack.Util.Semaphore
import MemStack.Llm.RateLimiter
import MemStack.Llm.RedisRateLimiterRuns
import MemStack.Workspace.TaskAttempts
import MemStack.Workspace.DispatchReports
import MemStack.Agent.Spawn.Manager
import MemStack.Agent.Spawn.Depth
import MemStack.Agent.Spawn.DepthKept
import MemStack.Agent.Spawn.CascadeOrder
import MemStack.Agent.Spawn.Mirror
import MemStack.Agent.Spawn.Cascade
import MemStack.Agent.SubagentRuns.Run
import MemStack.Agent.SubagentRuns.Registry
import MemStack.Agent.SubagentRuns.Lemmas
import MemStack.Agent.SubagentRuns.Lifecycle
import MemStack.Agent.SubagentRuns.Lineage
import MemStack.Agent.SubagentRuns.Repository
import MemStack.Agent.SubagentRuns.Hybrid
import MemStack.Messaging.DeadLetterQueue
import MemStack.Messaging.DeadLetterQueueRuns
import MemStack.Util.DictCount
import MemStack.Agent.Pool.CircuitBreaker
import MemStack.Agent.Pool.CircuitBreakerRuns
import MemStack.Agent.Hitl.RequestStore
import MemStack.Agent.Hitl.RequestStoreFenced
import MemStack.Agent.Hitl.LocalResume
import MemStack.Agent.Hitl.LocalResumeOnce
import MemStack.Agent.Hitl.ReclaimPass
import MemStack.Cron.ReconcileAdmission
import MemStack.Agent.Pool.Instance
import MemStack.Agent.Pool.ResourceManager
import MemStack.Agent.Pool.Manager
import MemStack.Agent.Pool.ManagerAccounted
import MemStack.Agent.Pool.ManagerRuns
import MemStack.Agent.SubagentRuns.Snapshot
import MemStack.Agent.SubagentRuns.SnapshotRoundTrip
import MemStack.Agent.Subagent.ParallelSchedulerEvents
import MemStack.Util.Bfs
import MemStack.Workspace.PlanTree
import MemStack.Util.Heap
import MemStack.Agent.SubagentRuns.Descendants
import MemStack.Agent.Context.Pruning
import MemStack.Agent.Context.PruningTokens
import MemStack.Util.Glob
import MemStack.Agent.Permission.Rules
import MemStack.Workspace.Decomposed
import MemStack.Util.OnePass
import MemStack.Workspace.Invalidate
import MemStack.Util.Kahn
import MemStack.Workspace.Progress
import MemStack.Util.Incumbent
import MemStack.Workspace.Allocator
import MemStack.Gateway.Routing
import MemStack.Util.Utf8
import MemStack.Agent.Tools.Truncation
import MemStack.Util.Windows
import MemStack.Memory.Chunker
import MemStack.Agent.Subagent.ChainTemplate
import MemStack.Trace.RunDigest
import MemStack.Trace.RunDigestExact
import MemStack.Util.Modularity
import MemStack.Memory.Community
import MemStack.Memory.CommunityGraph
import MemStack.Memory.CommunityMoves
import MemStack.Memory.CommunityPartition
import MemStack.Memory.CommunityDetected
import MemStack.Memory.CommunityOptimal
import MemStack.Workspace.CanonicalStory
import MemStack.Cron.ScheduleChecked
import MemStack.Cron.SchedulePanics
import MemStack.Server.TerminalHubGaps
import MemStack.Agent.Harness
import MemStack.Agent.Tools.LocalFiles
import MemStack.Util.Lines
import MemStack.Agent.Tools.LocalEdits
import MemStack.Agent.Tools.LocalAst
import MemStack.Sandbox.Patch
import MemStack.Sandbox.PatchApplied
import MemStack.Sandbox.PatchFitted
import MemStack.Sandbox.ScanFiles
import MemStack.Messaging.DeadLetterQueueCleanup
import MemStack.Workspace.PipelineFeedback
import MemStack.Workspace.PipelineGate
import MemStack.Util.Claims
import MemStack.Workspace.DispatchScopes
import MemStack.Util.LineFeed
import MemStack.Llm.EventStream
