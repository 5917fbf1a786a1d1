import MemStack.Agent.SubagentRuns.Run
import MemStack.Util.Machine

/-!
This module contains the registry of the runs of subagents (`agent/subagent/run_registry.py`): the
operations that change it, what they evict, and what is read back from where the runs are persisted. An
operation works on the runs that it has loaded and says which runs it has written.
-/

namespace MemStack
namespace Agent
namespace SubagentRuns

variable {F : Type}

abbrev Bucket (F : Type) := Dict String (SubAgentRun F)

abbrev Conversations (F : Type) := Dict String (Bucket F)

namespace Conversations

def find (runs : Conversations F) (conversationId runId : String) : Option (SubAgentRun F) :=
  (runs.get conversationId).bind (·.get runId)

def bucket (runs : Conversations F) (conversationId : String) : Bucket F :=
  (runs.get conversationId).getD .empty

end Conversations

structure RegistryConfig where
  maxRunsPerConversation : Int
  terminalRetentionSeconds : Int

namespace RegistryConfig

variable (config : RegistryConfig)

def maxRuns : Nat :=
  (max 1 config.maxRunsPerConversation).toNat

def retention : Int :=
  max 0 config.terminalRetentionSeconds * 1000000

def expired (now : Int) (run : SubAgentRun F) : Bool :=
  !run.status.isActive && run.endTime ≤ now - config.retention

def evictExpiredTerminalRuns (now : Int) (bucket : Bucket F) : Bucket F :=
  if config.retention ≤ 0 then bucket
  else bucket.eraseAll ((bucket.values.filter (config.expired now)).map (·.runId))

def evictOldest (bucket : Bucket F) : List (SubAgentRun F) → Bucket F
  | [] => bucket
  | toRemove :: terminalRuns =>
    if bucket.values.length ≤ config.maxRuns then bucket
    else evictOldest (bucket.erase toRemove.runId) terminalRuns

def terminalRuns (bucket : Bucket F) : List (SubAgentRun F) :=
  (bucket.values.filter (!·.status.isActive)).insertionSort fun a b => a.endTime ≤ b.endTime

def evictIfNeeded (now : Int) (bucket : Bucket F) : Bucket F :=
  let bucket := config.evictExpiredTerminalRuns now bucket
  if bucket.values.length ≤ config.maxRuns then bucket
  else config.evictOldest bucket (terminalRuns bucket)

-- The new runs of `_upsert_locked`, which it also persists.
def upsertLocked (now : Int) (runs : Conversations F) (run : SubAgentRun F) : Conversations F :=
  runs.set run.conversationId
    (config.evictIfNeeded now ((runs.bucket run.conversationId).set run.runId run))

end RegistryConfig

def protectedMetadataKeys : List String :=
  ["requester_session_key", "parent_run_id", "lineage_root_run_id"]

def stripProtectedMetadata (metadata : Dict String (Json F)) : Dict String (Json F) :=
  metadata.eraseAll protectedMetadataKeys

-- The keys are named in the order of `sorted`.
def ensureNoProtectedMetadataUpdates (metadata : Dict String (Json F)) : Except String Unit :=
  let protectedKeys := ["lineage_root_run_id", "parent_run_id", "requester_session_key"].filter (· ∈ metadata.keys)
  Checked.ensure (protectedKeys = [])
    ("Cannot update protected run metadata keys: " ++ ", ".intercalate protectedKeys)

-- `written` are the runs that the operation persists, if it does.
structure Outcome (F : Type) where
  reply : Except String (Option (SubAgentRun F))
  written : Option (Conversations F)

structure Clock where
  now : Int
  evicts : Int

section Operations

variable (config : RegistryConfig) (clock : Clock) (runs : Conversations F)

def mutateRun (conversationId runId : String) (expectedStatuses : List SubAgentRunStatus)
    (mutator : SubAgentRun F → Except String (SubAgentRun F)) : Outcome F :=
  match runs.find conversationId runId with
  | none => ⟨.ok none, none⟩
  | some run =>
    if expectedStatuses ≠ [] ∧ run.status ∉ expectedStatuses then ⟨.ok none, none⟩
    else
      match mutator run with
      | .error _ => ⟨.ok none, none⟩
      | .ok updated => ⟨.ok (some updated), some (config.upsertLocked clock.evicts runs updated)⟩

def setText (key : String) (text : Option String) (metadata : Dict String (Json F)) : Dict String (Json F) :=
  match text.filter (· ≠ "") with
  | some text => metadata.set key (.str text)
  | none => metadata

def SubAgentRun.rooted [PyFloat F] (run : SubAgentRun F) : SubAgentRun F :=
  if (run.metadata.get "lineage_root_run_id").any Json.truthy then run
  else { run with metadata := run.metadata.set "lineage_root_run_id" (.str run.runId) }

def createdMetadata (metadata : Dict String (Json F))
    (requesterSessionKey parentRunId lineageRootRunId : Option String) : Dict String (Json F) :=
  setText "lineage_root_run_id" lineageRootRunId
    (setText "parent_run_id" parentRunId
      (setText "requester_session_key" requesterSessionKey (stripProtectedMetadata metadata)))

def createRun [PyFloat F] (conversationId subagentName task : String) (metadata : Dict String (Json F))
    (runId : String) (requesterSessionKey parentRunId lineageRootRunId : Option String) : Outcome F :=
  match SubAgentRun.create runId conversationId subagentName task
      (createdMetadata metadata requesterSessionKey parentRunId lineageRootRunId) clock.now with
  | .error e => ⟨.error e, none⟩
  | .ok run => ⟨.ok (some run.rooted), some (config.upsertLocked clock.evicts runs run.rooted)⟩

def markRunning (conversationId runId : String) (metadata : Dict String (Json F))
    (expectedStatuses : List SubAgentRunStatus) : Outcome F :=
  mutateRun config clock runs conversationId runId expectedStatuses fun run =>
    (run.start clock.now).map (·.withMetadata metadata)

def markCompleted (conversationId runId : String) (summary : Option String)
    (tokensUsed executionTimeMs : Option Int) (metadata : Dict String (Json F))
    (expectedStatuses : List SubAgentRunStatus) : Outcome F :=
  mutateRun config clock runs conversationId runId expectedStatuses fun run =>
    (run.complete summary tokensUsed executionTimeMs clock.now).map (·.withMetadata metadata)

def markFailed (conversationId runId error : String) (executionTimeMs : Option Int)
    (metadata : Dict String (Json F)) (expectedStatuses : List SubAgentRunStatus) : Outcome F :=
  mutateRun config clock runs conversationId runId expectedStatuses fun run =>
    (run.fail error executionTimeMs clock.now).map (·.withMetadata metadata)

def markCancelled (conversationId runId : String) (reason : Option String) (metadata : Dict String (Json F))
    (expectedStatuses : List SubAgentRunStatus) : Outcome F :=
  mutateRun config clock runs conversationId runId expectedStatuses fun run =>
    (run.cancel reason clock.now).map (·.withMetadata metadata)

def markTimedOut (conversationId runId reason : String) (metadata : Dict String (Json F))
    (expectedStatuses : List SubAgentRunStatus) : Outcome F :=
  mutateRun config clock runs conversationId runId expectedStatuses fun run =>
    (run.timeOut reason clock.now).map (·.withMetadata metadata)

def attachMetadata (conversationId runId : String) (metadata : Dict String (Json F))
    (expectedStatuses : List SubAgentRunStatus) : Outcome F :=
  match ensureNoProtectedMetadataUpdates metadata with
  | .error e => ⟨.error e, none⟩
  | .ok () =>
    mutateRun config clock runs conversationId runId expectedStatuses fun run => .ok (run.withMetadata metadata)

def setTraceContext (conversationId runId traceId : String) (parentSpanId : Option String)
    (expectedStatuses : List SubAgentRunStatus) : Outcome F :=
  mutateRun config clock runs conversationId runId expectedStatuses fun run =>
    run.withTraceContext traceId parentSpanId

end Operations

inductive Operation (F : Type) where
  | createRun (conversationId subagentName task : String) (metadata : Dict String (Json F)) (runId : String)
    (requesterSessionKey parentRunId lineageRootRunId : Option String)
  | markRunning (conversationId runId : String) (metadata : Dict String (Json F))
    (expectedStatuses : List SubAgentRunStatus)
  | markCompleted (conversationId runId : String) (summary : Option String)
    (tokensUsed executionTimeMs : Option Int) (metadata : Dict String (Json F))
    (expectedStatuses : List SubAgentRunStatus)
  | markFailed (conversationId runId error : String) (executionTimeMs : Option Int)
    (metadata : Dict String (Json F)) (expectedStatuses : List SubAgentRunStatus)
  | markCancelled (conversationId runId : String) (reason : Option String) (metadata : Dict String (Json F))
    (expectedStatuses : List SubAgentRunStatus)
  | markTimedOut (conversationId runId reason : String) (metadata : Dict String (Json F))
    (expectedStatuses : List SubAgentRunStatus)
  | attachMetadata (conversationId runId : String) (metadata : Dict String (Json F))
    (expectedStatuses : List SubAgentRunStatus)
  | setTraceContext (conversationId runId traceId : String) (parentSpanId : Option String)
    (expectedStatuses : List SubAgentRunStatus)

def Operation.run [PyFloat F] (config : RegistryConfig) (clock : Clock) (runs : Conversations F)
    : Operation F → Outcome F
  | .createRun conversationId subagentName task metadata runId requesterSessionKey parentRunId lineageRootRunId =>
    SubagentRuns.createRun config clock runs conversationId subagentName task metadata runId requesterSessionKey
      parentRunId lineageRootRunId
  | .markRunning conversationId runId metadata expectedStatuses =>
    SubagentRuns.markRunning config clock runs conversationId runId metadata expectedStatuses
  | .markCompleted conversationId runId summary tokensUsed executionTimeMs metadata expectedStatuses =>
    SubagentRuns.markCompleted config clock runs conversationId runId summary tokensUsed executionTimeMs metadata
      expectedStatuses
  | .markFailed conversationId runId error executionTimeMs metadata expectedStatuses =>
    SubagentRuns.markFailed config clock runs conversationId runId error executionTimeMs metadata expectedStatuses
  | .markCancelled conversationId runId reason metadata expectedStatuses =>
    SubagentRuns.markCancelled config clock runs conversationId runId reason metadata expectedStatuses
  | .markTimedOut conversationId runId reason metadata expectedStatuses =>
    SubagentRuns.markTimedOut config clock runs conversationId runId reason metadata expectedStatuses
  | .attachMetadata conversationId runId metadata expectedStatuses =>
    SubagentRuns.attachMetadata config clock runs conversationId runId metadata expectedStatuses
  | .setTraceContext conversationId runId traceId parentSpanId expectedStatuses =>
    SubagentRuns.setTraceContext config clock runs conversationId runId traceId parentSpanId expectedStatuses

def SubAgentRun.settled (run : SubAgentRun F) : SubAgentRun F :=
  { run with
    summary := run.summary.filter (· ≠ "")
    error := run.error.filter (· ≠ "")
    frozenResultText := run.frozenResultText.filter (· ≠ "")
    traceId := run.traceId.filter (· ≠ "")
    parentSpanId := run.parentSpanId.filter (· ≠ "") }

def Conversations.settled (runs : Conversations F) : Conversations F :=
  (runs.mapValues (·.mapValues SubAgentRun.settled)).eraseAll
    ((runs.entries.filter (·.2.values.isEmpty)).map Prod.fst)

inductive Storage where
  | memory
  | snapshot

def Storage.settle : Storage → Conversations F → Conversations F
  | .memory, runs => runs
  | .snapshot, runs => runs.settled

structure Stored (F : Type) where
  runs : Conversations F

structure Request (F : Type) where
  operation : Operation F
  clock : Clock

namespace Stored

variable [PyFloat F]

def empty : Stored F :=
  ⟨.empty⟩

def registryStep (config : RegistryConfig) (storage : Storage) (s : Stored F) (request : Request F)
    : Stored F × Except String (Option (SubAgentRun F)) :=
  let loaded := storage.settle s.runs
  let outcome := request.operation.run config request.clock loaded
  (⟨outcome.written.getD loaded⟩, outcome.reply)

def step (config : RegistryConfig) (storage : Storage) (s : Stored F) (request : Request F)
    : Stored F × Except String (Option (SubAgentRun F)) :=
  let outcome := request.operation.run config request.clock s.runs
  (⟨(outcome.written.map storage.settle).getD s.runs⟩, outcome.reply)

abbrev Entry (F : Type) := Machine.Entry (Stored F) (Request F) (Except String (Option (SubAgentRun F)))

end Stored

end SubagentRuns
end Agent
end MemStack
