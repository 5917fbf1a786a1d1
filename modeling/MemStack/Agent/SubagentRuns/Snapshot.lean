import MemStack.Agent.SubagentRuns.Registry
import MemStack.Util.JsonLemmas

/-!
This module contains the text of a snapshot of all runs: how the repositories (`run_repository.py`) and the JSON
file of the registry (`run_registry.py`) write it, and their two decoders. The time that is read for a run without
a time of its creation is one for the whole snapshot.
-/

namespace MemStack
namespace Agent
namespace SubagentRuns

inductive Raised where
  | valueError
  | typeError
  | overflowError

-- The datetimes of Python in UTC. A time without a zone is read as one in UTC.
class PyDatetime where
  isoformat : Int → String
  fromisoformat : String → Except Raised Int
  fromisoformat_isoformat : ∀ time, fromisoformat (isoformat time) = .ok time
  isoformat_not_blank : ∀ time, isBlank (isoformat time) = false

-- `repr` of a value, `int` of a number or a text, and whether a number equals 1.
class PyConversions (F : Type) extends PyFloat F where
  repr : Json F → String
  truncate : F → Except Raised Int
  intOfText : String → Except Raised Int
  isOne : F → Bool

def SubAgentRunStatus.ofValue : String → Option SubAgentRunStatus
  | "pending" => some .pending
  | "running" => some .running
  | "completed" => some .completed
  | "failed" => some .failed
  | "cancelled" => some .cancelled
  | "timed_out" => some .timedOut
  | _ => none

namespace AnnounceState

def value : AnnounceState → String
  | .pending => "pending"
  | .announcing => "announcing"
  | .announced => "announced"
  | .failed => "failed"
  | .expired => "expired"

def ofValue : String → Option AnnounceState
  | "pending" => some .pending
  | "announcing" => some .announcing
  | "announced" => some .announced
  | "failed" => some .failed
  | "expired" => some .expired
  | _ => none

end AnnounceState

variable {F : Type}

section Values

variable [PyConversions F]

-- `str(value)`
def pyStr : Json F → String
  | .str s => s
  | value => PyConversions.repr value

-- `int(value)`
def pyInt : Json F → Except Raised Int
  | .int n => .ok n
  | .bool b => .ok (if b then 1 else 0)
  | .float x => PyConversions.truncate x
  | .str s => PyConversions.intOfText F s
  | _ => .error .typeError

-- `value == 1`
def equalsOne : Json F → Bool
  | .int n => n = 1
  | .bool b => b
  | .float x => PyConversions.isOne x
  | _ => false

-- `payload.get(key)`
def field (payload : List (String × Json F)) (key : String) : Json F :=
  (Json.get payload key).getD .null

-- `str(value or "")`
def textOr (value : Json F) : String :=
  if value.truthy then pyStr value else ""

end Values

namespace SubAgentRun

variable [PyDatetime]

def textValue : Option String → Json F
  | some s => .str s
  | none => .null

def intValue : Option Int → Json F
  | some n => .int n
  | none => .null

def timeValue : Option Int → Json F
  | some time => .str (PyDatetime.isoformat time)
  | none => .null

def toEventData (run : SubAgentRun F) : List (String × Json F) :=
  [
    ("run_id", .str run.runId),
    ("conversation_id", .str run.conversationId),
    ("subagent_name", .str run.subagentName),
    ("task", .str run.task),
    ("status", .str run.status.value),
    ("created_at", .str (PyDatetime.isoformat run.createdAt)),
    ("started_at", timeValue run.startedAt),
    ("ended_at", timeValue run.endedAt),
    ("summary", textValue run.summary),
    ("error", textValue run.error),
    ("execution_time_ms", intValue run.executionTimeMs),
    ("tokens_used", intValue run.tokensUsed),
    ("metadata", .dict run.metadata.entries),
    ("frozen_result_text", textValue run.frozenResultText),
    ("frozen_at", timeValue run.frozenAt),
    ("trace_id", textValue run.traceId),
    ("parent_span_id", textValue run.parentSpanId),
    ("announce_state", textValue (run.announceState.map AnnounceState.value))
  ]

end SubAgentRun

def conversationsValue [PyDatetime] (runs : Conversations F) : Json F :=
  .dict (runs.mapValues fun bucket => Json.dict (bucket.mapValues fun run => Json.dict run.toEventData).entries).entries

-- The decoder of `run_repository.py`.
namespace RunRepository

variable [PyDatetime] [PyConversions F] (now : Int)

def serializeSnapshot (runs : Conversations F) : String :=
  Json.dumps false false (.dict [("version", .int 1), ("conversations", conversationsValue runs)])

def parseDatetime : Json F → Except Raised (Option Int)
  | .str value =>
    if isBlank value then .ok none
    else
      match PyDatetime.fromisoformat value with
      | .ok parsed => .ok (some parsed)
      | .error .valueError => .ok none
      | .error e => .error e
  | _ => .ok none

def optionalStr (value : Json F) : Option String :=
  if value.isNull then none
  else
    let text := pyStr value
    if text = "" then none else some text

def optionalInt (value : Json F) : Except Raised (Option Int) :=
  if value.isNull then .ok none
  else
    match pyInt value with
    | .ok n => .ok (some n)
    | .error .typeError => .ok none
    | .error .valueError => .ok none
    | .error e => .error e

def parseAnnounceState (value : Json F) : Option AnnounceState :=
  (optionalStr value).bind AnnounceState.ofValue

def deserializeRun : Json F → Option (SubAgentRun F)
  | .dict payload => do
    let status := (SubAgentRunStatus.ofValue (pyStr ((Json.get payload "status").getD (.str "pending")))).getD .pending
    let metadata := match field payload "metadata" with
      | .dict entries => Dict.empty.setAll entries
      | _ => .empty
    let createdAt ← (parseDatetime (field payload "created_at")).toOption
    let startedAt ← (parseDatetime (field payload "started_at")).toOption
    let endedAt ← (parseDatetime (field payload "ended_at")).toOption
    let executionTimeMs ← (optionalInt (field payload "execution_time_ms")).toOption
    let tokensUsed ← (optionalInt (field payload "tokens_used")).toOption
    let frozenAt ← (parseDatetime (field payload "frozen_at")).toOption
    let run ← (SubAgentRun.create (textOr (field payload "run_id")) (textOr (field payload "conversation_id"))
      (textOr (field payload "subagent_name")) (textOr (field payload "task")) metadata
      (createdAt.getD now)).toOption
    return { run with
      status, startedAt, endedAt, executionTimeMs, tokensUsed, frozenAt
      summary := optionalStr (field payload "summary")
      error := optionalStr (field payload "error")
      frozenResultText := optionalStr (field payload "frozen_result_text")
      traceId := optionalStr (field payload "trace_id")
      parentSpanId := optionalStr (field payload "parent_span_id")
      announceState := parseAnnounceState (field payload "announce_state") }
  | _ => none

def deserializeBucket (runPayloads : List (String × Json F)) : Bucket F :=
  Dict.empty.setAll (runPayloads.filterMap fun e => (deserializeRun now e.2).map fun run => (e.1, run))

def loadedBucket : String × Json F → Option (String × Bucket F)
  | (conversationId, .dict runPayloads) =>
    let bucket := deserializeBucket now runPayloads
    if bucket.values.isEmpty then none else some (conversationId, bucket)
  | _ => none

def deserializeBuckets (conversations : List (String × Json F)) : Conversations F :=
  Dict.empty.setAll (conversations.filterMap (loadedBucket now))

def deserializeSnapshot (payload : String) : Conversations F :=
  match Json.loadsInOrder payload with
  | some (.dict raw) =>
    if equalsOne (field raw "version") then
      match (Json.get raw "conversations").getD (.dict []) with
      | .dict conversations => deserializeBuckets now conversations
      | _ => .empty
    else .empty
  | _ => .empty

end RunRepository

-- The decoder of `run_registry.py`.
namespace RunRegistry

variable [PyDatetime] [PyConversions F] (now : Int)

def persistVersion : Int :=
  1

-- The text that `_persist_locked` writes to the file.
def persistLocked (runs : Conversations F) : String :=
  Json.dumps false false (.dict [("version", .int persistVersion), ("conversations", conversationsValue runs)])

def parseDatetime : Json F → Except Raised (Option Int)
  | .str value =>
    if isBlank value then .ok none
    else
      match PyDatetime.fromisoformat value with
      | .ok parsed => .ok (some parsed)
      | .error .valueError => .ok none
      | .error e => .error e
  | _ => .ok none

def optionalStr (value : Json F) : Option String :=
  if value.isNull then none
  else
    let text := pyStr value
    if text = "" then none else some text

def optionalInt (value : Json F) : Except Raised (Option Int) :=
  if value.isNull then .ok none
  else
    match pyInt value with
    | .ok n => .ok (some n)
    | .error .typeError => .ok none
    | .error .valueError => .ok none
    | .error e => .error e

def parseAnnounceState (value : Json F) : Option AnnounceState :=
  (optionalStr value).bind AnnounceState.ofValue

def deserializeRun : Json F → Option (SubAgentRun F)
  | .dict payload => do
    let status := (SubAgentRunStatus.ofValue (pyStr ((Json.get payload "status").getD (.str "pending")))).getD .pending
    let metadata := match field payload "metadata" with
      | .dict entries => Dict.empty.setAll entries
      | _ => .empty
    let createdAt ← (parseDatetime (field payload "created_at")).toOption
    let startedAt ← (parseDatetime (field payload "started_at")).toOption
    let endedAt ← (parseDatetime (field payload "ended_at")).toOption
    let executionTimeMs ← (optionalInt (field payload "execution_time_ms")).toOption
    let tokensUsed ← (optionalInt (field payload "tokens_used")).toOption
    let frozenAt ← (parseDatetime (field payload "frozen_at")).toOption
    let run ← (SubAgentRun.create (textOr (field payload "run_id")) (textOr (field payload "conversation_id"))
      (textOr (field payload "subagent_name")) (textOr (field payload "task")) metadata
      (createdAt.getD now)).toOption
    return { run with
      status, startedAt, endedAt, executionTimeMs, tokensUsed, frozenAt
      summary := optionalStr (field payload "summary")
      error := optionalStr (field payload "error")
      frozenResultText := optionalStr (field payload "frozen_result_text")
      traceId := optionalStr (field payload "trace_id")
      parentSpanId := optionalStr (field payload "parent_span_id")
      announceState := parseAnnounceState (field payload "announce_state") }
  | _ => none

def deserializeBucket (runs : List (String × Json F)) : Bucket F :=
  Dict.empty.setAll (runs.filterMap fun e => (deserializeRun now e.2).map fun run => (e.1, run))

def loadedBucket : String × Json F → Option (String × Bucket F)
  | (conversationId, .dict runs) =>
    let bucket := deserializeBucket now runs
    if bucket.values.isEmpty then none else some (conversationId, bucket)
  | _ => none

def deserializeConversations (conversations : List (String × Json F)) : Conversations F :=
  Dict.empty.setAll (conversations.filterMap (loadedBucket now))

def loadFromJsonFile (runs : Conversations F) (file : Option String) : Conversations F :=
  match file.bind Json.loadsInOrder with
  | some (.dict raw) =>
    if equalsOne (field raw "version") then
      match (Json.get raw "conversations").getD (.dict []) with
      | .dict conversations => deserializeConversations now conversations
      | _ => runs
    else runs
  | _ => runs

end RunRegistry

end SubagentRuns
end Agent
end MemStack
