import MemStack.Util.Checked
import MemStack.Util.Json
import MemStack.Util.Text

/-!
This module contains the runs of subagents (`domain/model/agent/subagent_run.py`) and their transitions.
Times are in microseconds.
-/

namespace MemStack
namespace Agent
namespace SubagentRuns

open Checked

inductive SubAgentRunStatus where
  | pending
  | running
  | completed
  | failed
  | cancelled
  | timedOut
  deriving DecidableEq, Repr

namespace SubAgentRunStatus

def value : SubAgentRunStatus → String
  | .pending => "pending"
  | .running => "running"
  | .completed => "completed"
  | .failed => "failed"
  | .cancelled => "cancelled"
  | .timedOut => "timed_out"

-- `_ACTIVE_STATUSES`
def isActive : SubAgentRunStatus → Bool
  | .pending => true
  | .running => true
  | _ => false

end SubAgentRunStatus

inductive AnnounceState where
  | pending
  | announcing
  | announced
  | failed
  | expired
  deriving DecidableEq, Repr

def isBlank (s : String) : Bool :=
  Text.strip s = ""

structure SubAgentRun (F : Type) where
  conversationId : String
  subagentName : String
  task : String
  runId : String
  status : SubAgentRunStatus := .pending
  createdAt : Int
  startedAt : Option Int := none
  endedAt : Option Int := none
  summary : Option String := none
  error : Option String := none
  executionTimeMs : Option Int := none
  tokensUsed : Option Int := none
  metadata : Dict String (Json F) := .empty
  frozenResultText : Option String := none
  frozenAt : Option Int := none
  traceId : Option String := none
  parentSpanId : Option String := none
  announceState : Option AnnounceState := none
  named : isBlank runId = false ∧ isBlank conversationId = false ∧ isBlank subagentName = false ∧
    isBlank task = false

namespace SubAgentRun

variable {F : Type}

def invalidTransition (source target : SubAgentRunStatus) : String :=
  s!"Invalid status transition: {source.value} -> {target.value}"

-- A new run, with the checks of `__post_init__`.
def create (runId conversationId subagentName task : String) (metadata : Dict String (Json F)) (now : Int)
    : Except String (SubAgentRun F) :=
  if hrun : isBlank runId = true then .error "run_id cannot be empty"
  else if hconversation : isBlank conversationId = true then .error "conversation_id cannot be empty"
  else if hname : isBlank subagentName = true then .error "subagent_name cannot be empty"
  else if htask : isBlank task = true then .error "task cannot be empty"
  else
    .ok {
      conversationId, subagentName, task, runId, metadata
      createdAt := now
      named := by
        simp only [Bool.not_eq_true] at hrun hconversation hname htask
        exact ⟨hrun, hconversation, hname, htask⟩
    }

variable (run : SubAgentRun F)

def start (now : Int) : Except String (SubAgentRun F) := do
  ensure (run.status = .pending) (invalidTransition run.status .running)
  return { run with
    status := .running
    startedAt := some now
    endedAt := none
    error := none }

def complete (summary : Option String) (tokensUsed executionTimeMs : Option Int) (now : Int)
    : Except String (SubAgentRun F) := do
  ensure (run.status = .running) (invalidTransition run.status .completed)
  return { run with
    status := .completed
    endedAt := some now
    summary := summary.or run.summary
    tokensUsed := tokensUsed.or run.tokensUsed
    executionTimeMs := executionTimeMs.or run.executionTimeMs
    error := none }

def fail (error : String) (executionTimeMs : Option Int) (now : Int) : Except String (SubAgentRun F) := do
  ensure (run.status = .running) (invalidTransition run.status .failed)
  return { run with
    status := .failed
    endedAt := some now
    error := some error
    executionTimeMs := executionTimeMs.or run.executionTimeMs }

def cancel (reason : Option String) (now : Int) : Except String (SubAgentRun F) := do
  ensure (run.status.isActive = true) (invalidTransition run.status .cancelled)
  return { run with
    status := .cancelled
    endedAt := some now
    error := (reason.filter (· ≠ "")).or run.error }

def timeOut (reason : String) (now : Int) : Except String (SubAgentRun F) := do
  ensure (run.status.isActive = true) (invalidTransition run.status .timedOut)
  return { run with
    status := .timedOut
    endedAt := some now
    error := some reason }

def withTraceContext (traceId : String) (parentSpanId : Option String) : Except String (SubAgentRun F) := do
  ensure (run.status = .pending)
    s!"Cannot set trace context in status {run.status.value}; must be pending"
  ensure (Text.strip traceId ≠ "") "trace_id cannot be empty"
  return { run with
    traceId := some (Text.strip traceId)
    parentSpanId := (parentSpanId.map Text.strip).filter (· ≠ "") }

-- `replace(run, metadata={**run.metadata, **metadata})`
def withMetadata (metadata : Dict String (Json F)) : SubAgentRun F :=
  { run with metadata := run.metadata.update metadata }

-- The time by which terminal runs are ordered, `run.ended_at or run.created_at`.
def endTime : Int :=
  run.endedAt.getD run.createdAt

end SubAgentRun

end SubagentRuns
end Agent
end MemStack
