import MemStack.Agent.Types
import MemStack.Server.EventLog
import MemStack.Util.Dict

/-!
This module contains the agent runs of the websocket clients of one process (`ActiveAgentRuns`,
`run_agent_message` and the handling of `SendMessage` and `StopSession` in `agent_ws.rs`). A step goes from one
await to the next.
-/

namespace MemStack
namespace Server

open Agent (SessionStatus)

namespace AgentEventType

def userMessage : AgentEventType := ⟨"user_message", by decide⟩

def start : AgentEventType := ⟨"start", by decide⟩

def act : AgentEventType := ⟨"act", by decide⟩

def observe : AgentEventType := ⟨"observe", by decide⟩

def assistantMessage : AgentEventType := ⟨"assistant_message", by decide⟩

def clarificationAsked : AgentEventType := ⟨"clarification_asked", by decide⟩

def complete : AgentEventType := ⟨"complete", by decide⟩

def error : AgentEventType := ⟨"error", by decide⟩

def cancelled : AgentEventType := ⟨"cancelled", by decide⟩

def isTerminal (eventType : AgentEventType) : Bool :=
  eventType = complete || eventType = error || eventType = cancelled

end AgentEventType

def agentTerminalEventType : SessionStatus → Option AgentEventType
  | .finished => some .complete
  | .failed => some .error
  | _ => none

inductive Observation where
  | toolCall
  | toolResult
  | toolError
  | finish
  | humanRequest
  deriving DecidableEq, Repr

def Observation.eventType : Observation → AgentEventType
  | .toolCall => .act
  | .toolResult => .observe
  | .toolError => .observe
  | .finish => .assistantMessage
  | .humanRequest => .clarificationAsked

-- The calls of `append_event` in `run_agent_message`.
inductive MessageAppend where
  | userMessage
  | start
  | terminal (eventType : AgentEventType)
  deriving DecidableEq, Repr

def MessageAppend.eventType : MessageAppend → AgentEventType
  | .userMessage => .userMessage
  | .start => .start
  | .terminal eventType => eventType

inductive RunPlace where
  -- The run has its generation and waits for the lock. Its task is not spawned yet.
  | register
  | publish (append : MessageAppend)
  | insert (append : MessageAppend)
  | engine
  -- `run_agent_message` has returned an error.
  | publishError
  | insertError
  | finish
  | ended
  deriving DecidableEq, Repr

-- The places in `run_agent_message`.
def RunPlace.abortable : RunPlace → Bool
  | .publish _ | .insert _ | .engine => true
  | _ => false

def MessageAppend.next : MessageAppend → RunPlace
  | .userMessage => .publish .start
  | .start => .engine
  | .terminal _ => .finish

structure AgentRun where
  conversationId : String
  generation : Nat
  aborted : Bool := false
  place : RunPlace := .register
  -- Whether the task has appended a terminal event to the stream.
  reported : Bool := false
  deriving DecidableEq, Repr

inductive Outcome where
  | appended (ok : Bool)
  | observed (observation : Observation)
  | returned (status : Option SessionStatus)
  deriving DecidableEq, Repr

namespace AgentRun

variable (r : AgentRun)

def published (eventType : AgentEventType) (place : RunPlace) : AgentRun × Option AgentEventType :=
  ({ r with place, reported := r.reported || eventType.isTerminal }, some eventType)

def proceed (outcome : Outcome) : AgentRun × Option AgentEventType :=
  if r.aborted && r.place.abortable then ({ r with place := .finish }, none)
  else
    match r.place, outcome with
    | .publish append, .appended true => r.published append.eventType (.insert append)
    | .publish _, .appended false => ({ r with place := .publishError }, none)
    | .insert append, .appended true => ({ r with place := append.next }, none)
    | .insert _, .appended false => ({ r with place := .publishError }, none)
    | .engine, .observed observation => r.published observation.eventType .engine
    | .engine, .returned none => ({ r with place := .publishError }, none)
    | .engine, .returned (some status) =>
      match agentTerminalEventType status with
      | none => ({ r with place := .finish }, none)
      | some eventType => ({ r with place := .publish (.terminal eventType) }, none)
    | .publishError, .appended true => r.published .error .insertError
    | .publishError, .appended false => ({ r with place := .finish }, none)
    | .insertError, .appended _ => ({ r with place := .finish }, none)
    | _, _ => (r, none)

end AgentRun

structure ActiveAgentRun where
  generation : Nat
  -- The run that the handle aborts.
  abortHandle : Nat
  deriving DecidableEq, Repr

-- A `StopSession` that has removed a run.
structure Stop where
  conversationId : String
  run : Nat
  place : Place := .counted
  deriving DecidableEq, Repr

structure RunEvent where
  conversationId : String
  eventType : AgentEventType
  -- The run that the event is about.
  run : Nat
  deriving DecidableEq, Repr

structure AgentRuns where
  runs : Dict String ActiveAgentRun := Dict.empty
  generation : Nat := 0
  tasks : List AgentRun := []
  stops : List Stop := []
  stream : List RunEvent := []

inductive RunsRequest where
  | sendMessage (conversationId : String)
  | register (run : Nat)
  | proceed (run : Nat) (outcome : Outcome)
  | finish (run : Nat)
  | stopSession (conversationId : String)
  | publishCancelled (stop : Nat) (ok : Bool)
  | insertCancelled (stop : Nat) (ok : Bool)
  deriving Repr

inductive RunsReply where
  | goesOn
  | ack (action : String)
  | stopError (message code : String)
  deriving DecidableEq, Repr

namespace AgentRuns

variable (s : AgentRuns)

def setTask (run : Nat) (r : AgentRun) : AgentRuns :=
  { s with tasks := s.tasks.set run r }

def abort (run : Nat) : AgentRuns :=
  match s.tasks[run]? with
  | none => s
  | some r => s.setTask run { r with aborted := true }

def abortPrevious : Option ActiveAgentRun → AgentRuns
  | none => s
  | some previous => s.abort previous.abortHandle

-- The part of `register` that holds the lock. The task is spawned before the next await.
def register (run : Nat) (r : AgentRun) : AgentRuns :=
  let previous := s.runs.get r.conversationId
  let s := { s with runs := s.runs.set r.conversationId { generation := r.generation, abortHandle := run } }
  (s.abortPrevious previous).setTask run { r with place := .publish .userMessage }

def cancel (conversationId : String) : Option (AgentRuns × Nat) :=
  match s.runs.get conversationId with
  | none => none
  | some active =>
    let s := { s with runs := s.runs.erase conversationId }
    some (s.abort active.abortHandle, active.abortHandle)

def finish (conversationId : String) (generation : Nat) : AgentRuns :=
  match s.runs.get conversationId with
  | none => s
  | some active =>
    if active.generation ≠ generation then s else { s with runs := s.runs.erase conversationId }

def append (conversationId : String) (run : Nat) : Option AgentEventType → AgentRuns
  | none => s
  | some eventType => { s with stream := s.stream ++ [{ conversationId, eventType, run }] }

def setStop (stop : Nat) (k : Stop) (place : Place) : AgentRuns :=
  { s with stops := s.stops.set stop { k with place } }

def stopFailed : RunsReply :=
  .stopError "Failed to stop session" "STOP_SESSION_FAILED"

def publishCancelled (stop : Nat) (k : Stop) (ok : Bool) : AgentRuns × RunsReply :=
  if ok then ((s.append k.conversationId k.run (some .cancelled)).setStop stop k .published, .goesOn)
  else (s.setStop stop k .rejected, stopFailed)

def insertCancelled (stop : Nat) (k : Stop) (ok : Bool) : AgentRuns × RunsReply :=
  if ok then (s.setStop stop k .stored, .ack "stop_session") else (s.setStop stop k .lost, stopFailed)

def step (s : AgentRuns) : RunsRequest → AgentRuns × RunsReply
  | .sendMessage conversationId =>
    ({ s with
        generation := s.generation + 1
        tasks := s.tasks ++ [{ conversationId, generation := s.generation + 1 }] },
      .ack "send_message")
  | .register run =>
    match s.tasks[run]? with
    | some r => if r.place = .register then (s.register run r, .goesOn) else (s, .goesOn)
    | none => (s, .goesOn)
  | .proceed run outcome =>
    match s.tasks[run]? with
    | some r => ((s.append r.conversationId run (r.proceed outcome).2).setTask run (r.proceed outcome).1, .goesOn)
    | none => (s, .goesOn)
  | .finish run =>
    match s.tasks[run]? with
    | some r =>
      if r.place = .finish then
        ((s.finish r.conversationId r.generation).setTask run { r with place := .ended }, .goesOn)
      else (s, .goesOn)
    | none => (s, .goesOn)
  | .stopSession conversationId =>
    match s.cancel conversationId with
    | none => (s, .stopError "No running session found to stop" "SESSION_NOT_RUNNING")
    | some (s, run) => ({ s with stops := s.stops ++ [{ conversationId, run }] }, .goesOn)
  | .publishCancelled stop ok =>
    match s.stops[stop]? with
    | some k => if k.place = .counted then s.publishCancelled stop k ok else (s, .goesOn)
    | none => (s, .goesOn)
  | .insertCancelled stop ok =>
    match s.stops[stop]? with
    | some k => if k.place = .published then s.insertCancelled stop k ok else (s, .goesOn)
    | none => (s, .goesOn)

end AgentRuns

end Server
end MemStack
