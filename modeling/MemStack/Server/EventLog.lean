import MemStack.Util.Machine
import MemStack.Util.Text

/-!
This module contains the servers that append agent events to shared conversations (`append_event` of
`agent_ws.rs`), with the table that keeps the events (`conversation_events_repo.rs`). Counting, publishing to
the stream and inserting are separate steps. A process that stops takes no more steps.
-/

namespace MemStack
namespace Server

def fnv1a (input : String) : UInt64 :=
  input.toUTF8.toList.foldl (fun hash byte => (hash ^^^ byte.toUInt64) * 0x100000001b3) 0xcbf29ce484222325

def hex (digits n : Nat) : String :=
  String.ofList ((Nat.toDigits 16 n).leftpad digits '0')

def deriveEventId (seed : String) : String :=
  "evt_" ++ hex 12 (fnv1a seed &&& 0x0000ffffffffffff).toNat

example : deriveEventId "" = "evt_9ce484222325" := by decide +kernel

structure AgentEventType where
  asStr : String
  colonFree : ':' ∉ asStr.toList
  deriving DecidableEq, Repr

structure EventData (D : Type) where
  messageId : Option String
  fields : D
  deriving DecidableEq, Repr

structure EventEnvelope (D : Type) where
  schemaVersion : String := "1.0"
  eventId : String
  eventType : String
  timestamp : String
  source : String := "memstack"
  correlationId : Option String
  causationId : Option String := none
  payload : EventData D
  deriving DecidableEq, Repr

structure StreamEvent (D : Type) where
  conversationId : String
  eventType : String
  data : EventData D
  eventTimeUs : Int
  eventCounter : UInt64
  envelope : EventEnvelope D
  deriving DecidableEq, Repr

structure AgentExecutionEvent (D : Type) where
  id : String
  conversationId : String
  messageId : Option String
  eventType : String
  eventData : EventData D
  eventTimeUs : Int
  eventCounter : Nat
  correlationId : Option String
  deriving DecidableEq, Repr

-- How far a call of `append_event` has come.
inductive Place where
  | counted
  -- The stream has not taken the event.
  | rejected
  | published
  | stored
  -- There is no table to write to.
  | unwritten
  -- The table has not taken the event.
  | lost
  deriving DecidableEq, Repr

structure AppendCall (D : Type) where
  process : Nat
  conversationId : String
  eventType : AgentEventType
  data : EventData D
  counter : UInt64
  eventTimeUs : Int
  timestamp : String
  place : Place
  deriving DecidableEq, Repr

namespace AppendCall

variable {D : Type} (c : AppendCall D)

def seed : String :=
  c.conversationId ++ ":" ++ c.eventType.asStr ++ ":" ++ toString c.counter.toNat

def eventId : String :=
  deriveEventId c.seed

def streamEvent : StreamEvent D where
  conversationId := c.conversationId
  eventType := c.eventType.asStr
  data := c.data
  eventTimeUs := c.eventTimeUs
  eventCounter := c.counter
  envelope := {
    eventId := c.eventId
    eventType := c.eventType.asStr
    timestamp := c.timestamp
    correlationId := some c.conversationId
    payload := c.data }

end AppendCall

def StreamEvent.record {D : Type} (event : StreamEvent D) : AgentExecutionEvent D where
  id := event.envelope.eventId
  conversationId := event.conversationId
  messageId := event.data.messageId
  eventType := event.eventType
  eventData := event.data
  eventTimeUs := event.eventTimeUs
  -- The column has 32 bits.
  eventCounter := min event.eventCounter.toNat 2147483647
  correlationId := event.data.messageId.or (some event.conversationId)

structure Process where
  writer : Bool
  eventCounter : UInt64 := 0
  deriving DecidableEq, Repr

structure Servers (D : Type) where
  processes : List Process := []
  calls : List (AppendCall D) := []
  stream : List (StreamEvent D) := []
  rows : List (AgentExecutionEvent D) := []
  deriving Repr

inductive ServersRequest (D : Type) where
  | start (writer : Bool)
  | count (process : Nat) (conversationId : String) (eventType : AgentEventType) (data : EventData D)
      (eventTimeUs : Int) (timestamp : String)
  | publish (call : Nat) (ok : Bool)
  | insert (call : Nat) (ok : Bool)
  deriving Repr

inductive ServersReply where
  | goesOn
  -- The call returns to the one that made it.
  | returned (call : Nat) (ok : Bool)
  deriving DecidableEq, Repr

namespace Servers

variable {D : Type} (s : Servers D)

def hasWriter (process : Nat) : Bool :=
  s.processes[process]?.any (·.writer)

def setPlace (call : Nat) (c : AppendCall D) (place : Place) : Servers D :=
  { s with calls := s.calls.set call { c with place } }

def started : ServersRequest D → Option (AppendCall D)
  | .count process conversationId eventType data eventTimeUs timestamp =>
    s.processes[process]?.map fun p =>
      { process, conversationId, eventType, data, counter := p.eventCounter + 1, eventTimeUs, timestamp,
        place := .counted }
  | _ => none

def count (request : ServersRequest D) : Servers D :=
  match s.started request with
  | none => s
  | some c =>
    { s with
      processes := s.processes.modify c.process fun p => { p with eventCounter := c.counter }
      calls := s.calls ++ [c] }

def publish (call : Nat) (c : AppendCall D) (ok : Bool) : Servers D × ServersReply :=
  if !ok then
    (s.setPlace call c .rejected, .returned call false)
  else
    let s := { s with stream := s.stream ++ [c.streamEvent] }
    if s.hasWriter c.process then (s.setPlace call c .published, .goesOn)
    else (s.setPlace call c .unwritten, .returned call true)

-- `INSERT .. ON CONFLICT (id) DO NOTHING`.
def insertEvent (record : AgentExecutionEvent D) : Servers D :=
  if s.rows.any (·.id = record.id) then s else { s with rows := s.rows ++ [record] }

def insert (call : Nat) (c : AppendCall D) (ok : Bool) : Servers D × ServersReply :=
  if !ok then (s.setPlace call c .lost, .returned call false)
  else ((s.insertEvent c.streamEvent.record).setPlace call c .stored, .returned call true)

def step (s : Servers D) : ServersRequest D → Servers D × ServersReply
  | .start writer => ({ s with processes := s.processes ++ [{ writer }] }, .goesOn)
  | .count process conversationId eventType data eventTimeUs timestamp =>
    (s.count (.count process conversationId eventType data eventTimeUs timestamp), .goesOn)
  | .publish call ok =>
    match s.calls[call]? with
    | some c => if c.place = .counted then s.publish call c ok else (s, .goesOn)
    | none => (s, .goesOn)
  | .insert call ok =>
    match s.calls[call]? with
    | some c => if c.place = .published then s.insert call c ok else (s, .goesOn)
    | none => (s, .goesOn)

end Servers

end Server
end MemStack
