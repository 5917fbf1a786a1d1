import MemStack.Util.Dict
import MemStack.Util.Json
import MemStack.Util.Machine

/-!
This module contains the dead letter queue that is kept in Redis (`redis_dlq.py`). Its operations run one at
a time, each reads the clock once, and times are microseconds. Redis does not fail, and no message expires.
-/

namespace MemStack
namespace Messaging

inductive DLQMessageStatus where
  | pending
  | retrying
  | discarded
  | expired
  | resolved
  deriving DecidableEq

def DLQMessageStatus.name : DLQMessageStatus → String
  | .pending => "PENDING"
  | .retrying => "RETRYING"
  | .discarded => "DISCARDED"
  | .expired => "EXPIRED"
  | .resolved => "RESOLVED"

def second : Int := 1000000

structure DeadLetterMessage (F : Type) where
  id : String
  eventId : String
  eventType : String
  eventData : String
  routingKey : String
  error : String
  errorType : String
  errorTraceback : Option String
  retryCount : Int
  maxRetries : Int
  firstFailedAt : Int
  lastFailedAt : Int
  nextRetryAt : Option Int
  status : DLQMessageStatus := .pending
  metadata : Dict String (Json F)

def DeadLetterMessage.canRetry {F : Type} (message : DeadLetterMessage F) : Bool :=
  message.status = .pending ∧ message.retryCount < message.maxRetries

inductive StatsField where
  | totalMessages
  | pendingCount
  | resolvedCount
  | discardedCount
  | expiredCount
  | errorType (name : String)
  | eventType (name : String)
  deriving DecidableEq

structure RedisDLQ (F : Type) where
  messages : Dict String (DeadLetterMessage F) := .empty
  -- The members of a sorted set with their scores. Those of an index by type come with the type.
  pendingIndex : Dict String Int := .empty
  errorTypeIndex : Dict (String × String) Int := .empty
  eventTypeIndex : Dict (String × String) Int := .empty
  stats : Dict StatsField Int := .empty

inductive DLQError where
  | indexError
  | messageNotFound (messageId : String)
  | retryError (messageId reason : String)
  deriving DecidableEq

-- What is given to `send_to_dlq`, with the id that is drawn for the message.
structure FailedEvent (F : Type) where
  id : String
  eventId : String
  eventType : String
  eventData : String
  routingKey : String
  error : String
  errorType : String
  errorTraceback : Option String := none
  retryCount : Int := 0
  maxRetries : Int := 3
  metadata : Dict String (Json F) := .empty

structure PublishError where
  text : String
  traceback : String

def retryDelays : List Int :=
  [60, 300, 900, 3600]

def pyGet {α : Type} (l : List α) (i : Int) : Option α :=
  if i < 0 then if i + l.length < 0 then none else l[(i + l.length).toNat]? else l[i.toNat]?

def retryDelay (retryCount : Int) : Option Int :=
  pyGet retryDelays (min retryCount (retryDelays.length - 1))

namespace RedisDLQ

variable {F : Type} (s : RedisDLQ F)

def hincrby (field : StatsField) (by' : Int) : RedisDLQ F :=
  { s with stats := s.stats.set field ((s.stats.get field).getD 0 + by') }

def updateMessage (message : DeadLetterMessage F) : RedisDLQ F :=
  { s with messages := s.messages.set message.id message }

def removeFromIndexes (message : DeadLetterMessage F) : RedisDLQ F :=
  { s with
    pendingIndex := s.pendingIndex.erase message.id
    errorTypeIndex := s.errorTypeIndex.erase (message.errorType, message.id)
    eventTypeIndex := s.eventTypeIndex.erase (message.eventType, message.id) }

def updateStatsOnResolve (message : DeadLetterMessage F) : RedisDLQ F :=
  ((s.hincrby .pendingCount (-1)).hincrby .resolvedCount 1).removeFromIndexes message

def updateStatsOnDiscard (message : DeadLetterMessage F) : RedisDLQ F :=
  ((s.hincrby .pendingCount (-1)).hincrby .discardedCount 1).removeFromIndexes message

def getMessage (messageId : String) : Option (DeadLetterMessage F) :=
  s.messages.get messageId

def sendToDlq (event : FailedEvent F) (now : Int) : RedisDLQ F × Except DLQError String :=
  match retryDelay event.retryCount with
  | none => (s, .error .indexError)
  | some delay =>
    let message : DeadLetterMessage F := {
      id := event.id
      eventId := event.eventId
      eventType := event.eventType
      eventData := event.eventData
      routingKey := event.routingKey
      error := event.error
      errorType := event.errorType
      errorTraceback := event.errorTraceback
      retryCount := event.retryCount
      maxRetries := event.maxRetries
      firstFailedAt := now
      lastFailedAt := now
      nextRetryAt := if event.retryCount < event.maxRetries then some (now + delay * second) else none
      status := .pending
      metadata := event.metadata }
    let s := { s with
      messages := s.messages.set message.id message
      pendingIndex := s.pendingIndex.set message.id now
      errorTypeIndex := s.errorTypeIndex.set (event.errorType, message.id) now
      eventTypeIndex := s.eventTypeIndex.set (event.eventType, message.id) now }
    let s := (s.hincrby .totalMessages 1).hincrby .pendingCount 1
    ((s.hincrby (.errorType event.errorType) 1).hincrby (.eventType event.eventType) 1, .ok message.id)

-- `hasBus` says whether the adapter has an event bus, and `published` how the bus takes the event.
def retryMessage (hasBus : Bool) (messageId : String) (now : Int) (published : Except PublishError Unit)
    : RedisDLQ F × Except DLQError Bool :=
  match s.getMessage messageId with
  | none => (s, .error (.messageNotFound messageId))
  | some message =>
    if ¬message.canRetry then
      (s, .error (.retryError messageId ("Cannot retry: status=DLQMessageStatus." ++ message.status.name ++
        ", retries=" ++ toString message.retryCount ++ "/" ++ toString message.maxRetries)))
    else
      let message := { message with status := .retrying, retryCount := message.retryCount + 1, lastFailedAt := now }
      let s := s.updateMessage message
      if hasBus then
        match published with
        | .ok () =>
          let message := { message with status := .resolved }
          ((s.updateMessage message).updateStatsOnResolve message, .ok true)
        | .error e =>
          let message := { message with status := .pending, error := e.text, errorTraceback := some e.traceback }
          if message.retryCount < message.maxRetries then
            match retryDelay message.retryCount with
            | none => (s, .error (.retryError messageId "list index out of range"))
            | some delay => (s.updateMessage { message with nextRetryAt := some (now + delay * second) }, .ok false)
          else
            (s.updateMessage { message with nextRetryAt := none }, .ok false)
      else
        (s.updateMessage { message with status := .pending }, .ok false)

def retryBatch (hasBus : Bool) (now : Int) (s : RedisDLQ F)
    : List (String × Except PublishError Unit) → Dict String Bool → RedisDLQ F × Dict String Bool
  | [], results => (s, results)
  | (messageId, published) :: attempts, results =>
    let (s, result) := s.retryMessage hasBus messageId now published
    s.retryBatch hasBus now attempts (results.set messageId (result.toOption.getD false))

def discardMessage (isoformat : Int → String) (messageId reason : String) (now : Int)
    : RedisDLQ F × Except DLQError Bool :=
  match s.getMessage messageId with
  | none => (s, .error (.messageNotFound messageId))
  | some message =>
    let metadata := (message.metadata.set "discard_reason" (.str reason)).set "discarded_at" (.str (isoformat now))
    let message := { message with status := .discarded, metadata }
    ((s.updateMessage message).updateStatsOnDiscard message, .ok true)

def discardBatch (isoformat : Int → String) (reason : String) (now : Int) (s : RedisDLQ F)
    : List String → Dict String Bool → RedisDLQ F × Dict String Bool
  | [], results => (s, results)
  | messageId :: messageIds, results =>
    let (s, result) := s.discardMessage isoformat messageId reason now
    s.discardBatch isoformat reason now messageIds (results.set messageId (result.toOption.getD false))

-- `ZRANGEBYSCORE key -inf cutoff`.
def pendingUntil (cutoff : Int) : List String :=
  ((s.pendingIndex.entries.filter (·.2 ≤ cutoff)).insertionSort
    (fun a b => a.2 < b.2 ∨ (a.2 = b.2 ∧ a.1 ≤ b.1))).map Prod.fst

def cutoff (now olderThanHours : Int) : Int :=
  now - olderThanHours * 3600 * second

def expireAll (s : RedisDLQ F) : List String → Nat → RedisDLQ F × Nat
  | [], count => (s, count)
  | messageId :: messageIds, count =>
    match s.getMessage messageId with
    | none => s.expireAll messageIds count
    | some message =>
      let message := { message with status := .expired }
      ((s.updateMessage message).removeFromIndexes message).expireAll messageIds (count + 1)

def cleanupExpired (olderThanHours now : Int) : RedisDLQ F × Nat :=
  let (s, count) := s.expireAll (s.pendingUntil (cutoff now olderThanHours)) 0
  if count > 0 then ((s.hincrby .pendingCount (-count)).hincrby .expiredCount count, count) else (s, count)

def removeResolved (s : RedisDLQ F) : List String → Nat → RedisDLQ F × Nat
  | [], count => (s, count)
  | messageId :: messageIds, count =>
    match s.getMessage messageId with
    | none => s.removeResolved messageIds count
    | some message =>
      if message.status = .resolved then
        ({ s with messages := s.messages.erase message.id }.removeFromIndexes message).removeResolved
          messageIds (count + 1)
      else
        s.removeResolved messageIds count

def cleanupResolved (olderThanHours now : Int) : RedisDLQ F × Nat :=
  let (s, count) := s.removeResolved (s.pendingUntil (cutoff now olderThanHours)) 0
  if count > 0 then (s.hincrby .resolvedCount (-count), count) else (s, count)

inductive Call (F : Type) where
  | sendToDlq (event : FailedEvent F)
  | retryMessage (messageId : String) (published : Except PublishError Unit)
  | retryBatch (attempts : List (String × Except PublishError Unit))
  | discardMessage (messageId reason : String)
  | discardBatch (messageIds : List String) (reason : String)
  | cleanupExpired (olderThanHours : Int)
  | cleanupResolved (olderThanHours : Int)

structure Request (F : Type) where
  call : Call F
  now : Int

inductive Reply where
  | id (result : Except DLQError String)
  | done (result : Except DLQError Bool)
  | results (results : Dict String Bool)
  | count (count : Nat)

def step (isoformat : Int → String) (hasBus : Bool) (s : RedisDLQ F) (request : Request F) : RedisDLQ F × Reply :=
  match request.call with
  | .sendToDlq event =>
    let (s, result) := s.sendToDlq event request.now
    (s, .id result)
  | .retryMessage messageId published =>
    let (s, result) := s.retryMessage hasBus messageId request.now published
    (s, .done result)
  | .retryBatch attempts =>
    let (s, results) := s.retryBatch hasBus request.now attempts .empty
    (s, .results results)
  | .discardMessage messageId reason =>
    let (s, result) := s.discardMessage isoformat messageId reason request.now
    (s, .done result)
  | .discardBatch messageIds reason =>
    let (s, results) := s.discardBatch isoformat reason request.now messageIds .empty
    (s, .results results)
  | .cleanupExpired olderThanHours =>
    let (s, count) := s.cleanupExpired olderThanHours request.now
    (s, .count count)
  | .cleanupResolved olderThanHours =>
    let (s, count) := s.cleanupResolved olderThanHours request.now
    (s, .count count)

end RedisDLQ

end Messaging
end MemStack
