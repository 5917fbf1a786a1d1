import MemStack.Port.CoreError
import MemStack.Port.Timestamp
import MemStack.Util.Machine
import MemStack.Util.Table

/-!
This module contains the outbox of the workspace plans (`workspace_repo/plan_outbox.rs`). Each statement is one
step. Failing an item and retrying it are a read and a later write, so they are two steps. A worker reads the
clock at some point before its statement runs.
-/

namespace MemStack
namespace Workspace

-- The statuses that `claim_due_plan_outbox` picks up again, besides that of an expired lease.
inductive WaitingStatus where
  | pending
  | failed
  | pendingRuntime
  | runtimeResponseReady
  | runtimeErrorReady
  deriving DecidableEq, Repr

inductive PlanOutboxStatus where
  | waiting (status : WaitingStatus)
  | processing
  | completed
  | deadLetter
  | other (text : String)
  deriving DecidableEq, Repr

def WaitingStatus.asStr : WaitingStatus → String
  | .pending => "pending"
  | .failed => "failed"
  | .pendingRuntime => "pending_runtime"
  | .runtimeResponseReady => "runtime_response_ready"
  | .runtimeErrorReady => "runtime_error_ready"

def PlanOutboxStatus.asStr : PlanOutboxStatus → String
  | .waiting status => status.asStr
  | .processing => "processing"
  | .completed => "completed"
  | .deadLetter => "dead_letter"
  | .other text => text

structure PlanOutbox where
  id : String
  planId : Option String
  workspaceId : String
  eventType : String
  status : PlanOutboxStatus
  attemptCount : Nat
  maxAttempts : Nat
  leaseOwner : Option String
  leaseExpiresAt : Option Timestamp
  lastError : Option String
  nextAttemptAt : Option Timestamp
  processedAt : Option Timestamp
  createdAt : Timestamp
  updatedAt : Timestamp
  deriving DecidableEq, Repr

structure NewPlanOutbox where
  id : String
  planId : Option String
  workspaceId : String
  eventType : String
  status : WaitingStatus := .pending
  maxAttempts : Nat
  maxAttempts_pos : 1 ≤ maxAttempts
  nextAttemptAt : Option Timestamp := none
  createdAt : Timestamp
  deriving Repr

namespace PlanOutbox

def ofNew (item : NewPlanOutbox) : PlanOutbox where
  id := item.id
  planId := item.planId
  workspaceId := item.workspaceId
  eventType := item.eventType
  status := .waiting item.status
  attemptCount := 0
  maxAttempts := item.maxAttempts
  leaseOwner := none
  leaseExpiresAt := none
  lastError := none
  nextAttemptAt := item.nextAttemptAt
  processedAt := none
  createdAt := item.createdAt
  updatedAt := item.createdAt

variable (o : PlanOutbox)

def isMention : Bool :=
  o.eventType = "workspace_agent_mention"

def isDue (now : Timestamp) : Bool :=
  o.attemptCount < o.maxAttempts &&
    match o.status with
    | .waiting .pending | .waiting .failed => o.nextAttemptAt.all (· ≤ now)
    | .waiting _ => o.isMention && o.nextAttemptAt.all (· ≤ now)
    | .processing => o.leaseExpiresAt.any (· ≤ now)
    | _ => false

-- `ORDER BY created_at, id`.
def createdBefore (other : PlanOutbox) : Bool :=
  o.createdAt < other.createdAt || (o.createdAt = other.createdAt && o.id ≤ other.id)

def claimed (leaseOwner : String) (leaseSeconds : Int) (now : Timestamp) : PlanOutbox :=
  { o with
    status := .processing
    attemptCount := o.attemptCount + 1
    leaseOwner := some leaseOwner
    leaseExpiresAt := some (now.addSeconds (max leaseSeconds 1))
    nextAttemptAt := none
    lastError := none
    updatedAt := now }

def isHeld (id : String) (leaseOwner : Option String) : Bool :=
  o.id = id && o.status = .processing && leaseOwner.all (o.leaseOwner = some ·)

def completed (now : Timestamp) : PlanOutbox :=
  { o with
    status := .completed
    leaseOwner := none
    leaseExpiresAt := none
    lastError := none
    nextAttemptAt := none
    processedAt := some now
    updatedAt := now }

def released (errorMessage : Option String) (now : Timestamp) : PlanOutbox :=
  { o with
    status := .waiting .pending
    leaseOwner := none
    leaseExpiresAt := none
    lastError := errorMessage
    nextAttemptAt := none
    attemptCount := o.attemptCount - 1
    updatedAt := now }

def parked (status : PlanOutboxStatus) (now : Timestamp) : PlanOutbox :=
  { o with
    status
    leaseOwner := none
    leaseExpiresAt := none
    lastError := none
    nextAttemptAt := none
    updatedAt := now }

def renewed (leaseSeconds : Int) (now : Timestamp) : PlanOutbox :=
  { o with leaseExpiresAt := some (now.addSeconds (max leaseSeconds 1)), updatedAt := now }

end PlanOutbox

-- What `mark_plan_outbox_failed` is about to write for an item that it has read.
structure Failure where
  id : String
  errorMessage : String
  leaseOwner : Option String
  status : PlanOutboxStatus
  nextAttemptAt : Option Timestamp
  now : Timestamp
  deriving DecidableEq, Repr

-- What `retry_plan_outbox_now` is about to write for an item that it has read.
structure Retry where
  id : String
  attemptCount : Nat
  now : Timestamp
  deriving DecidableEq, Repr

namespace PlanOutbox

variable (o : PlanOutbox)

def failure (errorMessage : String) (leaseOwner : Option String) (now : Timestamp) : Failure :=
  if o.attemptCount ≥ o.maxAttempts then
    { id := o.id, errorMessage, leaseOwner, status := .deadLetter, nextAttemptAt := none, now }
  else
    let backoffSeconds : Nat := min (2 ^ min o.attemptCount 9) 300
    { id := o.id, errorMessage, leaseOwner, status := .waiting .failed,
      nextAttemptAt := some (now.addSeconds backoffSeconds), now }

def failed (failure : Failure) : PlanOutbox :=
  { o with
    status := failure.status
    leaseOwner := none
    leaseExpiresAt := none
    lastError := some failure.errorMessage
    nextAttemptAt := failure.nextAttemptAt
    updatedAt := failure.now }

def isRetryable (now : Timestamp) : Bool :=
  o.status = .waiting .failed || o.status = .deadLetter ||
    (o.status = .waiting .pending && o.nextAttemptAt.any (now < ·))

def retry (now : Timestamp) : Retry where
  id := o.id
  attemptCount := if o.status = .deadLetter then 0 else o.attemptCount
  now

def retried (retry : Retry) : PlanOutbox :=
  { o with
    status := .waiting .pending
    attemptCount := retry.attemptCount
    leaseOwner := none
    leaseExpiresAt := none
    lastError := none
    nextAttemptAt := none
    processedAt := none
    updatedAt := retry.now }

def notRetryable : CoreError :=
  .storage ("workspace plan outbox item " ++ o.id ++ " is not retryable from " ++ o.status.asStr)

end PlanOutbox

inductive Call where
  | failing (failure : Failure)
  | retrying (retry : Retry)
  | done
  deriving DecidableEq, Repr

-- The `lag` is the time that has gone by since the worker read the clock.
inductive OutboxRequest where
  | advance (time : Nat)
  | enqueue (item : NewPlanOutbox)
  | claimDue (limit : Int) (leaseOwner : String) (leaseSeconds : Int) (lag : Nat)
  | markCompleted (id : String) (leaseOwner : Option String) (lag : Nat)
  | markFailed (id : String) (errorMessage : String) (leaseOwner : Option String) (lag : Nat)
  | release (id : String) (errorMessage : Option String) (leaseOwner : Option String) (lag : Nat)
  | park (id : String) (status : PlanOutboxStatus) (leaseOwner : Option String) (lag : Nat)
  | renew (id : String) (leaseOwner : String) (leaseSeconds : Int) (lag : Nat)
  | retryNow (id : String) (workspaceId : String) (lag : Nat)
  | write (call : Nat)
  deriving Repr

inductive OutboxReply where
  | done
  | inserted (ok : Bool)
  | claimed (items : List PlanOutbox)
  | recorded (ok : Bool)
  -- The call goes on with its write.
  | started (call : Nat)
  | retried (result : Except CoreError (Option PlanOutbox))

structure Outbox where
  clock : Timestamp := 0
  items : List PlanOutbox := []
  calls : List Call := []
  deriving Repr

namespace Outbox

variable (s : Outbox)

def now (lag : Nat) : Timestamp :=
  s.clock - lag

def enqueue (item : NewPlanOutbox) : Outbox × OutboxReply :=
  if s.items.any (·.id = item.id) then
    (s, .inserted false)
  else
    ({ s with items := s.items ++ [.ofNew item] }, .inserted true)

def due (limit : Int) (now : Timestamp) : List PlanOutbox :=
  Table.select (·.isDue now) PlanOutbox.createdBefore limit.toNat s.items

def claimDue (limit : Int) (leaseOwner : String) (leaseSeconds : Int) (now : Timestamp) : Outbox × OutboxReply :=
  if limit ≤ 0 then
    (s, .claimed [])
  else
    let due := s.due limit now
    let items := Table.update (fun o => due.any (·.id = o.id)) (·.claimed leaseOwner leaseSeconds now) s.items
    ({ s with items }, .claimed (due.map (·.claimed leaseOwner leaseSeconds now)))

def record (id : String) (leaseOwner : Option String) (f : PlanOutbox → PlanOutbox) : Outbox × OutboxReply :=
  ({ s with items := Table.update (·.isHeld id leaseOwner) f s.items },
    .recorded (s.items.any (·.isHeld id leaseOwner)))

def markCompleted (id : String) (leaseOwner : Option String) (now : Timestamp) : Outbox × OutboxReply :=
  s.record id leaseOwner (·.completed now)

def release (id : String) (errorMessage : Option String) (leaseOwner : Option String) (now : Timestamp)
    : Outbox × OutboxReply :=
  s.record id leaseOwner (·.released errorMessage now)

def park (id : String) (status : PlanOutboxStatus) (leaseOwner : Option String) (now : Timestamp)
    : Outbox × OutboxReply :=
  s.record id leaseOwner (·.parked status now)

def renew (id : String) (leaseOwner : String) (leaseSeconds : Int) (now : Timestamp) : Outbox × OutboxReply :=
  s.record id (some leaseOwner) (·.renewed leaseSeconds now)

def get (id : String) : Option PlanOutbox :=
  s.items.find? (·.id = id)

def start (call : Call) : Outbox × OutboxReply :=
  ({ s with calls := s.calls ++ [call] }, .started s.calls.length)

def markFailed (id : String) (errorMessage : String) (leaseOwner : Option String) (now : Timestamp)
    : Outbox × OutboxReply :=
  match s.get id with
  | none => (s, .recorded false)
  | some item =>
    if item.status ≠ .processing then (s, .recorded false)
    else if leaseOwner.isSome ∧ item.leaseOwner ≠ leaseOwner then (s, .recorded false)
    else s.start (.failing (item.failure errorMessage leaseOwner now))

def retryNow (id : String) (workspaceId : String) (now : Timestamp) : Outbox × OutboxReply :=
  match s.get id with
  | none => (s, .retried (.ok none))
  | some item =>
    if item.workspaceId ≠ workspaceId then (s, .retried (.ok none))
    else if !item.isRetryable now then (s, .retried (.error item.notRetryable))
    else s.start (.retrying (item.retry now))

def write (call : Nat) : Outbox × OutboxReply :=
  match s.calls[call]? with
  | some (.failing failure) =>
    { s with calls := s.calls.set call .done }.record failure.id failure.leaseOwner (·.failed failure)
  | some (.retrying retry) =>
    let items := Table.update (·.id = retry.id) (·.retried retry) s.items
    let row := (Table.updated (·.id = retry.id) (·.retried retry) s.items).head?
    ({ s with calls := s.calls.set call .done, items }, .retried (.ok row))
  | _ => (s, .done)

def step (s : Outbox) : OutboxRequest → Outbox × OutboxReply
  | .advance time => ({ s with clock := s.clock + time }, .done)
  | .enqueue item => s.enqueue item
  | .claimDue limit leaseOwner leaseSeconds lag => s.claimDue limit leaseOwner leaseSeconds (s.now lag)
  | .markCompleted id leaseOwner lag => s.markCompleted id leaseOwner (s.now lag)
  | .markFailed id errorMessage leaseOwner lag => s.markFailed id errorMessage leaseOwner (s.now lag)
  | .release id errorMessage leaseOwner lag => s.release id errorMessage leaseOwner (s.now lag)
  | .park id status leaseOwner lag => s.park id status leaseOwner (s.now lag)
  | .renew id leaseOwner leaseSeconds lag => s.renew id leaseOwner leaseSeconds (s.now lag)
  | .retryNow id workspaceId lag => s.retryNow id workspaceId (s.now lag)
  | .write call => s.write call

end Outbox

end Workspace
end MemStack
