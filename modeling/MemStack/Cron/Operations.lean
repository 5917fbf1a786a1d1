import MemStack.Cron.Owner
import MemStack.Port.CoreError
import MemStack.Util.Machine
import MemStack.Util.Table

/-!
This module contains the queue of durable cron operations (`cron_operation_repo.rs`). Each statement is one step,
which any worker may take at any time with any arguments. A worker that crashes takes no more steps.
-/

namespace MemStack
namespace Cron

structure CronOperationScope where
  tenantId : String
  projectId : String
  deriving DecidableEq, Repr

inductive CronOperationKind where
  | reconcileSchedule
  | executeRun
  deriving DecidableEq, Repr

inductive CronOperationStatus where
  | pending
  | processing
  | failed
  | waitingRuntime
  | waitingHuman
  | completed
  | deadLetter
  deriving DecidableEq, Repr

inductive CronOperationErrorCode where
  | handlerUnavailable
  | invalidOperation
  | staleRevision
  | executionFailed
  | executionTimedOut
  | leaseExpired
  | cancelled
  deriving DecidableEq, Repr

structure NewCronOperation where
  id : String
  tenantId : String
  projectId : String
  jobId : String
  jobRevision : Int
  scheduleRevision : Option Int
  kind : CronOperationKind
  runId : Option String
  triggerType : Option String
  scheduledFor : Option Timestamp
  maxAttempts : Int
  nextAttemptAt : Option Timestamp
  createdAt : Timestamp
  deriving DecidableEq, Repr

structure CronOperation where
  id : String
  tenantId : String
  projectId : String
  jobId : String
  jobRevision : Int
  scheduleRevision : Option Int
  kind : CronOperationKind
  runId : Option String
  triggerType : Option String
  scheduledFor : Option Timestamp
  status : CronOperationStatus
  attemptCount : Nat
  maxAttempts : Nat
  nextAttemptAt : Option Timestamp
  leaseOwner : Option String
  leaseToken : Option String
  leaseExpiresAt : Option Timestamp
  lastErrorCode : Option CronOperationErrorCode
  lastErrorRedacted : Option String
  createdAt : Timestamp
  updatedAt : Timestamp
  startedAt : Option Timestamp
  completedAt : Option Timestamp
  deriving DecidableEq, Repr

structure CronOperationFailure where
  code : CronOperationErrorCode
  redactedText : String
  retryAfterSeconds : Int
  deriving DecidableEq, Repr

inductive CronRunStatus where
  | queued
  | running
  | waitingHuman
  | success
  | failed
  | timeout
  | cancelled
  | skipped
  deriving DecidableEq, Repr

def CronRunStatus.isTerminal : CronRunStatus → Bool
  | .queued => false
  | .running => false
  | .waitingHuman => false
  | _ => true

structure CronRunRow where
  id : String
  projectId : String
  status : CronRunStatus
  runtimeExecutionId : Option String
  finishedAt : Option Timestamp
  jobTenantId : String
  jobProjectId : String
  deriving DecidableEq, Repr

namespace CronOperation

def ofNew (operation : NewCronOperation) : CronOperation where
  id := operation.id
  tenantId := operation.tenantId
  projectId := operation.projectId
  jobId := operation.jobId
  jobRevision := operation.jobRevision
  scheduleRevision := operation.scheduleRevision
  kind := operation.kind
  runId := operation.runId
  triggerType := operation.triggerType
  scheduledFor := operation.scheduledFor
  status := .pending
  attemptCount := 0
  maxAttempts := (max operation.maxAttempts 1).toNat
  nextAttemptAt := operation.nextAttemptAt
  leaseOwner := none
  leaseToken := none
  leaseExpiresAt := none
  lastErrorCode := none
  lastErrorRedacted := none
  createdAt := operation.createdAt
  updatedAt := operation.createdAt
  startedAt := none
  completedAt := none

variable (o : CronOperation)

def conflicts (other : CronOperation) : Bool :=
  o.id = other.id ||
    (o.kind = .reconcileSchedule && other.kind = .reconcileSchedule && o.jobId = other.jobId &&
      o.scheduleRevision.isSome && o.scheduleRevision = other.scheduleRevision) ||
    (o.runId.isSome && o.runId = other.runId) ||
    (o.kind = .executeRun && other.kind = .executeRun && o.triggerType = some "scheduled" &&
      other.triggerType = some "scheduled" && o.jobId = other.jobId && o.scheduledFor.isSome &&
      o.scheduledFor = other.scheduledFor)

def inScope (scope : CronOperationScope) : Bool :=
  o.tenantId = scope.tenantId && o.projectId = scope.projectId

def isWaiting (now : Timestamp) : Bool :=
  match o.status with
  | .pending | .failed => o.nextAttemptAt.all (· ≤ now)
  | .processing => o.leaseExpiresAt.any (· ≤ now)
  | _ => false

def isExhausted (scope : CronOperationScope) (now : Timestamp) : Bool :=
  o.inScope scope && o.attemptCount ≥ o.maxAttempts && o.isWaiting now

def isDue (scope : CronOperationScope) (now : Timestamp) : Bool :=
  o.inScope scope && o.attemptCount < o.maxAttempts && o.isWaiting now

def expired (now : Timestamp) : CronOperation :=
  { o with
    status := .deadLetter
    leaseOwner := none
    leaseToken := none
    leaseExpiresAt := none
    nextAttemptAt := none
    lastErrorCode := some .leaseExpired
    lastErrorRedacted := some "operation lease expired after max attempts"
    completedAt := some now
    updatedAt := now }

def token (txid : Nat) : String :=
  o.id ++ ":" ++ toString (o.attemptCount + 1) ++ ":" ++ toString txid

def claimed (leaseOwner : String) (leaseSeconds : Int) (now : Timestamp) (txid : Nat) : CronOperation :=
  { o with
    status := .processing
    attemptCount := o.attemptCount + 1
    leaseOwner := some leaseOwner
    leaseToken := some (o.token txid)
    leaseExpiresAt := some (now + positiveSeconds leaseSeconds * Timestamp.second)
    nextAttemptAt := none
    lastErrorCode := none
    lastErrorRedacted := none
    startedAt := some (o.startedAt.getD now)
    completedAt := none
    updatedAt := now }

-- `ORDER BY COALESCE(next_attempt_at, created_at), created_at, id`.
def dueBefore (other : CronOperation) : Bool :=
  let key := o.nextAttemptAt.getD o.createdAt
  let otherKey := other.nextAttemptAt.getD other.createdAt
  key < otherKey ||
    (key = otherKey && (o.createdAt < other.createdAt || (o.createdAt = other.createdAt && o.id ≤ other.id)))

end CronOperation

structure Fence where
  scope : CronOperationScope
  operationId : String
  leaseOwner : String
  leaseToken : String
  now : Timestamp
  deriving DecidableEq, Repr

namespace CronOperation

variable (o : CronOperation)

def isLeased (fence : Fence) : Bool :=
  o.id = fence.operationId && o.inScope fence.scope && o.status = .processing &&
    o.leaseOwner = some fence.leaseOwner && o.leaseToken = some fence.leaseToken &&
    o.leaseExpiresAt.any (fence.now < ·)

def renewed (leaseSeconds : Int) (now : Timestamp) : CronOperation :=
  { o with leaseExpiresAt := some (now + positiveSeconds leaseSeconds * Timestamp.second), updatedAt := now }

def unleased : CronOperation :=
  { o with leaseOwner := none, leaseToken := none, leaseExpiresAt := none }

def completed (now : Timestamp) : CronOperation :=
  { o.unleased with
    status := .completed
    nextAttemptAt := none
    lastErrorCode := none
    lastErrorRedacted := none
    completedAt := some now
    updatedAt := now }

def waitingRuntime (now : Timestamp) : CronOperation :=
  { o.unleased with
    status := .waitingRuntime
    nextAttemptAt := none
    lastErrorCode := none
    lastErrorRedacted := none
    completedAt := none
    updatedAt := now }

def failed (failure : CronOperationFailure) (now : Timestamp) : CronOperation :=
  let last := o.attemptCount ≥ o.maxAttempts
  { o.unleased with
    status := if last then .deadLetter else .failed
    lastErrorCode := some failure.code
    lastErrorRedacted := some (Text.take 2000 failure.redactedText)
    nextAttemptAt := if last then none else some (now + max failure.retryAfterSeconds 0 * Timestamp.second)
    completedAt := if last then some now else none
    updatedAt := now }

def hasTerminalRun (run : CronRunRow) : Bool :=
  o.status = .waitingRuntime && o.kind = .executeRun && o.runId = some run.id &&
    run.runtimeExecutionId = o.runId && run.projectId = o.projectId && run.status.isTerminal &&
    run.jobTenantId = o.tenantId && run.jobProjectId = o.projectId

def reconciled (run : Option CronRunRow) (now : Timestamp) : CronOperation :=
  { o with
    status := .completed
    nextAttemptAt := none
    lastErrorCode := none
    lastErrorRedacted := none
    completedAt := some ((run.bind CronRunRow.finishedAt).getD now)
    updatedAt := now }

end CronOperation

inductive CronOperationRequest where
  | owner (request : OwnerRequest)
  | enqueue (operation : NewCronOperation)
  | claimDue (scope : CronOperationScope) (authority : CronSchedulerLease) (limit : Int) (leaseOwner : String)
      (leaseSeconds : Int) (now : Timestamp)
  | renew (fence : Fence) (leaseSeconds : Int)
  | complete (fence : Fence)
  -- The first statement of the method. The second one is that of `reconcileRuntimeTerminal`.
  | markWaitingRuntime (fence : Fence)
  | reconcileRuntimeTerminal (scope : CronOperationScope) (operationId : String) (runs : List CronRunRow)
      (now : Timestamp)
  | fail (fence : Fence) (failure : CronOperationFailure)
  deriving Repr

inductive CronOperationReply where
  | owner (reply : OwnerReply)
  -- There is no row when the insert runs into a key of the table.
  | enqueued (row : Option CronOperation)
  | claimed (result : Except CoreError (List CronOperation))
  | renewed (ok : Bool)
  | written (row : Option CronOperation)

structure CronStore where
  owner : Option CronSchedulerOwner := none
  operations : List CronOperation := []
  txid : Nat := 0
  deriving Repr

namespace CronStore

variable (s : CronStore)

def enqueue (operation : NewCronOperation) : CronStore × CronOperationReply :=
  let row := CronOperation.ofNew operation
  if s.operations.any row.conflicts then
    (s, .enqueued none)
  else
    ({ s with operations := s.operations ++ [row] }, .enqueued (some row))

def due (scope : CronOperationScope) (limit : Int) (now : Timestamp) : List CronOperation :=
  Table.select (·.isDue scope now) CronOperation.dueBefore (min (max limit 1) 100).toNat s.operations

def afterClaim (scope : CronOperationScope) (limit : Int) (leaseOwner : String) (leaseSeconds : Int)
    (now : Timestamp) (o : CronOperation)
    : CronOperation :=
  if o.isExhausted scope now then o.expired now
  else if (s.due scope limit now).any (·.id = o.id) then o.claimed leaseOwner leaseSeconds now s.txid
  else o

def claimDue (scope : CronOperationScope) (authority : CronSchedulerLease) (limit : Int) (leaseOwner : String)
    (leaseSeconds : Int) (now : Timestamp)
    : CronStore × CronOperationReply :=
  if limit ≤ 0 then
    (s, .claimed (.ok []))
  else if !authority.isStructurallyValid then
    (s, .claimed (.error (.storage "cron operation scheduler authority is invalid")))
  else if s.owner.any (·.isCurrent authority now) then
    let operations := s.operations.map (s.afterClaim scope limit leaseOwner leaseSeconds now)
    let rows := (s.due scope limit now).map (·.claimed leaseOwner leaseSeconds now s.txid)
    ({ s with operations }, .claimed (.ok rows))
  else
    (s, .claimed (.ok []))

def renew (fence : Fence) (leaseSeconds : Int) : CronStore × CronOperationReply :=
  let rows := Table.updated (·.isLeased fence) (·.renewed leaseSeconds fence.now) s.operations
  let operations := Table.update (·.isLeased fence) (·.renewed leaseSeconds fence.now) s.operations
  ({ s with operations }, .renewed (rows.length = 1))

-- `complete`, `mark_waiting_runtime` and `fail`, which differ in what they write.
def write (fence : Fence) (f : CronOperation → CronOperation) : CronStore × CronOperationReply :=
  let rows := Table.updated (·.isLeased fence) f s.operations
  ({ s with operations := Table.update (·.isLeased fence) f s.operations }, .written rows.head?)

def complete (fence : Fence) : CronStore × CronOperationReply :=
  s.write fence (·.completed fence.now)

def markWaitingRuntime (fence : Fence) : CronStore × CronOperationReply :=
  s.write fence (·.waitingRuntime fence.now)

def fail (fence : Fence) (failure : CronOperationFailure) : CronStore × CronOperationReply :=
  s.write fence (·.failed failure fence.now)

def reconcileRuntimeTerminal (scope : CronOperationScope) (operationId : String) (runs : List CronRunRow)
    (now : Timestamp)
    : CronStore × CronOperationReply :=
  let matching := fun o : CronOperation => o.id = operationId && o.inScope scope && runs.any o.hasTerminalRun
  let f := fun o : CronOperation => o.reconciled (runs.find? o.hasTerminalRun) now
  let rows := Table.updated matching f s.operations
  ({ s with operations := Table.update matching f s.operations }, .written rows.head?)

def answer : CronOperationRequest → CronStore × CronOperationReply
  | .owner request =>
    let (owner, reply) := CronSchedulerOwner.step s.owner s.txid request
    ({ s with owner }, .owner reply)
  | .enqueue operation => s.enqueue operation
  | .claimDue scope authority limit leaseOwner leaseSeconds now =>
    s.claimDue scope authority limit leaseOwner leaseSeconds now
  | .renew fence leaseSeconds => s.renew fence leaseSeconds
  | .complete fence => s.complete fence
  | .markWaitingRuntime fence => s.markWaitingRuntime fence
  | .reconcileRuntimeTerminal scope operationId runs now =>
    s.reconcileRuntimeTerminal scope operationId runs now
  | .fail fence failure => s.fail fence failure

def step (request : CronOperationRequest) : CronStore × CronOperationReply :=
  let (s', reply) := s.answer request
  ({ s' with txid := s.txid + 1 }, reply)

end CronStore

inductive CronOperationHandlerOutcome where
  | accepted
  | complete
  | retryOrDeadLetter (failure : CronOperationFailure)
  deriving DecidableEq, Repr

end Cron
end MemStack
