import MemStack.Cron.Operations
import MemStack.Cron.Schedule

/-!
This module contains the firing of due schedules (`cron_schedule_fire.rs`, `cron_schedule_fire_repo.rs`) beside
the reconciliation of schedules (`cron_schedule_reconcile.rs`, `cron_schedule_repo.rs`) and the edits of jobs.
A step is one statement or one transaction of a database, which may fail before or after it is committed. A
call that crashes takes no more steps.
-/

namespace MemStack
namespace Cron

variable {F : Type}

structure CronJob (F : Type) where
  id : String
  tenantId : String
  projectId : String
  revision : Int
  scheduleRevision : Int
  enabled : Bool
  scheduleType : String
  scheduleConfig : Json F
  timezone : String
  staggerSeconds : Int
  maxRetries : Int
  createdBy : Option String
  createdAt : Timestamp

structure CronScheduleState where
  jobId : String
  tenantId : String
  projectId : String
  scheduleRevision : Int
  status : CronScheduleStatus
  scheduleFingerprint : String
  nextFireAt : Option Timestamp
  lastFireAt : Option Timestamp
  deriving DecidableEq, Repr

structure CronJobRun where
  id : String
  jobId : String
  projectId : String
  status : CronRunStatus
  triggerType : String
  acceptedAt : Timestamp
  jobRevision : Int
  scheduleRevision : Int
  scheduledFor : Timestamp
  idempotencyKey : String
  deriving DecidableEq, Repr

structure CronDueSchedule (F : Type) where
  snapshot : CronScheduleSnapshot F
  scheduleFingerprint : String
  scheduledFor : Timestamp
  actorUserId : Option String
  maxRetries : Int

structure NewCronScheduledFire where
  runId : String
  operationId : String
  idempotencyKey : String
  deriving DecidableEq, Repr

inductive CronScheduleFireError where
  | invalidCandidate
  | storage
  deriving DecidableEq, Repr

structure CronScheduleFireSummary where
  due : Nat
  committed : Nat
  lostCompareAndSet : Nat
  deriving DecidableEq, Repr

namespace CronJob

def snapshot (job : CronJob F) : CronScheduleSnapshot F where
  jobId := job.id
  tenantId := job.tenantId
  projectId := job.projectId
  jobRevision := job.revision
  scheduleRevision := job.scheduleRevision
  enabled := job.enabled
  scheduleType := job.scheduleType
  scheduleConfig := job.scheduleConfig
  timezone := job.timezone
  staggerSeconds := job.staggerSeconds
  createdAt := job.createdAt

def edit (lib : ScheduleLibrary F) (old new : CronJob F) : CronJob F :=
  let sameSchedule := new.enabled = old.enabled && new.scheduleType = old.scheduleType &&
    lib.sameJsonb new.scheduleConfig old.scheduleConfig && new.timezone = old.timezone &&
    new.staggerSeconds = old.staggerSeconds
  { new with
    id := old.id
    revision := old.revision + 1
    scheduleRevision := if sameSchedule then old.scheduleRevision else old.scheduleRevision + 1 }

end CronJob

def validatedScope (tenantId projectId : String) : Except CoreError CronOperationScope :=
  if Text.trim tenantId = "" || Text.trim projectId = "" then
    .error (.storage "cron scheduled fire scope is invalid")
  else
    .ok { tenantId, projectId }

namespace CronDueSchedule

variable (candidate : CronDueSchedule F)

def actorIsValid : Bool :=
  candidate.actorUserId.any (Text.trim · ≠ "")

def validate (scope : CronOperationScope) (observedAt : Timestamp) : Except CoreError Unit :=
  if candidate.snapshot.tenantId ≠ scope.tenantId ||
      candidate.snapshot.projectId ≠ scope.projectId ||
      Text.trim candidate.snapshot.jobId = "" ||
      candidate.snapshot.jobRevision ≤ 0 ||
      candidate.snapshot.scheduleRevision ≤ 0 ||
      Text.trim candidate.scheduleFingerprint = "" ||
      candidate.scheduledFor > observedAt ||
      !candidate.actorIsValid then
    .error (.storage "cron scheduled fire candidate is invalid")
  else
    .ok ()

def deterministicFire (lib : ScheduleLibrary F) : NewCronScheduledFire :=
  let scheduledFor := lib.toRfc3339 candidate.scheduledFor
  let cursor := candidate.snapshot.tenantId ++ ":" ++ candidate.snapshot.projectId ++ ":" ++
    candidate.snapshot.jobId ++ ":" ++ scheduledFor
  { runId := lib.newV5 ("run:" ++ cursor)
    operationId := lib.newV5 ("operation:" ++ cursor)
    idempotencyKey := "scheduled:" ++ toString candidate.snapshot.scheduleRevision ++ ":" ++ scheduledFor }

def prepare (lib : ScheduleLibrary F) (scope : CronOperationScope) (observedAt : Timestamp)
    : Except CoreError (CronScheduleProjection × NewCronScheduledFire) := do
  candidate.validate scope observedAt
  match lib.projectSchedule candidate.snapshot candidate.scheduledFor with
  | .error _ => .error (.storage "cron scheduled fire projection is invalid")
  | .ok next =>
    if next.scheduleFingerprint ≠ candidate.scheduleFingerprint then
      .error (.storage "cron scheduled fire fingerprint changed")
    else
      .ok (next, candidate.deterministicFire lib)

def nextIsValid (next : CronScheduleProjection) : Bool :=
  match next.status with
  | .active => next.nextFireAt.any (· > candidate.scheduledFor)
  | .exhausted => next.nextFireAt.isNone
  | .disabled => false

def validateFire (scope : CronOperationScope) (next : CronScheduleProjection) (fire : NewCronScheduledFire)
    (authority : CronSchedulerLease) (observedAt : Timestamp)
    : Except CronScheduleFireError Unit :=
  let required := [candidate.snapshot.jobId, candidate.snapshot.tenantId, candidate.snapshot.projectId,
    candidate.scheduleFingerprint, fire.runId, fire.operationId, fire.idempotencyKey]
  if required.any (Text.trim · = "") ||
      fire.idempotencyKey.utf8ByteSize > 255 ||
      !candidate.actorIsValid ||
      candidate.snapshot.tenantId ≠ scope.tenantId ||
      candidate.snapshot.projectId ≠ scope.projectId ||
      candidate.snapshot.jobRevision ≤ 0 ||
      candidate.snapshot.scheduleRevision ≤ 0 ||
      candidate.scheduledFor > observedAt ||
      !authority.isStructurallyValid ||
      authority.scopeId ≠ globalCronSchedulerScope ||
      authority.leaseExpiresAt ≤ observedAt ||
      !fingerprintIsSha256 candidate.scheduleFingerprint ||
      next.scheduleFingerprint ≠ candidate.scheduleFingerprint ||
      !candidate.nextIsValid next then
    .error .invalidCandidate
  else
    .ok ()

-- `ORDER BY state.next_fire_at, state.job_id`.
def before (other : CronDueSchedule F) : Bool :=
  candidate.scheduledFor < other.scheduledFor ||
    (candidate.scheduledFor = other.scheduledFor && candidate.snapshot.jobId ≤ other.snapshot.jobId)

def run (scope : CronOperationScope) (fire : NewCronScheduledFire) (observedAt : Timestamp) : CronJobRun where
  id := fire.runId
  jobId := candidate.snapshot.jobId
  projectId := scope.projectId
  status := .queued
  triggerType := "scheduled"
  acceptedAt := observedAt
  jobRevision := candidate.snapshot.jobRevision
  scheduleRevision := candidate.snapshot.scheduleRevision
  scheduledFor := candidate.scheduledFor
  idempotencyKey := fire.idempotencyKey

def operation (scope : CronOperationScope) (fire : NewCronScheduledFire) (observedAt : Timestamp) : CronOperation :=
  .ofNew {
    id := fire.operationId
    tenantId := scope.tenantId
    projectId := scope.projectId
    jobId := candidate.snapshot.jobId
    jobRevision := candidate.snapshot.jobRevision
    scheduleRevision := some candidate.snapshot.scheduleRevision
    kind := .executeRun
    runId := some fire.runId
    triggerType := some "scheduled"
    scheduledFor := some candidate.scheduledFor
    maxAttempts := min (max candidate.maxRetries 1 + 1) 2147483647
    nextAttemptAt := some observedAt
    createdAt := observedAt }

end CronDueSchedule

inductive Delivery where
  | ok
  | failed
  | replyLost
  deriving DecidableEq, Repr

inductive FirePlace (F : Type) where
  -- It waits for `is_current`.
  | owned
  | listing
  | committing (candidates : List (CronDueSchedule F)) (summary : CronScheduleFireSummary)
  | finished (result : Except CoreError CronScheduleFireSummary)

-- A call of `fire_due`.
structure FireCall (F : Type) where
  authority : CronSchedulerLease
  scope : CronOperationScope
  limit : Int
  observedAt : Timestamp
  place : FirePlace F

inductive ReconcilePlace where
  | loading
  | applying (projection : CronScheduleProjection) (observedAt : Timestamp)
  | finished (outcome : Except CoreError CronOperationHandlerOutcome)

-- A call of `ReconcileScheduleHandler::handle`.
structure ReconcileCall where
  operation : CronOperation
  place : ReconcilePlace

structure ScheduleStore (F : Type) where
  now : Timestamp := 0
  txid : Nat := 0
  jobs : List (CronJob F) := []
  states : List CronScheduleState := []
  owner : Option CronSchedulerOwner := none
  runs : List CronJobRun := []
  operations : List CronOperation := []
  fires : List (FireCall F) := []
  reconciles : List ReconcileCall := []

inductive ScheduleRequest (F : Type) where
  -- The clocks show any time.
  | clock (now : Timestamp)
  | owner (request : OwnerRequest)
  | createJob (job : CronJob F)
  | editJob (id : String) (new : CronJob F)
  | fireDue (authority : CronSchedulerLease) (tenantId projectId : String) (limit : Int)
  | fire (call : Nat) (delivery : Delivery)
  | crashFire (call : Nat)
  | reconcile (operation : CronOperation)
  | proceedReconcile (call : Nat) (delivery : Delivery)
  | crashReconcile (call : Nat)

-- What a transaction of `commit_fire` has committed.
structure CommittedFire where
  authority : CronSchedulerLease
  observedAt : Timestamp
  nextFireAt : Option Timestamp
  run : CronJobRun
  operation : CronOperation
  deriving DecidableEq, Repr

namespace ScheduleStore

variable (lib : ScheduleLibrary F) (s : ScheduleStore F)

section Fire

-- A row of `LIST_DUE_SQL`.
def due? (scope : CronOperationScope) (now : Timestamp) (state : CronScheduleState) : Option (CronDueSchedule F) :=
  match s.jobs.find? (·.id = state.jobId), state.nextFireAt with
  | some job, some scheduledFor =>
    if state.tenantId = scope.tenantId && state.projectId = scope.projectId && state.status = .active &&
        scheduledFor ≤ now && job.tenantId = state.tenantId && job.projectId = state.projectId &&
        job.scheduleRevision = state.scheduleRevision && job.enabled then
      some {
        snapshot := job.snapshot
        scheduleFingerprint := state.scheduleFingerprint
        scheduledFor
        actorUserId := job.createdBy
        maxRetries := job.maxRetries }
    else
      none
  | _, _ => none

def listDue (scope : CronOperationScope) (now : Timestamp) (limit : Int) : List (CronDueSchedule F) :=
  if limit ≤ 0 then []
  else
    Table.select (fun _ => true) CronDueSchedule.before (min (max limit 1) 100).toNat
      (s.states.filterMap (s.due? scope now))

def isCursor (scope : CronOperationScope) (candidate : CronDueSchedule F) (state : CronScheduleState) : Bool :=
  state.jobId = candidate.snapshot.jobId && state.tenantId = scope.tenantId && state.projectId = scope.projectId &&
    state.status = .active && state.scheduleRevision = candidate.snapshot.scheduleRevision &&
    state.scheduleFingerprint = candidate.scheduleFingerprint && state.nextFireAt = some candidate.scheduledFor

-- `LOCK_CURSOR_SQL`.
def locksCursor (scope : CronOperationScope) (candidate : CronDueSchedule F) (authority : CronSchedulerLease)
    (observedAt : Timestamp) : Bool :=
  s.states.any fun state =>
    isCursor scope candidate state &&
    s.jobs.any (fun job =>
      job.id = state.jobId && job.tenantId = state.tenantId && job.projectId = state.projectId &&
        job.revision = candidate.snapshot.jobRevision && job.scheduleRevision = state.scheduleRevision &&
        job.enabled) &&
    s.owner.any (·.isCurrent authority observedAt)

def advance (next : CronScheduleProjection) (scheduledFor : Timestamp) (state : CronScheduleState)
    : CronScheduleState :=
  { state with
    status := next.status
    nextFireAt := next.nextFireAt.map lib.stored
    lastFireAt := some scheduledFor }

def commitFire (scope : CronOperationScope) (candidate : CronDueSchedule F) (next : CronScheduleProjection)
    (fire : NewCronScheduledFire) (authority : CronSchedulerLease) (observedAt : Timestamp)
    : ScheduleStore F × Except CronScheduleFireError (Option CommittedFire) :=
  match candidate.validateFire scope next fire authority observedAt with
  | .error e => (s, .error e)
  | .ok () =>
    if !s.locksCursor scope candidate authority (lib.stored observedAt) then (s, .ok none)
    else
      let run := candidate.run scope fire (lib.stored observedAt)
      let operation := candidate.operation scope fire (lib.stored observedAt)
      -- The inserts run into a key of the tables.
      if s.runs.any (·.id = run.id) || s.operations.any operation.conflicts then (s, .error .storage)
      else if (s.states.filter (isCursor scope candidate)).length ≠ 1 then (s, .ok none)
      else
        let states := Table.update (isCursor scope candidate) (advance lib next candidate.scheduledFor) s.states
        ({ s with states, runs := s.runs ++ [run], operations := s.operations ++ [operation] },
          .ok (some { authority, observedAt, nextFireAt := next.nextFireAt, run, operation }))

def setFire (call : Nat) (c : FireCall F) (place : FirePlace F) : ScheduleStore F :=
  { s with fires := s.fires.set call { c with place } }

def fireDue (authority : CronSchedulerLease) (tenantId projectId : String) (limit : Int) : ScheduleStore F :=
  let observedAt := s.now
  let place :=
    match validatedScope tenantId projectId with
    | .error e => .finished (.error e)
    | .ok _ =>
      if !authority.isStructurallyValid || authority.leaseExpiresAt ≤ observedAt then
        .finished (.error (.storage "cron scheduler authority is not current"))
      else
        .owned
  let call := { authority, scope := { tenantId, projectId }, limit, observedAt, place }
  { s with fires := s.fires ++ [call] }

def ownershipFailed : FirePlace F :=
  .finished (.error (.storage "cron scheduler ownership storage failed"))

def storageFailed : FirePlace F :=
  .finished (.error (.storage "cron scheduled fire storage failed"))

def isCurrent (call : Nat) (c : FireCall F) (delivery : Delivery) : ScheduleStore F :=
  match c.authority.validate, delivery with
  | .ok (), .ok =>
    if s.owner.any (·.isCurrent c.authority (lib.stored c.observedAt)) then s.setFire call c .listing
    else s.setFire call c (.finished (.error (.storage "cron scheduler authority is not current")))
  | _, _ => s.setFire call c ownershipFailed

def list (call : Nat) (c : FireCall F) (delivery : Delivery) : ScheduleStore F :=
  match delivery with
  | .ok =>
    let candidates := s.listDue c.scope (lib.stored c.observedAt) c.limit
    s.setFire call c (.committing candidates { due := candidates.length, committed := 0, lostCompareAndSet := 0 })
  | _ => s.setFire call c storageFailed

def commit (call : Nat) (c : FireCall F) (summary : CronScheduleFireSummary)
    (delivery : Delivery) : List (CronDueSchedule F) → ScheduleStore F × Option CommittedFire
  | [] => (s.setFire call c (.finished (.ok summary)), none)
  | candidate :: candidates =>
    match candidate.prepare lib c.scope c.observedAt with
    | .error e => (s.setFire call c (.finished (.error e)), none)
    | .ok (next, fire) =>
      match s.commitFire lib c.scope candidate next fire c.authority c.observedAt, delivery with
      | (s', .ok (some committed)), .ok =>
        (s'.setFire call c (.committing candidates { summary with committed := summary.committed + 1 }),
          some committed)
      | (s', .ok none), .ok =>
        (s'.setFire call c
            (.committing candidates { summary with lostCompareAndSet := summary.lostCompareAndSet + 1 }),
          none)
      | (s', .ok committed), .replyLost => (s'.setFire call c storageFailed, committed)
      | _, _ => (s.setFire call c storageFailed, none)

def proceedFire (call : Nat) (delivery : Delivery)
    : ScheduleStore F × Option CommittedFire :=
  match s.fires[call]? with
  | none => (s, none)
  | some c =>
    match c.place with
    | .owned => (s.isCurrent lib call c delivery, none)
    | .listing => (s.list lib call c delivery, none)
    | .committing candidates summary => s.commit lib call c summary delivery candidates
    | .finished _ => (s, none)

end Fire

section Reconcile

def expectedScheduleRevision (operation : CronOperation) : Option Int :=
  if operation.kind ≠ .reconcileSchedule then none else operation.scheduleRevision.filter (· > 0)

def staleScheduleFailure : CronOperationHandlerOutcome :=
  .retryOrDeadLetter {
    code := .staleRevision, redactedText := "cron schedule revision is stale", retryAfterSeconds := 5 }

def invalidScheduleFailure : CronOperationHandlerOutcome :=
  .retryOrDeadLetter {
    code := .invalidOperation, redactedText := "cron schedule reconciliation is invalid", retryAfterSeconds := 5 }

def reconciliationFailed : CoreError :=
  .storage "cron schedule reconciliation storage failed"

def target? (operation : CronOperation) : Option (CronJob F) :=
  s.jobs.find? fun job =>
    job.id = operation.jobId && job.tenantId = operation.tenantId && job.projectId = operation.projectId

-- `load_target`, and the projection of what it has loaded.
def load (operation : CronOperation) (delivery : Delivery) : ReconcilePlace :=
  match expectedScheduleRevision operation with
  | none => .finished (.ok invalidScheduleFailure)
  | some scheduleRevision =>
    if delivery ≠ .ok then .finished (.error reconciliationFailed)
    else
      match s.target? operation with
      | none => .finished (.ok invalidScheduleFailure)
      | some job =>
        if job.scheduleRevision ≠ scheduleRevision then .finished (.ok staleScheduleFailure)
        else
          match lib.projectSchedule job.snapshot s.now with
          | .error _ => .finished (.ok invalidScheduleFailure)
          | .ok projection => .applying projection s.now

def materialized (job : CronJob F) (projection : CronScheduleProjection) : CronScheduleState where
  jobId := job.id
  tenantId := job.tenantId
  projectId := job.projectId
  scheduleRevision := job.scheduleRevision
  status := projection.status
  scheduleFingerprint := projection.scheduleFingerprint
  nextFireAt := projection.nextFireAt.map lib.stored
  lastFireAt := none

def applyProjection (operation : CronOperation) (scheduleRevision : Int) (projection : CronScheduleProjection)
    : ScheduleStore F × Option CronScheduleState :=
  match s.target? operation with
  | none => (s, none)
  | some job =>
    if job.scheduleRevision ≠ scheduleRevision then (s, none)
    else
      let row := materialized lib job projection
      match s.states.find? (·.jobId = job.id) with
      | none => ({ s with states := s.states ++ [row] }, some row)
      | some state =>
        if state.scheduleRevision < row.scheduleRevision then
          let row := { row with lastFireAt := state.lastFireAt }
          ({ s with states := Table.update (·.jobId = job.id) (fun _ => row) s.states }, some row)
        else if state.scheduleRevision = row.scheduleRevision ∧
            state.scheduleFingerprint = row.scheduleFingerprint then
          (s, some state)
        else
          (s, none)

def setReconcile (call : Nat) (c : ReconcileCall) (place : ReconcilePlace) : ScheduleStore F :=
  { s with reconciles := s.reconciles.set call { c with place } }

def apply (call : Nat) (c : ReconcileCall) (projection : CronScheduleProjection) (delivery : Delivery)
    : ScheduleStore F :=
  match expectedScheduleRevision c.operation with
  | none => s.setReconcile call c (.finished (.ok invalidScheduleFailure))
  | some scheduleRevision =>
    if !projection.validate then s.setReconcile call c (.finished (.ok invalidScheduleFailure))
    else
      let (s', row) := s.applyProjection lib c.operation scheduleRevision projection
      match delivery, row with
      | .ok, some _ => s'.setReconcile call c (.finished (.ok .complete))
      | .ok, none => s'.setReconcile call c (.finished (.ok staleScheduleFailure))
      | .replyLost, _ => s'.setReconcile call c (.finished (.error reconciliationFailed))
      | .failed, _ => s.setReconcile call c (.finished (.error reconciliationFailed))

def proceedReconcile (call : Nat) (delivery : Delivery) : ScheduleStore F :=
  match s.reconciles[call]? with
  | none => s
  | some c =>
    match c.place with
    | .loading => s.setReconcile call c (s.load lib c.operation delivery)
    | .applying projection _ => s.apply lib call c projection delivery
    | .finished _ => s

end Reconcile

section Jobs

def createJob (job : CronJob F) : ScheduleStore F :=
  if s.jobs.any (·.id = job.id) then s else { s with jobs := s.jobs ++ [job] }

def editJob (id : String) (new : CronJob F) : ScheduleStore F :=
  { s with jobs := Table.update (·.id = id) (CronJob.edit lib · new) s.jobs }

end Jobs

def answer : ScheduleRequest F → ScheduleStore F × Option CommittedFire
  | .clock now => ({ s with now }, none)
  | .owner request => ({ s with owner := (CronSchedulerOwner.step s.owner s.txid request).1 }, none)
  | .createJob job => (s.createJob job, none)
  | .editJob id new => (s.editJob lib id new, none)
  | .fireDue authority tenantId projectId limit => (s.fireDue authority tenantId projectId limit, none)
  | .fire call delivery => s.proceedFire lib call delivery
  | .crashFire call =>
    match s.fires[call]? with
    | none => (s, none)
    | some c => (s.setFire call c storageFailed, none)
  | .reconcile operation => ({ s with reconciles := s.reconciles ++ [{ operation, place := .loading }] }, none)
  | .proceedReconcile call delivery => (s.proceedReconcile lib call delivery, none)
  | .crashReconcile call =>
    match s.reconciles[call]? with
    | none => (s, none)
    | some c => (s.setReconcile call c (.finished (.error reconciliationFailed)), none)

def step (lib : ScheduleLibrary F) (s : ScheduleStore F) (request : ScheduleRequest F)
    : ScheduleStore F × Option CommittedFire :=
  let (s', reply) := s.answer lib request
  ({ s' with txid := s.txid + 1 }, reply)

end ScheduleStore

end Cron
end MemStack
