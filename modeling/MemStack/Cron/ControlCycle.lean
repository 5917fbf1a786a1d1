import MemStack.Cron.ScheduleFire
import MemStack.Util.OnePass

/-!
This module contains the control cycle of the cron scheduler (`cron_scheduler/runner.rs`), the control step of
a scope (`cron_scheduler/driver.rs`) and the loop of `fire_due` (`cron_schedule_fire.rs`) within it. What the
stores come to is given.
-/

namespace MemStack
namespace Cron

variable {F : Type}

structure CronControlScope where
  tenantId : String
  projectId : String
  deriving DecidableEq, Repr

structure CronScopeControlReport where
  reconcileAdmitted : Nat
  operationsClaimed : Nat
  scheduledRunsCommitted : Nat
  deriving DecidableEq, Repr

structure CronSchedulerRunReport where
  authorityAcquired : Bool := false
  authorityLost : Bool := false
  pages : Nat := 0
  scopes : Nat := 0
  reconcileAdmitted : Nat := 0
  operationsClaimed : Nat := 0
  scheduledRunsCommitted : Nat := 0
  deriving DecidableEq, Repr

def CronSchedulerRunReport.add (report : CronSchedulerRunReport) (scope : CronScopeControlReport)
    : CronSchedulerRunReport :=
  { report with
    scopes := report.scopes + 1
    reconcileAdmitted := report.reconcileAdmitted + scope.reconcileAdmitted
    operationsClaimed := report.operationsClaimed + scope.operationsClaimed
    scheduledRunsCommitted := report.scheduledRunsCommitted + scope.scheduledRunsCommitted }

-- What the transaction of `commit_fire` comes to.
inductive FireTransaction where
  | committed
  | lost
  | failed
  deriving DecidableEq, Repr

structure ScopeStores (F : Type) where
  admitted : Except CoreError Nat
  -- What is claimed before and after the fires.
  before : Except CoreError Nat
  after : Except CoreError Nat
  observedAt : Timestamp
  isCurrent : Except CronSchedulerOwnerError Bool
  due : Except CronScheduleFireError (List (CronDueSchedule F))
  transaction : CronDueSchedule F → FireTransaction

section Fire

variable (lib : ScheduleLibrary F) (authority : CronSchedulerLease) (scope : CronOperationScope)
  (stores : ScopeStores F)

-- The checks of the loop and of `commit_fire` up to its transaction.
@[irreducible]
def check (candidate : CronDueSchedule F) : Except CoreError Unit :=
  match candidate.prepare lib scope stores.observedAt with
  | .error e => .error e
  | .ok (next, fire) =>
    match candidate.validateFire scope next fire authority stores.observedAt with
    | .error _ => .error (.storage "cron scheduled fire storage failed")
    | .ok () => .ok ()

def fireLoop (summary : CronScheduleFireSummary) : List (CronDueSchedule F) →
    Except CoreError CronScheduleFireSummary × List (CronDueSchedule F)
  | [] => (.ok summary, [])
  | candidate :: candidates =>
    match check lib authority scope stores candidate with
    | .error e => (.error e, [])
    | .ok () =>
      match stores.transaction candidate with
      | .failed => (.error (.storage "cron scheduled fire storage failed"), [candidate])
      | .committed =>
        let (result, begun) := fireLoop { summary with committed := summary.committed + 1 } candidates
        (result, candidate :: begun)
      | .lost =>
        let (result, begun) :=
          fireLoop { summary with lostCompareAndSet := summary.lostCompareAndSet + 1 } candidates
        (result, candidate :: begun)

-- `fire_due` up to its loop.
def dueCandidates (scope : CronControlScope) : Except CoreError (List (CronDueSchedule F)) := do
  let _ ← validatedScope scope.tenantId scope.projectId
  if !authority.isStructurallyValid || authority.leaseExpiresAt ≤ stores.observedAt then
    .error (.storage "cron scheduler authority is not current")
  else
    match stores.isCurrent with
    | .error _ => .error (.storage "cron scheduler ownership storage failed")
    | .ok false => .error (.storage "cron scheduler authority is not current")
    | .ok true =>
      match stores.due with
      | .error _ => .error (.storage "cron scheduled fire storage failed")
      | .ok candidates => .ok candidates

end Fire

def CronControlScope.operationScope (scope : CronControlScope) : CronOperationScope where
  tenantId := scope.tenantId
  projectId := scope.projectId

structure ControlStep (F : Type) where
  authority : CronSchedulerLease
  scope : CronControlScope
  stores : ScopeStores F

namespace ControlStep

variable (lib : ScheduleLibrary F) (step : ControlStep F)

-- The candidates of the call of `fire_due`, when the step gets there.
def candidates : Except CoreError (List (CronDueSchedule F)) := do
  let _ ← step.stores.admitted
  let _ ← step.stores.before
  dueCandidates step.authority step.stores step.scope

def fireDue (candidates : List (CronDueSchedule F))
    : Except CoreError CronScheduleFireSummary × List (CronDueSchedule F) :=
  fireLoop lib step.authority step.scope.operationScope step.stores
    { due := candidates.length, committed := 0, lostCompareAndSet := 0 } candidates

def driveControlScope : Except CoreError CronScopeControlReport := do
  let admitted ← step.stores.admitted
  let before ← step.stores.before
  let candidates ← dueCandidates step.authority step.stores step.scope
  let fire ← (step.fireDue lib candidates).1
  let after ← step.stores.after
  return {
    reconcileAdmitted := admitted
    operationsClaimed := before + after
    scheduledRunsCommitted := fire.committed }

end ControlStep

structure CycleStores (F : Type) where
  acquired : Except CronSchedulerOwnerError (Option CronSchedulerLease)
  workScopes (page : Nat) (after : Option CronControlScope) : Except CoreError (List CronControlScope)
  scope (page : Nat) (scope : CronControlScope) : ScopeStores F
  renewed (page : Nat) : Except CronSchedulerOwnerError (Option CronSchedulerLease)
  released : Except CronSchedulerOwnerError Bool

structure CronSchedulerConfig where
  scopePageSize : Nat
  maxScopePages : Nat

structure ControlRun (F : Type) where
  report : CronSchedulerRunReport
  scopes : List CronControlScope := []
  -- The scopes whose control step is begun.
  driven : List (ControlStep F) := []

namespace CycleStores

variable (lib : ScheduleLibrary F) (config : CronSchedulerConfig) (cycle : CycleStores F)

def steps (authority : CronSchedulerLease) (page : Nat) (scopes : List CronControlScope) : List (ControlStep F) :=
  scopes.map fun scope => { authority, scope, stores := cycle.scope page scope }

def drivePage (run : ControlRun F) : List (ControlStep F) → ControlRun F × Except CoreError Unit
  | [] => (run, .ok ())
  | step :: steps =>
    let run := { run with driven := run.driven ++ [step] }
    match step.driveControlScope lib with
    | .error e => (run, .error e)
    | .ok scopeReport => drivePage { run with report := run.report.add scopeReport } steps

def ownershipError : CoreError :=
  .storage "cron scheduler ownership storage failed"

-- `left` pages may still be listed.
def driveControlPages (left page : Nat) (authority : CronSchedulerLease) (after : Option CronControlScope)
    (run : ControlRun F) : ControlRun F × Except CoreError Unit :=
  match left with
  | 0 => (run, .ok ())
  | left + 1 =>
    match cycle.workScopes page after with
    | .error e => (run, .error e)
    | .ok [] => (run, .ok ())
    | .ok (scope :: scopes) =>
      let listed := scope :: scopes
      let run := { run with report := { run.report with pages := run.report.pages + 1 } }
      match drivePage lib run (cycle.steps authority page listed) with
      | (run, .error e) => (run, .error e)
      | (run, .ok ()) =>
        let run := { run with scopes := run.scopes ++ listed }
        let pageIsFull := listed.length = config.scopePageSize
        if ¬ pageIsFull ∨ left = 0 then (run, .ok ())
        else
          match cycle.renewed page with
          | .error _ => (run, .error ownershipError)
          | .ok none => ({ run with report := { run.report with authorityLost := true } }, .ok ())
          | .ok (some authority) => driveControlPages left (page + 1) authority listed.getLast? run

def runControlOnce : Except CoreError (CronSchedulerRunReport × List CronControlScope) × ControlRun F :=
  match cycle.acquired with
  | .error _ => (.error ownershipError, { report := {} })
  | .ok none => (.ok ({}, []), { report := {} })
  | .ok (some authority) =>
    match driveControlPages lib config cycle config.maxScopePages 0 authority none
      { report := { authorityAcquired := true } } with
    | (run, .error e) => (.error e, run)
    | (run, .ok ()) =>
      match cycle.released with
      | .error _ => (.error ownershipError, run)
      | .ok released =>
        (.ok ({ run.report with authorityLost := run.report.authorityLost || !released }, run.scopes), run)

end CycleStores

end Cron
end MemStack
