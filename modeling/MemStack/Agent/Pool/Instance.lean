import Mathlib

/-!
This module contains the configurations of agent instances (`pool/config.py`), their lifecycle
(`pool/lifecycle/state_machine.py`) and what initializing and stopping an instance does to it (`pool/instance.py`).
-/

namespace MemStack
namespace Agent
namespace Pool

inductive ProjectTier where
  | hot
  | warm
  | cold
  deriving DecidableEq, Repr

structure ResourceQuota where
  memoryRequestMb : Rat
  cpuRequestCores : Rat
  maxInstances : Int
  deriving DecidableEq

structure AgentInstanceConfig where
  projectId : String
  tenantId : String
  agentMode : String
  tier : ProjectTier
  tierOverride : Bool := false
  quota : ResourceQuota
  deriving DecidableEq

namespace AgentInstanceConfig

def instanceKey (tenantId projectId agentMode : String) : String :=
  tenantId ++ ":" ++ projectId ++ ":" ++ agentMode

variable (config : AgentInstanceConfig)

def key : String :=
  instanceKey config.tenantId config.projectId config.agentMode

def withTier (tier : ProjectTier) : AgentInstanceConfig :=
  { config with tier }

end AgentInstanceConfig

inductive AgentInstanceStatus where
  | created
  | initializing
  | initializationFailed
  | ready
  | executing
  | paused
  | unhealthy
  | degraded
  | terminating
  | terminated
  deriving DecidableEq, Repr

inductive Trigger where
  | initializeInstance
  | initializationComplete
  | initializationFailed
  | retry
  | execute
  | complete
  | pause
  | resume
  | healthCheckFailed
  | recover
  | degrade
  | terminate
  | terminated
  | forceTerminate
  deriving DecidableEq, Repr

def Trigger.isUse : Trigger → Bool
  | .execute | .complete | .pause | .resume | .healthCheckFailed | .recover | .degrade => true
  | _ => false

namespace AgentInstanceStatus

-- `VALID_TRANSITIONS`. There is none where `transition` raises.
def transition : AgentInstanceStatus → Trigger → Option AgentInstanceStatus
  | created, .initializeInstance => some initializing
  | initializing, .initializationComplete => some ready
  | initializing, .initializationFailed => some initializationFailed
  | initializationFailed, .retry => some initializing
  | ready, .execute => some executing
  | executing, .complete => some ready
  | ready, .pause => some paused
  | paused, .resume => some ready
  | executing, .pause => some paused
  | ready, .healthCheckFailed => some unhealthy
  | executing, .healthCheckFailed => some unhealthy
  | paused, .healthCheckFailed => some unhealthy
  | unhealthy, .recover => some ready
  | unhealthy, .degrade => some degraded
  | degraded, .recover => some ready
  | degraded, .healthCheckFailed => some unhealthy
  | ready, .terminate => some terminating
  | paused, .terminate => some terminating
  | unhealthy, .terminate => some terminating
  | degraded, .terminate => some terminating
  | initializationFailed, .terminate => some terminating
  | terminating, .terminated => some terminated
  | executing, .forceTerminate => some terminating
  | created, .forceTerminate => some terminated
  | initializing, .forceTerminate => some terminated
  | _, _ => none

variable (status : AgentInstanceStatus)

-- Where `can_transition` is asked first.
def tryTransition (trigger : Trigger) : AgentInstanceStatus :=
  (status.transition trigger).getD status

def isActive : Bool :=
  status = ready || status = executing || status = degraded

-- `stop(graceful=False)`.
def stop : AgentInstanceStatus :=
  let status :=
    match status.transition .terminate with
    | some status => status
    | none => status.tryTransition .forceTerminate
  status.tryTransition .terminated

-- What `initialize` does to an instance up to the creation of its agent, which comes only to an instance that was
-- just created. Elsewhere the first transition raises, and then the one to `initialization_failed`.
def initializeInstance : AgentInstanceStatus :=
  match status.transition .initializeInstance with
  | some status => status
  | none => status.tryTransition .initializationFailed

def wasReady : Bool :=
  match status with
  | ready | executing | paused | unhealthy | degraded | terminated => true
  | created | initializing | initializationFailed | terminating => false

variable {status : AgentInstanceStatus}

theorem stop_of_wasReady (h : status.wasReady = true) : status.stop = terminated := by
  revert h
  cases status <;> decide

theorem initializeInstance_of_wasReady (h : status.wasReady = true) : status.initializeInstance = status := by
  revert h
  cases status <;> decide

theorem use_wasReady {trigger : Trigger} (huse : trigger.isUse = true) (h : status.wasReady = true)
    : (status.tryTransition trigger).wasReady = true := by
  revert huse h
  cases status <;> cases trigger <;> decide

theorem use_terminated {trigger : Trigger} (huse : trigger.isUse = true)
    : terminated.tryTransition trigger = terminated := by
  revert huse
  cases trigger <;> decide

theorem use_initializing {trigger : Trigger} (huse : trigger.isUse = true)
    : initializing.tryTransition trigger = initializing := by
  revert huse
  cases trigger <;> decide

end AgentInstanceStatus

structure AgentInstance where
  config : AgentInstanceConfig
  status : AgentInstanceStatus
  initialized : Bool := false
  deriving DecidableEq

end Pool
end Agent
end MemStack
