import MemStack.Agent.Pool.ResourceManager
import MemStack.Util.Machine

/-!
This module contains the manager of the agent pool (`pool/manager.py`). A task takes one step from each point where it
waits to the next one: the lock of the instances, the end of a monitor, the lock of the resources, the creation of an
agent. Requests and health checks change the statuses of instances between the steps. No task is cancelled.
-/

namespace MemStack
namespace Agent
namespace Pool

inductive RecoveryAction where
  | restart
  | migrate
  | degrade
  | alert
  | terminate
  deriving DecidableEq, Repr

-- A call of `_create_instance` once the configuration is there.
structure Creation where
  tenantId : String
  projectId : String
  config : AgentInstanceConfig
  deriving DecidableEq

inductive Next where
  | finish
  | create (tenantId projectId agentMode : String) (configOverride : Option AgentInstanceConfig)
  -- The lock is given back before the creation.
  | migrate (config : AgentInstanceConfig)
  | removeAll (instances : List Nat)
  deriving DecidableEq

inductive Operation where
  | getOrCreateInstance (tenantId projectId agentMode : String) (configOverride : Option AgentInstanceConfig)
  | terminateInstance (tenantId projectId agentMode : String)
  | scaleInstances (tenantId projectId agentMode : String) (targetCount : Int)
  | setProjectTier (tenantId projectId agentMode : String) (tier : ProjectTier)
  | cleanupExpiredInstances
  | remove (instanceId : Nat) (next : Next)
  deriving DecidableEq

inductive Place where
  | waiting (operation : Operation)
  | stopping (instanceId : Nat) (next : Next)
  | releasing (instanceId : Nat) (next : Next)
  | allocating (creation : Creation)
  | acquiring (creation : Creation)
  | abandoning (creation : Creation)
  | initializing (instanceId : Nat) (creation : Creation)
  | failing (instanceId : Nat) (creation : Creation)
  | finished
  deriving DecidableEq

structure AgentPoolManager where
  resources : ResourceManager
  -- All instances that were ever created.
  created : List AgentInstance := []
  instances : Dict String Nat := .empty
  lock : Option Nat := none
  tasks : List Place := []

-- What a step finds: the tier and the quota that the project gets by default, whether the agent is created, and which
-- instances have been idle for too long.
structure Findings where
  tier : ProjectTier
  defaultQuota : ResourceQuota
  agentCreated : Bool
  idleExpired : List Nat

inductive PoolRequest where
  | getOrCreateInstance (tenantId projectId agentMode : String) (configOverride : Option AgentInstanceConfig)
  | terminateInstance (tenantId projectId agentMode : String)
  | scaleInstances (instanceKey : String) (targetCount : Int)
  | setProjectTier (tenantId projectId : String) (tier : ProjectTier) (agentMode : String)
  | cleanupExpiredInstances
  | executeRecovery (instanceId : Nat) (action : RecoveryAction)
  | proceed (task : Nat) (findings : Findings)
  | use (instanceId : Nat) (trigger : Trigger)

-- `split(":", 2)` into three parts that are not empty.
def parseInstanceKey (instanceKey : String) : Option (String × String × String) :=
  let tenantId := instanceKey.toList.takeWhile (· ≠ ':')
  let rest := (instanceKey.toList.dropWhile (· ≠ ':')).drop 1
  let projectId := rest.takeWhile (· ≠ ':')
  let agentMode := (rest.dropWhile (· ≠ ':')).drop 1
  if tenantId = [] ∨ projectId = [] ∨ agentMode = [] then none
  else some (String.ofList tenantId, String.ofList projectId, String.ofList agentMode)

namespace AgentPoolManager

variable (s : AgentPoolManager)

def getInstance (tenantId projectId agentMode : String) : Option Nat :=
  s.instances.get (AgentInstanceConfig.instanceKey tenantId projectId agentMode)

def isActive (instanceId : Nat) : Bool :=
  (s.created[instanceId]?).any (·.status.isActive)

def setPlace (task : Nat) (place : Place) : AgentPoolManager :=
  { s with tasks := s.tasks.set task place }

def setStatus (instanceId : Nat) (status : AgentInstanceStatus) : AgentPoolManager :=
  { s with created := s.created.modify instanceId fun i => { i with status } }

def unlock (task : Nat) : AgentPoolManager :=
  { s with lock := if s.lock = some task then none else s.lock }

def finish (task : Nat) : AgentPoolManager :=
  (s.unlock task).setPlace task .finished

def spawn (place : Place) : AgentPoolManager :=
  { s with tasks := s.tasks ++ [place] }

def defaultConfig (tenantId projectId agentMode : String) (findings : Findings) : AgentInstanceConfig where
  projectId := projectId
  tenantId := tenantId
  agentMode := agentMode
  tier := findings.tier
  quota := findings.defaultQuota

-- `_create_instance` up to the allocation.
def create (task : Nat) (tenantId projectId agentMode : String) (configOverride : Option AgentInstanceConfig)
    (findings : Findings) : AgentPoolManager :=
  let config := configOverride.getD (defaultConfig tenantId projectId agentMode findings)
  s.setPlace task (.allocating { tenantId, projectId, config })

def removeAll (task : Nat) : List Nat → AgentPoolManager
  | [] => s.finish task
  | instanceId :: instances => s.setPlace task (.stopping instanceId (.removeAll instances))

def proceedNext (task : Nat) (next : Next) (findings : Findings) : AgentPoolManager :=
  match next with
  | .finish => s.finish task
  | .create tenantId projectId agentMode configOverride =>
    s.create task tenantId projectId agentMode configOverride findings
  | .migrate config =>
    (s.unlock task).setPlace task
      (.allocating { tenantId := config.tenantId, projectId := config.projectId, config })
  | .removeAll instances => s.removeAll task instances

def expired (findings : Findings) : List Nat :=
  s.instances.values.filter fun instanceId =>
    findings.idleExpired.contains instanceId || (s.created[instanceId]?).any (·.status = .terminated)

def setTier (instanceId : Nat) (tier : ProjectTier) : AgentPoolManager :=
  { s with
    created := s.created.modify instanceId fun i =>
      if i.config.tier ≠ tier then { i with config := { i.config.withTier tier with tierOverride := true } } else i }

def operate (task : Nat) (operation : Operation) (findings : Findings) : AgentPoolManager :=
  match operation with
  | .getOrCreateInstance tenantId projectId agentMode configOverride =>
    match s.getInstance tenantId projectId agentMode with
    | some instanceId =>
      if s.isActive instanceId then s.finish task
      else s.setPlace task (.stopping instanceId (.create tenantId projectId agentMode configOverride))
    | none => s.create task tenantId projectId agentMode configOverride findings
  | .terminateInstance tenantId projectId agentMode =>
    match s.getInstance tenantId projectId agentMode with
    | some instanceId => s.setPlace task (.stopping instanceId .finish)
    | none => s.finish task
  | .scaleInstances tenantId projectId agentMode targetCount =>
    match s.getInstance tenantId projectId agentMode with
    | some instanceId =>
      if s.isActive instanceId then
        -- It is there already, or the count is not supported.
        if targetCount = 0 then s.setPlace task (.stopping instanceId .finish) else s.finish task
      else
        let next := if targetCount = 1 then .create tenantId projectId agentMode none else .finish
        s.setPlace task (.stopping instanceId next)
    | none => if targetCount = 1 then s.create task tenantId projectId agentMode none findings else s.finish task
  | .setProjectTier tenantId projectId agentMode tier =>
    match s.getInstance tenantId projectId agentMode with
    | some instanceId => (s.setTier instanceId tier).finish task
    | none => s.finish task
  | .cleanupExpiredInstances => s.removeAll task (s.expired findings)
  | .remove instanceId next => s.setPlace task (.stopping instanceId next)

-- `_remove_instance` from the end of the monitor to the lock of the resources.
def stop (task instanceId : Nat) (next : Next) : AgentPoolManager :=
  match s.created[instanceId]? with
  | none => s
  | some i =>
    let s := if i.status = .terminated ∨ i.status = .terminating then s else s.setStatus instanceId i.status.stop
    s.setPlace task (.releasing instanceId next)

def releaseAndRemove (task instanceId : Nat) (next : Next) (findings : Findings) : AgentPoolManager :=
  match s.created[instanceId]? with
  | none => s
  | some i =>
    let quota := i.config.quota
    let (resources, _) :=
      s.resources.releaseInstance i.config.tenantId i.config.projectId quota.memoryRequestMb quota.cpuRequestCores
    { s with resources, instances := s.instances.erase i.config.key }.proceedNext task next findings

def allocate (task : Nat) (creation : Creation) : AgentPoolManager :=
  match s.resources.allocate creation.config with
  | .error _ => s.finish task
  | .ok resources => { s with resources }.setPlace task (.acquiring creation)

def acquire (task : Nat) (creation : Creation) : AgentPoolManager :=
  let quota := creation.config.quota
  let acquired :=
    s.resources.acquireInstance creation.tenantId creation.projectId quota.memoryRequestMb quota.cpuRequestCores
  match acquired with
  | (resources, false) => { s with resources }.setPlace task (.abandoning creation)
  | (resources, true) =>
    let i : AgentInstance := { config := creation.config, status := AgentInstanceStatus.created.initializeInstance }
    { s with resources, created := s.created ++ [i] }.setPlace task (.initializing s.created.length creation)

def abandon (task : Nat) (creation : Creation) : AgentPoolManager :=
  let (resources, _) := s.resources.release creation.tenantId creation.projectId
  { s with resources }.finish task

-- The end of `initialize`. The instance is registered, or its resources are to be given back.
def register (task instanceId : Nat) (creation : Creation) (findings : Findings) : AgentPoolManager :=
  if findings.agentCreated then
    { s with
      created := s.created.modify instanceId fun i =>
        { i with status := i.status.tryTransition .initializationComplete, initialized := true }
      instances := s.instances.set creation.config.key instanceId }.finish task
  else
    { s with
      created := s.created.modify instanceId fun i =>
        { i with status := i.status.tryTransition .initializationFailed } }.setPlace task (.failing instanceId creation)

def giveBack (task : Nat) (creation : Creation) : AgentPoolManager :=
  let quota := creation.config.quota
  let (resources, _) :=
    s.resources.releaseInstance creation.tenantId creation.projectId quota.memoryRequestMb quota.cpuRequestCores
  { s with resources }.finish task

def proceed (task : Nat) (findings : Findings) : AgentPoolManager :=
  match s.tasks[task]? with
  | none | some .finished => s
  | some (.waiting operation) =>
    if s.lock = none then { s with lock := some task }.operate task operation findings else s
  | some (.stopping instanceId next) => s.stop task instanceId next
  | some (.releasing instanceId next) => s.releaseAndRemove task instanceId next findings
  | some (.allocating creation) => s.allocate task creation
  | some (.acquiring creation) => s.acquire task creation
  | some (.abandoning creation) => s.abandon task creation
  | some (.initializing instanceId creation) => s.register task instanceId creation findings
  | some (.failing _ creation) => s.giveBack task creation

def downgraded : ProjectTier → ProjectTier
  | .hot => .warm
  | _ => .cold

def executeRecovery (instanceId : Nat) (action : RecoveryAction) : AgentPoolManager :=
  match s.created[instanceId]? with
  | none => s
  | some i =>
    if !i.initialized then s
    else
      match action with
      | .restart => s.setStatus instanceId i.status.initializeInstance
      | .terminate => s.spawn (.waiting (.remove instanceId .finish))
      | .migrate =>
        s.spawn (.waiting (.remove instanceId (.migrate (i.config.withTier (downgraded i.config.tier)))))
      | .degrade | .alert => s

def step : PoolRequest → AgentPoolManager
  | .getOrCreateInstance tenantId projectId agentMode configOverride =>
    s.spawn (.waiting (.getOrCreateInstance tenantId projectId agentMode configOverride))
  | .terminateInstance tenantId projectId agentMode =>
    s.spawn (.waiting (.terminateInstance tenantId projectId agentMode))
  | .scaleInstances instanceKey targetCount =>
    match parseInstanceKey instanceKey with
    | none => s
    | some (tenantId, projectId, agentMode) =>
      if targetCount < 0 then s
      else s.spawn (.waiting (.scaleInstances tenantId projectId agentMode targetCount))
  | .setProjectTier tenantId projectId tier agentMode =>
    s.spawn (.waiting (.setProjectTier tenantId projectId agentMode tier))
  | .cleanupExpiredInstances => s.spawn (.waiting .cleanupExpiredInstances)
  | .executeRecovery instanceId action => s.executeRecovery instanceId action
  | .proceed task findings => s.proceed task findings
  | .use instanceId trigger =>
    match s.created[instanceId]? with
    | none => s
    | some i => if trigger.isUse then s.setStatus instanceId (i.status.tryTransition trigger) else s

end AgentPoolManager

end Pool
end Agent
end MemStack
