import MemStack.Util.Dict
import MemStack.Util.Machine

/-!
This module contains the pool of sandbox resources (`domain/model/sandbox/resource_pool.py`). The bodies
of its operations run under one lock, which is only let go of while an acquirer waits on the condition, so
a step is one operation or what a woken acquirer does next. What the factory, the validation, the choice
from a set, the random ids and the clock come to are inputs of the step.
-/

namespace MemStack
namespace Sandbox

structure PoolConfig (T : Type) where
  poolName : String := "resource"
  maxSize : Nat := 10
  hasCleanup : Bool := true
  truthy : T → Bool
  maxSize_pos : 0 < maxSize := by decide

structure Resource (T : Type) where
  serial : Nat
  value : T
  deriving DecidableEq, Repr

inductive PoolError where
  | resource (message : String) (resourceType : String)
  | timeout (message : String)
  | factory
  | validate
  deriving DecidableEq, Repr

structure ResourcePool (T : Type) where
  resources : Dict String (Resource T) := .empty
  available : List String := []
  inUse : List String := []
  isClosed : Bool := false
  waiters : List Bool := []
  made : List (Resource T) := []
  cleanedUp : List (Resource T) := []

structure Outside (T : Type) where
  pick : Nat
  valid : Option Bool
  made : Option T
  uuid : String
  late : Bool

inductive Request (T : Type) where
  | acquire (resourceId : Option String) (outside : Outside T)
  | resume (waiter : Nat) (outside : Outside T)
  | expire (waiter : Nat) (passOn : Bool)
  | release (resourceId : String)
  | remove (resourceId : String)
  | close

inductive Reply where
  | acquired (resourceId : String)
  | raised (error : PoolError)
  | waiting
  | done
  deriving DecidableEq, Repr

def notifyOne : List Bool → List Bool
  | [] => []
  | false :: waiters => true :: waiters
  | true :: waiters => true :: notifyOne waiters

namespace ResourcePool

variable {T : Type} (config : PoolConfig T) (outside : Outside T) (pool : ResourcePool T)

def discard (ids : List String) (id : String) : List String :=
  ids.filter (· ≠ id)

def cleanup (resource : Option (Resource T)) : ResourcePool T :=
  match resource with
  | some resource =>
    if config.truthy resource.value && config.hasCleanup then
      { pool with cleanedUp := pool.cleanedUp ++ [resource] }
    else
      pool
  | none => pool

def createResource (id : String) : ResourcePool T × Reply :=
  match outside.made with
  | some value =>
    let resource := { serial := pool.made.length, value }
    ({ pool with
        resources := pool.resources.set id resource
        inUse := pool.inUse.insert id
        made := pool.made ++ [resource] },
      .acquired id)
  | none => (pool, .raised .factory)

def acquireSpecific (id : String) : ResourcePool T × Reply :=
  if id ∈ pool.available then
    ({ pool with available := discard pool.available id, inUse := pool.inUse.insert id }, .acquired id)
  else if id ∈ pool.inUse then
    (pool, .raised (.resource s!"Resource '{id}' is already in use" "resource"))
  else if config.maxSize ≤ pool.resources.entries.length then
    (pool, .raised (.resource s!"Pool '{config.poolName}' is at max capacity" "pool"))
  else
    pool.createResource outside id

def nextIter (ids : List String) : Option String :=
  ids[outside.pick % ids.length]?

def tryTakeValidatedResource : ResourcePool T × Except PoolError (Option String) :=
  match nextIter outside pool.available with
  | none => (pool, .ok none)
  | some id =>
    let resource := pool.resources.get id
    let pool := { pool with available := discard pool.available id }
    match if resource.any fun resource => config.truthy resource.value then outside.valid else some false with
    | some true => ({ pool with inUse := pool.inUse.insert id }, .ok (some id))
    | some false =>
      let pool := pool.cleanup config resource
      ({ pool with resources := pool.resources.erase id }, .ok none)
    -- The id is out of the available ones by now.
    | none => (pool, .error .validate)

def createOrWait : ResourcePool T × Reply :=
  if pool.resources.entries.length < config.maxSize then
    pool.createResource outside outside.uuid
  else if outside.late then
    (pool, .raised (.timeout s!"Acquire timeout for pool '{config.poolName}'"))
  else
    ({ pool with waiters := pool.waiters ++ [false] }, .waiting)

def acquireAny : ResourcePool T × Reply :=
  let (pool, id) := pool.tryTakeValidatedResource config outside
  match id with
  | .ok (some id) => (pool, .acquired id)
  | .ok none => pool.createOrWait config outside
  | .error error => (pool, .raised error)

def acquire (resourceId : Option String) : ResourcePool T × Reply :=
  if pool.isClosed then
    (pool, .raised (.resource s!"Pool '{config.poolName}' is closed" "pool"))
  else
    match resourceId.filter (· ≠ "") with
    | some id => pool.acquireSpecific config outside id
    | none => pool.acquireAny config outside

def resume (waiter : Nat) : ResourcePool T × Reply :=
  if pool.waiters[waiter]? = some true then
    { pool with waiters := pool.waiters.eraseIdx waiter }.acquireAny config outside
  else
    (pool, .waiting)

def expire (waiter : Nat) (passOn : Bool) : ResourcePool T × Reply :=
  if waiter < pool.waiters.length then
    let waiters := pool.waiters.eraseIdx waiter
    ({ pool with waiters := if passOn then notifyOne waiters else waiters },
      .raised (.timeout s!"Acquire timeout for pool '{config.poolName}'"))
  else
    (pool, .waiting)

def release (id : String) : ResourcePool T :=
  if id ∈ pool.inUse then
    { pool with
      inUse := discard pool.inUse id
      available := pool.available.insert id
      waiters := notifyOne pool.waiters
    }
  else
    pool

def remove (id : String) : ResourcePool T :=
  let resource := pool.resources.get id
  let pool := { pool with
    available := discard pool.available id
    inUse := discard pool.inUse id
    resources := pool.resources.erase id
  }
  pool.cleanup config resource

def close : ResourcePool T :=
  if pool.isClosed then
    pool
  else
    let pool := pool.resources.keys.foldl (remove config) { pool with isClosed := true }
    { pool with waiters := pool.waiters.map fun _ => true }

def step (pool : ResourcePool T) : Request T → ResourcePool T × Reply
  | .acquire resourceId outside => pool.acquire config outside resourceId
  | .resume waiter outside => pool.resume config outside waiter
  | .expire waiter passOn => pool.expire config waiter passOn
  | .release id => (pool.release id, .done)
  | .remove id => (pool.remove config id, .done)
  | .close => (pool.close config, .done)

end ResourcePool

end Sandbox
end MemStack
