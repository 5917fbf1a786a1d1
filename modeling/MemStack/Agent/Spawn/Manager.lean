import MemStack.Util.Dict

/-!
This module contains the manager of spawned sessions that keeps its records in memory
(`agent/orchestration/spawn_manager.py`). The set of the children of a session is a list without repetitions in
the order in which they were added. Drawn record ids and the times at which records are created are inputs.
-/

namespace MemStack
namespace Agent
namespace Spawn

inductive SpawnMode where
  | run
  | session
  deriving DecidableEq, Repr

structure SpawnRecord where
  id : String
  parentAgentId : String
  childAgentId : String
  childSessionId : String
  projectId : String
  mode : SpawnMode
  taskSummary : String
  status : String
  traceId : String
  spanId : String
  createdAt : Int
  deriving DecidableEq, Repr

structure SpawnDepthExceededError where
  currentDepth : Nat
  maxDepth : Nat
  deriving DecidableEq, Repr

-- The arguments of `register_spawn` that go into the record and the indexes.
structure SpawnRequest where
  parentAgentId : String
  childAgentId : String
  childSessionId : String
  projectId : String
  mode : SpawnMode
  taskSummary : String
  parentSessionId : Option String
  traceId : String
  spanId : String
  deriving DecidableEq, Repr

def SpawnRequest.record (request : SpawnRequest) (id : String) (now : Int) : SpawnRecord where
  id
  parentAgentId := request.parentAgentId
  childAgentId := request.childAgentId
  childSessionId := request.childSessionId
  projectId := request.projectId
  mode := request.mode
  taskSummary := request.taskSummary
  status := "running"
  traceId := request.traceId
  spanId := request.spanId
  createdAt := now

def SpawnRequest.parent (request : SpawnRequest) : Option String :=
  request.parentSessionId.filter (· ≠ "")

def SpawnRecord.withStatus (record : SpawnRecord) (status : String) : SpawnRecord :=
  { record with status }

section Traversals

structure Links where
  record : String → Option SpawnRecord
  children : String → List String
  parent : String → Option String

namespace Links

variable (links : Links)

-- The loop of `_compute_depth_locked`: the depth, and the session at which the loop ends.
def climb : Nat → List String → Nat → Option String → Nat × Option String
  | 0, _, depth, current => (depth, current)
  | _ + 1, _, depth, none => (depth, none)
  | fuel + 1, visited, depth, some current =>
    if current = "" ∨ current ∈ visited then (depth, some current)
    else if (links.record current).isNone then (depth, some current)
    else climb fuel (current :: visited) (depth + 1) (links.parent current)

structure Traversal where
  queue : List String
  visited : List String
  result : List SpawnRecord

def visit (t : Traversal) (child : String) : Traversal :=
  if child ∈ t.visited then t
  else
    match links.record child with
    | none => { t with visited := child :: t.visited }
    | some record => ⟨t.queue ++ [child], child :: t.visited, t.result ++ [record]⟩

def traverse : Nat → Traversal → List SpawnRecord
  | 0, t => t.result
  | fuel + 1, t =>
    match t.queue with
    | [] => t.result
    | current :: queue =>
      traverse fuel (((links.children current).insertionSort (· ≤ ·)).foldl links.visit { t with queue })

def findDescendants (fuel : Nat) (session : String) (includeSelf : Bool) : List SpawnRecord :=
  let own := if includeSelf then (links.record session).toList else []
  links.traverse fuel ⟨[session], [session], own⟩

end Links

end Traversals

structure SpawnManager where
  maxSpawnDepth : Int
  recordsByChildSession : Dict String SpawnRecord
  childrenByParent : Dict String (List String)

namespace SpawnManager

def empty (maxSpawnDepth : Int) : SpawnManager :=
  ⟨maxSpawnDepth, .empty, .empty⟩

variable (s : SpawnManager)

def limit : Nat :=
  (max 1 s.maxSpawnDepth).toNat

def children (parent : String) : List String :=
  (s.childrenByParent.get parent).getD []

def findParentSessionLocked (child : String) : Option String :=
  (s.childrenByParent.entries.find? fun entry => decide (child ∈ entry.2)).map Prod.fst

def links : Links where
  record := s.recordsByChildSession.get
  children := s.children
  parent := s.findParentSessionLocked

def fuel : Nat :=
  s.recordsByChildSession.entries.length + 1

def climb (session : Option String) : Nat × Option String :=
  s.links.climb s.fuel [] 0 session

def computeDepthLocked (session : Option String) : Nat :=
  (s.climb session).1

def addChild (parent child : String) : SpawnManager :=
  if child ∈ s.children parent then s
  else { s with childrenByParent := s.childrenByParent.set parent (s.children parent ++ [child]) }

def registerSpawn (request : SpawnRequest) (id : String) (now : Int)
    : SpawnManager × Except SpawnDepthExceededError SpawnRecord :=
  let depth := s.computeDepthLocked request.parentSessionId
  if s.limit ≤ depth then
    (s, .error ⟨depth, s.limit⟩)
  else
    let record := request.record id now
    let stored :=
      { s with recordsByChildSession := s.recordsByChildSession.set request.childSessionId record }
    match request.parent with
    | none => (stored, .ok record)
    | some parent => (stored.addChild parent request.childSessionId, .ok record)

def updateStatus (child newStatus : String) : SpawnManager × Option SpawnRecord :=
  match s.recordsByChildSession.get child with
  | none => (s, none)
  | some old =>
    let updated := old.withStatus newStatus
    ({ s with recordsByChildSession := s.recordsByChildSession.set child updated }, some updated)

def findDescendants (session : String) (includeSelf : Bool) : List SpawnRecord :=
  s.links.findDescendants s.fuel session includeSelf

def toStop (session : String) : List String :=
  ((s.findDescendants session false).reverse.filter (·.status = "running")).map (·.childSessionId)

def stopAll (children : List String) : SpawnManager :=
  children.foldl (fun s child => (s.updateStatus child "stopped").1) s

def cascadeStop (session : String) : SpawnManager × List String :=
  let toStop := s.toStop session
  let s := s.stopAll toStop
  match s.recordsByChildSession.get session with
  | none => (s, toStop)
  | some root =>
    if root.status = "running" then ((s.updateStatus session "stopped").1, toStop ++ [session]) else (s, toStop)

def pruned (index : Dict String (List String)) : Dict String (List String) :=
  index.eraseAll ((index.entries.filter (·.2.isEmpty)).map Prod.fst)

def cleanupSession (child : String) : SpawnManager :=
  match s.recordsByChildSession.get child with
  | none => s
  | some _ =>
    let index := pruned (s.childrenByParent.mapValues (·.filter (· ≠ child)))
    let orphaned := (index.get child).getD []
    { s with
      recordsByChildSession := (s.recordsByChildSession.erase child).eraseAll orphaned
      childrenByParent := index.erase child
    }

def cleanupProject (project : String) : SpawnManager × Nat :=
  let toRemove := (s.recordsByChildSession.entries.filter (·.2.projectId = project)).map Prod.fst
  let records := s.recordsByChildSession.eraseAll toRemove
  let index := pruned (s.childrenByParent.mapValues (·.filter (· ∈ records.keys)))
  ({ s with recordsByChildSession := records, childrenByParent := index }, toRemove.length)

end SpawnManager

inductive Operation where
  | registerSpawn (request : SpawnRequest) (id : String) (now : Int)
  | updateStatus (child newStatus : String)
  | cascadeStop (session : String)
  | cleanupSession (child : String)
  | cleanupProject (project : String)
  deriving DecidableEq, Repr

inductive Reply where
  | registered (result : Except SpawnDepthExceededError SpawnRecord)
  | updated (record : Option SpawnRecord)
  | stopped (sessions : List String)
  | cleaned
  | removed (count : Nat)

def SpawnManager.run (s : SpawnManager) : Operation → SpawnManager × Reply
  | .registerSpawn request id now =>
    let (s, result) := s.registerSpawn request id now
    (s, .registered result)
  | .updateStatus child newStatus =>
    let (s, record) := s.updateStatus child newStatus
    (s, .updated record)
  | .cascadeStop session =>
    let (s, sessions) := s.cascadeStop session
    (s, .stopped sessions)
  | .cleanupSession child => (s.cleanupSession child, .cleaned)
  | .cleanupProject project =>
    let (s, count) := s.cleanupProject project
    (s, .removed count)

end Spawn
end Agent
end MemStack
