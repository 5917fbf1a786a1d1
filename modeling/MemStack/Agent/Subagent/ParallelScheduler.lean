import MemStack.Util.Json
import MemStack.Util.Text
import MemStack.Util.Semaphore

/-!
This module contains what the task decomposer makes of the arguments of a model
(`agent/subagent/task_decomposer.py`) and the parallel scheduler that runs it (`parallel_scheduler.py`), without
an abort signal. `none` is an exception. A step is what the coroutine of one sub-task does up to where it waits
next, and what the process of its agent comes to is an input of the step.
-/

namespace Json

variable {F : Type}

def hashable : Json F → Bool
  | .list _ => false
  | .dict _ => false
  | _ => true

-- `value[:n]`.
def sliced (n : Nat) : Json F → Option (Json F)
  | .list items => some (.list (items.take n))
  | .str s => some (.str (String.ofList (s.toList.take n)))
  | _ => none

def iterated : Json F → Option (List (Json F))
  | .list items => some items
  | .str s => some (s.toList.map fun c => .str (String.singleton c))
  | .dict entries => some (entries.map fun entry => .str entry.1)
  | _ => none

end Json

namespace MemStack
namespace Agent
namespace Subagent

section Decomposer

variable {F : Type}

structure SubTask (F : Type) where
  id : Json F
  description : Json F
  targetSubagent : Json F
  dependencies : List (Json F)
  priority : Json F

structure DecompositionResult (F : Type) where
  subtasks : List (SubTask F)
  reasoning : Json F
  isDecomposed : Bool

namespace TaskDecomposer

def originalTask (originalQuery : String) : SubTask F where
  id := .str "t1"
  description := .str originalQuery
  targetSubagent := .null
  dependencies := []
  priority := .int 0

def parseTask (originalQuery : String) (i : Nat) : Json F → Option (SubTask F)
  | .dict t => do
    let dependencies ← ((Json.get t "depends_on").getD (.list [])).iterated
    return {
      id := (Json.get t "id").getD (.str s!"t{i + 1}")
      description := (Json.get t "description").getD (.str originalQuery)
      targetSubagent :=
        match Json.get t "target_agent" with
        | some (.str "auto") => .null
        | target => target.getD .null
      dependencies
      priority := (Json.get t "priority").getD (.int 0)
    }
  | _ => none

variable [PyFloat F]

def parseArguments (maxSubtasks : Int) (args : List (String × Json F)) (originalQuery : String)
    : Option (DecompositionResult F) :=
  let rawTasks := (Json.get args "subtasks").getD (.list [])
  let reasoning := (Json.get args "reasoning").getD (.str "")
  if rawTasks.truthy then do
    let limited ← rawTasks.sliced (max 1 maxSubtasks).toNat
    let tasks ← limited.iterated
    let subtasks ← tasks.zipIdx.mapM fun (t, i) => parseTask originalQuery i t
    return { subtasks, reasoning, isDecomposed := 1 < subtasks.length }
  else
    some {
      subtasks := [originalTask originalQuery]
      reasoning := if reasoning.truthy then reasoning else .str "No sub-tasks produced"
      isDecomposed := false
    }

end TaskDecomposer

end Decomposer

section Scheduler

variable {F : Type}

structure ParallelSchedulerConfig where
  maxConcurrency : Int

structure SubAgent where
  displayName : String

inductive TaskPlace where
  | waiting
  | queued
  | running
  | ended
  deriving DecidableEq, Repr

structure SubTaskExecution (F : Type) where
  subtask : SubTask F
  subagent : SubAgent
  started : Bool
  completed : Bool
  error : Option String
  place : TaskPlace

def SubTaskExecution.create (subtask : SubTask F) (subagent : SubAgent) : SubTaskExecution F where
  subtask
  subagent
  started := false
  completed := false
  error := none
  place := .waiting

inductive SchedulerEvent (F : Type) where
  | subtaskStarted (taskId subagentName : String) (description : Json F)
  | subtaskCompleted (taskId : String) (success : Bool) (error : Option String)

structure RunTaskContext (F : Type) where
  executions : Dict String (SubTaskExecution F)
  completedIds : List String
  semaphore : Nat
  eventQueue : List (SchedulerEvent F)

inductive ProcessOutcome where
  | finished
  | timedOut
  | raised (message : String)
  | cancelled
  deriving DecidableEq, Repr

structure Turn where
  taskId : String
  outcome : ProcessOutcome

namespace ParallelScheduler

def resolveAgent [PyFloat F] (subtask : SubTask F) (agentMap : Dict String SubAgent) : Option (Option SubAgent) :=
  if subtask.targetSubagent.truthy then
    match subtask.targetSubagent with
    | .str target => some ((agentMap.get target).or agentMap.values.head?)
    | target => if target.hashable then some agentMap.values.head? else none
  else
    some agentMap.values.head?

def addExecution [PyFloat F] (agentMap : Dict String SubAgent) (executions : Dict String (SubTaskExecution F))
    (subtask : SubTask F)
    : Option (Dict String (SubTaskExecution F)) := do
  match ← resolveAgent subtask agentMap with
  | none => return executions
  | some agent =>
    match subtask.id with
    | .str id => return executions.set id (.create subtask agent)
    | _ => none

def buildExecutionMap [PyFloat F] (subtasks : List (SubTask F)) (agentMap : Dict String SubAgent)
    : Option (Dict String (SubTaskExecution F)) :=
  subtasks.foldlM (addExecution agentMap) Dict.empty

def launch [PyFloat F] (config : ParallelSchedulerConfig) (subtasks : List (SubTask F))
    (agentMap : Dict String SubAgent)
    : Option (RunTaskContext F) := do
  let executions ← buildExecutionMap subtasks agentMap
  if executions.entries ≠ [] ∧ config.maxConcurrency < 0 then
    none
  else
    return { executions, completedIds := [], semaphore := config.maxConcurrency.toNat, eventQueue := [] }

-- `dep in completed_ids`.
def isCompleted (completedIds : List String) : Json F → Option Bool
  | .str id => some (id ∈ completedIds)
  | dep => if dep.hashable then some false else none

def allCompleted (completedIds : List String) : List (Json F) → Option Bool
  | [] => some true
  | dep :: deps =>
    match isCompleted completedIds dep with
    | some true => allCompleted completedIds deps
    | other => other

end ParallelScheduler

namespace RunTaskContext

open ParallelScheduler

def put (s : RunTaskContext F) (id : String) (execution : SubTaskExecution F) : RunTaskContext F :=
  { s with executions := s.executions.set id execution }

def running (s : RunTaskContext F) : Nat :=
  (s.executions.values.filter fun execution => execution.place = .running).length

-- `none` is a dependency that is not completed.
def waitForDependencies (s : RunTaskContext F) (id : String) (execution : SubTaskExecution F)
    : Option (RunTaskContext F) :=
  match allCompleted s.completedIds execution.subtask.dependencies with
  | some true => some (s.put id { execution with place := .queued })
  | some false => none
  | none => some (s.put id { execution with place := .ended })

def acquire (s : RunTaskContext F) (id : String) (execution : SubTaskExecution F) : Option (RunTaskContext F) :=
  if s.running < s.semaphore then
    match execution.subtask.description.sliced 200 with
    | none => some (s.put id { execution with started := true, place := .ended })
    | some description => some {
        s.put id { execution with started := true, place := .running } with
        eventQueue := s.eventQueue ++ [.subtaskStarted id execution.subagent.displayName description]
      }
  else
    none

def withOutcome (id : String) (execution : SubTaskExecution F) : ProcessOutcome → SubTaskExecution F
  | .finished => { execution with completed := true, place := .ended }
  | .timedOut => { execution with error := some s!"Task {id} timed out", place := .ended }
  | .raised message => { execution with error := some message, place := .ended }
  | .cancelled => { execution with place := .ended }

def finish (s : RunTaskContext F) (id : String) (execution : SubTaskExecution F) (outcome : ProcessOutcome)
    : RunTaskContext F :=
  let execution := withOutcome id execution outcome
  let success := execution.completed && execution.error.getD "" = ""
  { s.put id execution with
    completedIds := s.completedIds ++ [id]
    eventQueue := s.eventQueue ++ [.subtaskCompleted id success execution.error]
  }

def step (s : RunTaskContext F) (turn : Turn) : Option (RunTaskContext F) :=
  match s.executions.get turn.taskId with
  | none => none
  | some execution =>
    match execution.place with
    | .waiting => s.waitForDependencies turn.taskId execution
    | .queued => s.acquire turn.taskId execution
    | .running => some (s.finish turn.taskId execution turn.outcome)
    | .ended => none

def sentinel (s : RunTaskContext F) : Prop :=
  ∀ execution ∈ s.executions.values, execution.place = .ended

def Stuck (s : RunTaskContext F) : Prop :=
  ¬s.sentinel ∧ ∀ turn, s.step turn = none

end RunTaskContext

-- The state that `execute` has launched for what a model has given as arguments.
def launched [PyFloat F] (maxSubtasks : Int) (args : List (String × Json F)) (originalQuery : String)
    (config : ParallelSchedulerConfig) (agentMap : Dict String SubAgent)
    : Option (RunTaskContext F) := do
  let decomposition ← TaskDecomposer.parseArguments maxSubtasks args originalQuery
  ParallelScheduler.launch config decomposition.subtasks agentMap

end Scheduler

end Subagent
end Agent
end MemStack
