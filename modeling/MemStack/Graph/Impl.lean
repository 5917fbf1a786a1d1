import MemStack.Util.Dict
import MemStack.Util.Kahn
import MemStack.Util.Checked

/-!
This module contains agent graphs and their runs (`domain/model/agent/graph`), together with the
coordinators that say which nodes of a graph a run comes to next (`orchestration/patterns`). Values of
a shared context are kept as the texts they are displayed as.
-/

namespace MemStack
namespace Graph

open Checked

inductive GraphPattern where
  | supervisor
  | pipeline
  | fanOut
  | swarm
  | hierarchical
  deriving DecidableEq, Repr

def GraphPattern.toText : GraphPattern → String
  | .supervisor => "supervisor"
  | .pipeline => "pipeline"
  | .fanOut => "fan_out"
  | .swarm => "swarm"
  | .hierarchical => "hierarchical"

structure AgentNode where
  nodeId : String
  agentDefinitionId : String
  label : String
  instruction : String := ""
  isEntry : Bool := false
  isTerminal : Bool := false
  nodeId_ne : nodeId ≠ "" := by decide
  agentDefinitionId_ne : agentDefinitionId ≠ "" := by decide
  label_ne : label ≠ "" := by decide
  deriving DecidableEq

structure AgentEdge where
  sourceNodeId : String
  targetNodeId : String
  source_ne_target : sourceNodeId ≠ targetNodeId := by decide
  deriving DecidableEq

structure AgentGraph where
  id : String
  tenantId : String
  projectId : String
  name : String
  pattern : GraphPattern
  nodes : List AgentNode
  edges : List AgentEdge
  maxTotalSteps : Nat := 50
  isActive : Bool := true
  tenantId_ne : tenantId ≠ "" := by decide
  projectId_ne : projectId ≠ "" := by decide
  name_ne : name ≠ "" := by decide
  maxTotalSteps_pos : 1 ≤ maxTotalSteps := by decide
  deriving DecidableEq

namespace AgentGraph

variable (graph : AgentGraph)

def entryNodes : List AgentNode :=
  graph.nodes.filter (·.isEntry)

def terminalNodes : List AgentNode :=
  graph.nodes.filter (·.isTerminal)

def nodeIds : List String :=
  (graph.nodes.map (·.nodeId)).dedup

def getNode (nodeId : String) : Option AgentNode :=
  graph.nodes.find? (·.nodeId = nodeId)

def getSuccessors (nodeId : String) : List AgentEdge :=
  graph.edges.filter (·.sourceNodeId = nodeId)

def getPredecessors (nodeId : String) : List AgentEdge :=
  graph.edges.filter (·.targetNodeId = nodeId)

def inDegree (nodeId : String) : Int :=
  (graph.getPredecessors nodeId).length

def inDegreeKeys : List String :=
  (graph.nodes.map (·.nodeId) ++ graph.edges.map (·.targetNodeId)).dedup

def detectCycles : Bool :=
  let visited := Kahn.run (fun queue => queue) graph.inDegreeKeys
    (fun current => (graph.getSuccessors current).map (·.targetNodeId)) graph.inDegree
  visited.order.length != graph.nodeIds.length

def edgeErrors (edge : AgentEdge) : List String :=
  (if edge.sourceNodeId ∈ graph.nodeIds then []
    else [s!"edge references unknown source node: {edge.sourceNodeId}"]) ++
  (if edge.targetNodeId ∈ graph.nodeIds then []
    else [s!"edge references unknown target node: {edge.targetNodeId}"])

def structureErrors : List String :=
  (if graph.entryNodes = [] then ["graph must have at least one entry node"] else []) ++
  (if graph.terminalNodes = [] then ["graph must have at least one terminal node"] else []) ++
  graph.edges.flatMap graph.edgeErrors

def validateGraph : List String :=
  if graph.nodes = [] then
    ["graph must have at least one node"]
  else if graph.structureErrors = [] ∧ graph.detectCycles then
    ["graph contains a cycle"]
  else
    graph.structureErrors

end AgentGraph

inductive GraphRunStatus where
  | pending
  | running
  | completed
  | failed
  | cancelled
  deriving DecidableEq, Repr

namespace GraphRunStatus

def toText : GraphRunStatus → String
  | .pending => "pending"
  | .running => "running"
  | .completed => "completed"
  | .failed => "failed"
  | .cancelled => "cancelled"

def isTerminal : GraphRunStatus → Bool
  | .completed | .failed | .cancelled => true
  | .pending | .running => false

end GraphRunStatus

inductive NodeExecutionStatus where
  | pending
  | running
  | completed
  | failed
  | skipped
  | cancelled
  deriving DecidableEq, Repr

namespace NodeExecutionStatus

def toText : NodeExecutionStatus → String
  | .pending => "pending"
  | .running => "running"
  | .completed => "completed"
  | .failed => "failed"
  | .skipped => "skipped"
  | .cancelled => "cancelled"

def isTerminal : NodeExecutionStatus → Bool
  | .completed | .failed | .skipped | .cancelled => true
  | .pending | .running => false

end NodeExecutionStatus

abbrev Context := Dict String String

structure NodeExecution where
  nodeId : String
  agentSessionId : Option String := none
  status : NodeExecutionStatus := .pending
  inputContext : Context := .empty
  outputContext : Context := .empty
  errorMessage : Option String := none
  deriving DecidableEq

namespace NodeExecution

variable (ne : NodeExecution)

def markRunning (agentSessionId : String) : Except String NodeExecution := do
  ensure (ne.status = .pending) s!"Cannot start node execution in {ne.status.toText} state"
  return { ne with status := .running, agentSessionId := some agentSessionId }

def markCompleted (outputContext : Option Context) : Except String NodeExecution := do
  ensure (ne.status = .running) s!"Cannot complete node execution in {ne.status.toText} state"
  return { ne with status := .completed, outputContext := outputContext.getD ne.outputContext }

def markFailed (errorMessage : String) : Except String NodeExecution := do
  ensure (ne.status = .running) s!"Cannot fail node execution in {ne.status.toText} state"
  return { ne with status := .failed, errorMessage := some errorMessage }

def markSkipped : Except String NodeExecution := do
  ensure (ne.status = .pending) s!"Cannot skip node execution in {ne.status.toText} state"
  return { ne with status := .skipped }

def markCancelled : NodeExecution :=
  if ne.status.isTerminal then ne else { ne with status := .cancelled }

end NodeExecution

structure GraphRun where
  id : String
  graphId : String
  conversationId : String
  tenantId : String
  projectId : String
  status : GraphRunStatus := .pending
  nodeExecutions : Dict String NodeExecution := .empty
  sharedContext : Context := .empty
  currentNodeIds : List String := []
  totalSteps : Nat := 0
  maxTotalSteps : Nat := 50
  errorMessage : Option String := none
  deriving DecidableEq

namespace GraphRun

variable (run : GraphRun)

def postInit : Except String GraphRun := do
  ensure (run.graphId ≠ "") "graph_id cannot be empty"
  ensure (run.conversationId ≠ "") "conversation_id cannot be empty"
  ensure (run.tenantId ≠ "") "tenant_id cannot be empty"
  ensure (run.projectId ≠ "") "project_id cannot be empty"
  ensure (1 ≤ run.maxTotalSteps) "max_total_steps must be >= 1"
  return run

def markRunning (entryNodeIds : List String) : Except String GraphRun := do
  ensure (run.status = .pending) s!"Cannot start graph run in {run.status.toText} state"
  return { run with status := .running, currentNodeIds := entryNodeIds }

def markCompleted : Except String GraphRun := do
  ensure (run.status = .running) s!"Cannot complete graph run in {run.status.toText} state"
  return { run with status := .completed, currentNodeIds := [] }

def markFailed (errorMessage : String) : Except String GraphRun := do
  ensure (run.status = .running) s!"Cannot fail graph run in {run.status.toText} state"
  return { run with status := .failed, errorMessage := some errorMessage, currentNodeIds := [] }

def markCancelled : GraphRun :=
  if run.status.isTerminal then
    run
  else
    { run with
      status := .cancelled
      currentNodeIds := []
      nodeExecutions := run.nodeExecutions.mapValues NodeExecution.markCancelled
    }

def getNodeExecution (nodeId : String) : Option NodeExecution :=
  run.nodeExecutions.get nodeId

def addNodeExecution (ne : NodeExecution) : Except String GraphRun := do
  ensure (ne.nodeId ∉ run.nodeExecutions.keys)
    s!"Node execution for node_id={ne.nodeId} already exists in this run"
  return { run with nodeExecutions := run.nodeExecutions.set ne.nodeId ne }

def incrementStep : Except String GraphRun :=
  let run := { run with totalSteps := run.totalSteps + 1 }
  if run.totalSteps ≥ run.maxTotalSteps then
    run.markFailed s!"Graph run exceeded maximum steps ({run.maxTotalSteps})"
  else
    .ok run

def updateSharedContext (updates : Context) : GraphRun :=
  { run with sharedContext := run.sharedContext.update updates }

def isTerminal : Bool :=
  run.status.isTerminal

def runningNodeIds : List String :=
  (run.nodeExecutions.entries.filter (·.2.status = .running)).map Prod.fst

def isCompleted (nodeId : String) : Bool :=
  (run.getNodeExecution nodeId).any (·.status = .completed)

end GraphRun

variable (graph : AgentGraph) (run : GraphRun)

def allPredecessorsDone (nodeId : String) : Bool :=
  (graph.getPredecessors nodeId).all fun e => run.isCompleted e.sourceNodeId

def terminalsCompleted : Bool :=
  graph.terminalNodes.all fun t => run.isCompleted t.nodeId

namespace SupervisorCoordinator

def getNextNodeIds : List String :=
  if run.isTerminal then
    []
  else if run.runningNodeIds ≠ [] then
    []
  else if run.nodeExecutions.entries = [] then
    graph.entryNodes.map (·.nodeId)
  else
    ((graph.nodes.map (·.nodeId)).find? fun nodeId =>
      run.getNodeExecution nodeId = none ∧ graph.getPredecessors nodeId ≠ [] ∧
        allPredecessorsDone graph run nodeId).toList

def shouldCompleteRun : Bool :=
  terminalsCompleted graph run

end SupervisorCoordinator

namespace PipelineCoordinator

def topologicalOrder : List String :=
  (Kahn.run (fun queue => queue) (graph.inDegreeKeys.insertionSort (· ≤ ·))
    (fun current => ((graph.getSuccessors current).map (·.targetNodeId)).insertionSort (· ≤ ·))
    graph.inDegree).order

def getNextNodeIds : List String :=
  if run.isTerminal then
    []
  else if run.runningNodeIds ≠ [] then
    []
  else if run.nodeExecutions.entries = [] then
    (graph.entryNodes.map (·.nodeId)).take 1
  else
    ((topologicalOrder graph).find? fun nodeId =>
      run.getNodeExecution nodeId = none ∧ allPredecessorsDone graph run nodeId).toList

def shouldCompleteRun : Bool :=
  terminalsCompleted graph run

end PipelineCoordinator

namespace FanOutCoordinator

def getNextNodeIds : List String :=
  if run.isTerminal then
    []
  else if run.nodeExecutions.entries = [] then
    graph.entryNodes.map (·.nodeId)
  else
    (graph.nodes.map (·.nodeId)).filter fun nodeId =>
      run.getNodeExecution nodeId = none ∧
        (graph.getPredecessors nodeId = [] ∨ allPredecessorsDone graph run nodeId)

def shouldCompleteRun : Bool :=
  terminalsCompleted graph run

end FanOutCoordinator

namespace SwarmCoordinator

def getNextNodeIds : List String :=
  if run.isTerminal then
    []
  else if run.nodeExecutions.entries = [] then
    graph.entryNodes.map (·.nodeId)
  else
    []

def shouldCompleteRun : Bool :=
  if terminalsCompleted graph run then
    true
  else if run.runningNodeIds = [] ∧ run.nodeExecutions.entries ≠ [] then
    run.nodeExecutions.values.all (·.status.isTerminal)
  else
    false

def validateHandoffTarget (targetNodeId : String) : Except String Unit :=
  if targetNodeId ∉ graph.nodeIds then
    .error s!"Handoff target '{targetNodeId}' does not exist in graph"
  else
    match run.getNodeExecution targetNodeId with
    | none => .ok ()
    | some existing =>
      ensure (existing.status = .failed)
        s!"Handoff target '{targetNodeId}' already has execution in status {existing.status.toText}"

end SwarmCoordinator

def getNextNodeIds : List String :=
  match graph.pattern with
  | .supervisor | .hierarchical => SupervisorCoordinator.getNextNodeIds graph run
  | .pipeline => PipelineCoordinator.getNextNodeIds graph run
  | .fanOut => FanOutCoordinator.getNextNodeIds graph run
  | .swarm => SwarmCoordinator.getNextNodeIds graph run

def shouldCompleteRun : Bool :=
  match graph.pattern with
  | .supervisor | .hierarchical => SupervisorCoordinator.shouldCompleteRun graph run
  | .pipeline => PipelineCoordinator.shouldCompleteRun graph run
  | .fanOut => FanOutCoordinator.shouldCompleteRun graph run
  | .swarm => SwarmCoordinator.shouldCompleteRun graph run

end Graph
end MemStack
