import MemStack.Port.Prog
import MemStack.Graph.Impl

/-!
This module contains the graph orchestrator (`orchestration/graph_orchestrator.py`) as programs over
its ports: the repositories of graphs and runs, the identifiers it draws and the agent orchestrator
it spawns agents with. Times and durations are left out.
-/

namespace MemStack
namespace Graph

open Port Checked

structure SpawnRequest where
  parentAgentId : String
  targetAgentId : String
  message : String
  parentSessionId : String
  projectId : String
  conversationId : String
  graphRunId : String
  graphId : String
  nodeId : String
  nodeLabel : String
  graphPattern : GraphPattern
  tenantId : String
  deriving DecidableEq, Repr

inductive Query where
  | findGraph (graphId : String)
  | findRun (runId : String)
  | newRunId
  | spawnAgent (request : SpawnRequest)
  | saveRun (run : GraphRun)
  deriving DecidableEq

abbrev Query.Answer : Query → Type
  | .findGraph _ => Option AgentGraph
  | .findRun _ => Option GraphRun
  | .newRunId => String
  | .spawnAgent _ => String
  | .saveRun _ => Unit

abbrev ports : Ports :=
  { Query := Query, Answer := Query.Answer }

inductive GraphEvent where
  | runStarted (graphRunId graphId graphName : String) (pattern : GraphPattern)
      (entryNodeIds : List String)
  | nodeStarted (graphRunId nodeId nodeLabel agentDefinitionId agentSessionId : String)
  | nodeCompleted (graphRunId nodeId nodeLabel : String) (outputKeys : List String)
  | nodeFailed (graphRunId nodeId nodeLabel errorMessage : String)
  | nodeSkipped (graphRunId nodeId nodeLabel reason : String)
  | runCompleted (graphRunId graphId graphName : String) (totalSteps : Nat)
  | runFailed (graphRunId graphId graphName errorMessage failedNodeId : String)
  | runCancelled (graphRunId graphId graphName reason : String)
  | handoff (graphRunId fromNodeId toNodeId fromLabel toLabel contextSummary : String)
  deriving DecidableEq, Repr

abbrev Reply := GraphRun × List GraphEvent

abbrev Program (α : Type) := Prog ports String α

structure Parent where
  sessionId : String := ""
  agentId : String := "__system__"
  deriving DecidableEq, Repr

-- `x or y` of the source.
def orElse (x y : String) : String :=
  if x = "" then y else x

def findGraph (graphId : String) : Program (Option AgentGraph) :=
  Prog.ask (P := ports) (.findGraph graphId)

def findRun (runId : String) : Program (Option GraphRun) :=
  Prog.ask (P := ports) (.findRun runId)

def newRunId : Program String :=
  Prog.ask (P := ports) .newRunId

def spawnAgent (request : SpawnRequest) : Program String :=
  Prog.ask (P := ports) (.spawnAgent request)

def trySpawnAgent (request : SpawnRequest) : Program (Except String String) :=
  Prog.attempt (P := ports) (.spawnAgent request)

def saveRun (run : GraphRun) : Program Unit :=
  Prog.ask (P := ports) (.saveRun run)

namespace GraphOrchestrator

def ensureGraphScope (graph : AgentGraph) (tenantId projectId : String) : Except String Unit :=
  ensure (graph.tenantId = tenantId ∧ graph.projectId = projectId)
    s!"Agent graph scope mismatch: {graph.id}"

def ensureGraphMatchesRun (graph : AgentGraph) (run : GraphRun) : Except String Unit := do
  ensure (run.graphId = graph.id) s!"Graph run {run.id} does not belong to graph {graph.id}"
  ensure (graph.tenantId = run.tenantId ∧ graph.projectId = run.projectId)
    s!"Graph run scope mismatch: {run.id}"

def contextText (context : Context) : String :=
  ", ".intercalate (context.entries.map fun e => e.1 ++ "=" ++ e.2)

def spawnMessage (node : AgentNode) (inputContext : Context) : String :=
  let parts := (if node.instruction = "" then [] else [node.instruction]) ++
    (if inputContext.entries = [] then [] else ["Context: " ++ contextText inputContext])
  if parts = [] then node.label else "\n".intercalate parts

def spawnRequest (graph : AgentGraph) (run : GraphRun) (node : AgentNode) (ne : NodeExecution)
    (parentAgentId parentSessionId : String) : SpawnRequest where
  parentAgentId := parentAgentId
  targetAgentId := node.agentDefinitionId
  message := spawnMessage node ne.inputContext
  parentSessionId := parentSessionId
  projectId := run.projectId
  conversationId := run.conversationId
  graphRunId := run.id
  graphId := graph.id
  nodeId := node.nodeId
  nodeLabel := node.label
  graphPattern := graph.pattern
  tenantId := run.tenantId

def newExecution (run : GraphRun) (node : AgentNode) : NodeExecution :=
  { nodeId := node.nodeId, inputContext := run.sharedContext }

def recordStarted (run : GraphRun) (ne : NodeExecution) (session : String)
    : Except String GraphRun := do
  let ne ← ne.markRunning session
  let run ← run.addNodeExecution ne
  run.incrementStep

def recordSkipped (run : GraphRun) (ne : NodeExecution) : Except String GraphRun := do
  let ne ← ne.markSkipped
  run.addNodeExecution ne

def startedEvent (run : GraphRun) (node : AgentNode) (session : String) : GraphEvent :=
  .nodeStarted run.id node.nodeId node.label node.agentDefinitionId session

-- One round of the loop in `start_run`, which lets a failing spawn through.
def startNode (graph : AgentGraph) (parentAgentId parentSessionId : String) (run : GraphRun)
    (nodeId : String) : Program Reply :=
  match graph.getNode nodeId with
  | none => .ret (run, [])
  | some node => do
    let ne := newExecution run node
    let session ← spawnAgent (spawnRequest graph run node ne parentAgentId parentSessionId)
    let run ← Prog.ofExcept (recordStarted run ne session)
    return (run, [startedEvent run node session])

def scheduleNode (graph : AgentGraph) (parentAgentId parentSessionId : String) (run : GraphRun)
    (nodeId : String) : Program Reply :=
  match graph.getNode nodeId with
  | none => .ret (run, [])
  | some node => do
    let ne := newExecution run node
    match ← trySpawnAgent (spawnRequest graph run node ne parentAgentId parentSessionId) with
    | .error _ =>
      let run ← Prog.ofExcept (recordSkipped run ne)
      return (run, [.nodeSkipped run.id node.nodeId node.label "Failed to spawn agent"])
    | .ok session =>
      let run ← Prog.ofExcept (recordStarted run ne session)
      return (run, [startedEvent run node session])

def forNodes (body : GraphRun → String → Program Reply)
    : List String → GraphRun → List GraphEvent → Program Reply
  | [], run, events => .ret (run, events)
  | nodeId :: nodeIds, run, events =>
    (body run nodeId).bind fun reply => forNodes body nodeIds reply.1 (events ++ reply.2)

def save (reply : Reply) : Program Reply := do
  saveRun reply.1
  return reply

structure StartArgs where
  graphId : String
  conversationId : String
  tenantId : String
  projectId : String
  initialContext : Context := .empty
  parent : Parent := {}
  deriving DecidableEq

def newRun (graph : AgentGraph) (args : StartArgs) (id : String) : GraphRun where
  id := id
  graphId := graph.id
  conversationId := args.conversationId
  tenantId := args.tenantId
  projectId := args.projectId
  maxTotalSteps := graph.maxTotalSteps
  sharedContext := args.initialContext

def startRun (args : StartArgs) : Program Reply := do
  match ← findGraph args.graphId with
  | none => .fail s!"Agent graph not found: {args.graphId}"
  | some graph =>
    Prog.ofExcept (ensureGraphScope graph args.tenantId args.projectId)
    Prog.ofExcept (ensure graph.isActive s!"Agent graph is inactive: {args.graphId}")
    Prog.ofExcept (ensure (graph.validateGraph = [])
      ("Invalid graph: " ++ "; ".intercalate graph.validateGraph))
    let id ← newRunId
    let run ← Prog.ofExcept (newRun graph args id).postInit
    let entryNodeIds := getNextNodeIds graph run
    Prog.ofExcept (ensure (entryNodeIds ≠ []) "Graph has no entry nodes to start")
    let run ← Prog.ofExcept (run.markRunning entryNodeIds)
    let reply ← forNodes
      (startNode graph args.parent.agentId (orElse args.parent.sessionId args.conversationId))
      entryNodeIds run [.runStarted run.id graph.id graph.name graph.pattern entryNodeIds]
    save reply

def load (graphId runId : String) : Program (AgentGraph × GraphRun) := do
  match ← findGraph graphId with
  | none => .fail s!"Agent graph not found: {graphId}"
  | some graph =>
    match ← findRun runId with
    | none => .fail s!"Graph run not found: {runId}"
    | some run =>
      Prog.ofExcept (ensureGraphMatchesRun graph run)
      return (graph, run)

def nodeLabel (graph : AgentGraph) (nodeId : String) : String :=
  ((graph.getNode nodeId).map (·.label)).getD nodeId

def executionOf (run : GraphRun) (nodeId : String) : Except String NodeExecution :=
  match run.getNodeExecution nodeId with
  | none => .error s!"Node execution not found for node_id={nodeId}"
  | some ne => .ok ne

def outputKeys (outputContext : Option Context) : List String :=
  (outputContext.map (·.keys)).getD []

def recordCompleted (run : GraphRun) (nodeId : String) (outputContext : Option Context)
    : Except String GraphRun := do
  let ne ← executionOf run nodeId
  let ne ← ne.markCompleted outputContext
  let run := { run with nodeExecutions := run.nodeExecutions.set nodeId ne }
  return run.updateSharedContext (outputContext.getD .empty)

def onNodeCompleted (graphId runId nodeId : String) (outputContext : Option Context)
    (parent : Parent) : Program Reply := do
  let (graph, run) ← load graphId runId
  if run.isTerminal then
    return (run, [])
  else
    let run ← Prog.ofExcept (recordCompleted run nodeId outputContext)
    let events := [.nodeCompleted run.id nodeId (nodeLabel graph nodeId) (outputKeys outputContext)]
    if shouldCompleteRun graph run then
      let run ← Prog.ofExcept run.markCompleted
      save (run, events ++ [.runCompleted run.id graph.id graph.name run.totalSteps])
    else
      let reply ← forNodes
        (scheduleNode graph parent.agentId (orElse parent.sessionId run.conversationId))
        (getNextNodeIds graph run) run events
      save reply

def recordFailed (graph : AgentGraph) (run : GraphRun) (nodeId errorMessage : String)
    : Except String GraphRun := do
  let ne ← executionOf run nodeId
  let ne ← ne.markFailed errorMessage
  let run := { run with nodeExecutions := run.nodeExecutions.set nodeId ne }
  run.markFailed s!"Node '{nodeLabel graph nodeId}' failed: {errorMessage}"

def onNodeFailed (graphId runId nodeId errorMessage : String) : Program Reply := do
  let (graph, run) ← load graphId runId
  if run.isTerminal then
    return (run, [])
  else
    let run ← Prog.ofExcept (recordFailed graph run nodeId errorMessage)
    save (run, [
      .nodeFailed run.id nodeId (nodeLabel graph nodeId) errorMessage,
      .runFailed run.id graph.id graph.name errorMessage nodeId
    ])

def cancelRun (runId reason : String) : Program Reply := do
  match ← findRun runId with
  | none => .fail s!"Graph run not found: {runId}"
  | some run =>
    if run.isTerminal then
      return (run, [])
    else
      let graph ← findGraph run.graphId
      save (run.markCancelled, [
        .runCancelled run.id run.graphId ((graph.map AgentGraph.name).getD "") reason
      ])

def labelOf (graph : AgentGraph) (nodeId : String) : String :=
  ((graph.getNode nodeId).map (·.label)).getD ""

def handoffNode (graphId runId fromNodeId toNodeId contextSummary : String) (parent : Parent)
    : Program Reply := do
  let (graph, run) ← load graphId runId
  if run.isTerminal then
    return (run, [])
  else
    Prog.ofExcept (ensure (graph.pattern = .swarm)
      s!"Handoff is only supported in SWARM pattern, got {graph.pattern.toText}")
    Prog.ofExcept (SwarmCoordinator.validateHandoffTarget graph run toNodeId)
    let reply ← forNodes
      (scheduleNode graph parent.agentId (orElse parent.sessionId run.conversationId))
      [toNodeId] run [.handoff run.id fromNodeId toNodeId (labelOf graph fromNodeId)
        (labelOf graph toNodeId) contextSummary]
    save reply

end GraphOrchestrator

inductive Call where
  | startRun (args : GraphOrchestrator.StartArgs)
  | onNodeCompleted (graphId runId nodeId : String) (outputContext : Option Context)
      (parent : Parent)
  | onNodeFailed (graphId runId nodeId errorMessage : String)
  | cancelRun (runId reason : String)
  | handoffNode (graphId runId fromNodeId toNodeId contextSummary : String) (parent : Parent)
  deriving DecidableEq

def Call.program : Call → Program Reply
  | .startRun args => GraphOrchestrator.startRun args
  | .onNodeCompleted graphId runId nodeId outputContext parent =>
    GraphOrchestrator.onNodeCompleted graphId runId nodeId outputContext parent
  | .onNodeFailed graphId runId nodeId errorMessage =>
    GraphOrchestrator.onNodeFailed graphId runId nodeId errorMessage
  | .cancelRun runId reason => GraphOrchestrator.cancelRun runId reason
  | .handoffNode graphId runId fromNodeId toNodeId contextSummary parent =>
    GraphOrchestrator.handoffNode graphId runId fromNodeId toNodeId contextSummary parent

namespace SqlGraphRunRepository

def save (runs : Dict String GraphRun) (run : GraphRun) : Dict String GraphRun :=
  match runs.get run.id with
  | none => runs.set run.id run
  | some existing => runs.set run.id { existing with
      status := run.status
      sharedContext := run.sharedContext
      currentNodeIds := run.currentNodeIds
      totalSteps := run.totalSteps
      maxTotalSteps := run.maxTotalSteps
      errorMessage := run.errorMessage
      nodeExecutions := existing.nodeExecutions.update run.nodeExecutions
    }

end SqlGraphRunRepository

structure Agent where
  request : SpawnRequest
  session : String
  deriving DecidableEq, Repr

structure World where
  graphs : List AgentGraph
  runs : Dict String GraphRun
  agents : List Agent
  clock : Nat

structure Outside where
  fault : Nat → Option String
  session : Nat → String
  runId : Nat → String
  runId_injective : Function.Injective runId

namespace World

def start (graphs : List AgentGraph) : World :=
  { graphs, runs := .empty, agents := [], clock := 0 }

def findGraph (w : World) (graphId : String) : Option AgentGraph :=
  w.graphs.find? (·.id = graphId)

def answer (o : Outside) (w : World) : (q : Query) → Except String q.Answer
  | .newRunId => .ok (o.runId w.clock)
  | .findGraph graphId =>
    match o.fault w.clock with
    | some e => .error e
    | none => .ok (w.findGraph graphId)
  | .findRun runId =>
    match o.fault w.clock with
    | some e => .error e
    | none => .ok (w.runs.get runId)
  | .spawnAgent _ =>
    match o.fault w.clock with
    | some e => .error e
    | none => .ok (o.session w.clock)
  | .saveRun _ =>
    match o.fault w.clock with
    | some e => .error e
    | none => .ok ()

def next (w : World) : (q : Query) → Except String q.Answer → World
  | .spawnAgent request, .ok session =>
    { w with agents := w.agents ++ [{ request, session }], clock := w.clock + 1 }
  | .saveRun run, .ok () =>
    { w with runs := SqlGraphRunRepository.save w.runs run, clock := w.clock + 1 }
  | _, _ => { w with clock := w.clock + 1 }

def eval {α : Type} (o : Outside) (w : World) (p : Program α) : World × Option (Except String α) :=
  Prog.eval (P := ports) next (answer o) w p

def step (o : Outside) (w : World) (call : Call) : World × Option (Except String Reply) :=
  eval o w call.program

end World

end Graph
end MemStack
