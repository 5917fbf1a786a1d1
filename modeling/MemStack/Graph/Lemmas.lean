import MemStack.Util.Machine
import MemStack.Graph.Orchestrator

/-!
This module contains what a call of the graph orchestrator can come to: which run it saves, which
agents it spawns and what it answers.
-/

namespace MemStack
namespace Graph

open Port Checked GraphOrchestrator

namespace World

variable {o : Outside} {w : World} {α β : Type}

theorem eval_bind (p : Program α) (f : α → Program β)
    : eval o w (p.bind f)
        =
      match eval o w p with
      | (w', some (.ok a)) => eval o w' (f a)
      | (w', some (.error e)) => (w', some (.error e))
      | (w', none) => (w', none) := by
  induction p generalizing w with
  | ret a => rfl
  | fail e => rfl
  | cut => rfl
  | call q k ih => apply ih

@[simp]
theorem eval_ret (a : α) : eval o w (.ret a) = (w, some (.ok a)) := by
  rfl

@[simp]
theorem eval_ofExcept (x : Except String α) : eval o w (Prog.ofExcept x) = (w, some x) := by
  apply Prog.eval_ofExcept

@[simp]
theorem eval_ofExcept_bind (x : Except String α) (f : α → Program β)
    : eval o w ((Prog.ofExcept x).bind f)
        =
      match x with
      | .ok a => eval o w (f a)
      | .error e => (w, some (.error e)) := by
  rw [eval_bind, eval_ofExcept]
  cases x <;> rfl

def tick (w : World) : World :=
  { w with clock := w.clock + 1 }

def spawning (w : World) (agents : List Agent) (clock : Nat) : World :=
  { w with agents := w.agents ++ agents, clock }

def saving (w : World) (run : GraphRun) : World :=
  { w with runs := SqlGraphRunRepository.save w.runs run, clock := w.clock + 1 }

theorem eval_findGraph (graphId : String) (f : Option AgentGraph → Program β)
    : eval o w ((Graph.findGraph graphId).bind f)
        =
      match o.fault w.clock with
      | some e => (w.tick, some (.error e))
      | none => eval o w.tick (f (w.findGraph graphId)) := by
  simp only [Graph.findGraph, Prog.ask, Prog.bind, eval, Prog.eval, answer]
  cases o.fault w.clock <;> rfl

theorem eval_findRun (runId : String) (f : Option GraphRun → Program β)
    : eval o w ((Graph.findRun runId).bind f)
        =
      match o.fault w.clock with
      | some e => (w.tick, some (.error e))
      | none => eval o w.tick (f (w.runs.get runId)) := by
  simp only [Graph.findRun, Prog.ask, Prog.bind, eval, Prog.eval, answer]
  cases o.fault w.clock <;> rfl

theorem eval_newRunId (f : String → Program β)
    : eval o w (newRunId.bind f) = eval o w.tick (f (o.runId w.clock)) := by
  rfl

theorem eval_spawnAgent (request : SpawnRequest) (f : String → Program β)
    : eval o w ((spawnAgent request).bind f)
        =
      match o.fault w.clock with
      | some e => (w.tick, some (.error e))
      | none =>
        eval o (w.spawning [{ request, session := o.session w.clock }] (w.clock + 1))
          (f (o.session w.clock)) := by
  simp only [spawnAgent, Prog.ask, Prog.bind, eval, Prog.eval, answer]
  cases o.fault w.clock <;> rfl

theorem eval_trySpawnAgent (request : SpawnRequest) (f : Except String String → Program β)
    : eval o w ((trySpawnAgent request).bind f)
        =
      match o.fault w.clock with
      | some e => eval o w.tick (f (.error e))
      | none =>
        eval o (w.spawning [{ request, session := o.session w.clock }] (w.clock + 1))
          (f (.ok (o.session w.clock))) := by
  simp only [trySpawnAgent, Prog.attempt, Prog.bind, eval, Prog.eval, answer]
  cases o.fault w.clock <;> rfl

theorem eval_save (reply : Reply)
    : eval o w (save reply)
        =
      match o.fault w.clock with
      | some e => (w.tick, some (.error e))
      | none => (w.saving reply.1, some (.ok reply)) := by
  simp only [save, saveRun, Prog.bind_eq, Prog.pure_eq, Prog.ask, Prog.bind, eval, Prog.eval, answer]
  cases o.fault w.clock <;> rfl

@[simp]
theorem spawning_nil (w : World) : w.spawning [] (w.clock + 1) = w.tick := by
  simp [spawning, tick]

@[simp]
theorem spawning_spawning (w : World) (agents agents' : List Agent) (c c' : Nat)
    : (w.spawning agents c).spawning agents' c' = w.spawning (agents ++ agents') c' := by
  simp [spawning]

end World

def skippedExecution (run : GraphRun) (node : AgentNode) : NodeExecution :=
  { newExecution run node with status := .skipped }

def startedExecution (run : GraphRun) (node : AgentNode) (session : String) : NodeExecution :=
  { newExecution run node with status := .running, agentSessionId := some session }

theorem NodeExecution.markSkipped_eq_ok {ne ne' : NodeExecution}
    : ne.markSkipped = .ok ne' ↔ ne.status = .pending ∧ ne' = { ne with status := .skipped } := by
  apply guarded_eq_ok

theorem NodeExecution.markRunning_eq_ok {ne ne' : NodeExecution} {session : String}
    : ne.markRunning session = .ok ne'
        ↔
      ne.status = .pending ∧
      ne' = { ne with status := .running, agentSessionId := some session } := by
  apply guarded_eq_ok

theorem NodeExecution.markCompleted_eq_ok {ne ne' : NodeExecution} {output : Option Context}
    : ne.markCompleted output = .ok ne'
        ↔
      ne.status = .running ∧
      ne' = { ne with status := .completed, outputContext := output.getD ne.outputContext } := by
  apply guarded_eq_ok

theorem NodeExecution.markFailed_eq_ok {ne ne' : NodeExecution} {errorMessage : String}
    : ne.markFailed errorMessage = .ok ne'
        ↔
      ne.status = .running ∧
      ne' = { ne with status := .failed, errorMessage := some errorMessage } := by
  apply guarded_eq_ok

theorem GraphRun.markFailed_eq_ok {run run' : GraphRun} {errorMessage : String}
    : run.markFailed errorMessage = .ok run'
        ↔
      run.status = .running ∧
      run' = { run with
        status := .failed
        errorMessage := some errorMessage
        currentNodeIds := []
      } := by
  apply guarded_eq_ok

theorem GraphRun.postInit_eq_ok {run run' : GraphRun} (h : run.postInit = .ok run')
    : run' = run := by
  simp only [GraphRun.postInit, bind_eq_ok, ensure_eq_ok, exists_const] at h
  simp only [pure, Except.pure, Except.ok.injEq] at h
  exact h.2.2.2.2.2.symm

theorem GraphRun.markRunning_eq_ok {run run' : GraphRun} {entryNodeIds : List String}
    : run.markRunning entryNodeIds = .ok run'
        ↔
      run.status = .pending ∧
      run' = { run with status := .running, currentNodeIds := entryNodeIds } := by
  apply guarded_eq_ok

theorem GraphRun.markCompleted_eq_ok {run run' : GraphRun}
    : run.markCompleted = .ok run'
        ↔
      run.status = .running ∧ run' = { run with status := .completed, currentNodeIds := [] } := by
  apply guarded_eq_ok

theorem GraphRun.addNodeExecution_eq_ok {run run' : GraphRun} {ne : NodeExecution}
    : run.addNodeExecution ne = .ok run'
        ↔
      ne.nodeId ∉ run.nodeExecutions.keys ∧
      run' = { run with nodeExecutions := run.nodeExecutions.set ne.nodeId ne } := by
  apply guarded_eq_ok

def stepped (run : GraphRun) : GraphRun :=
  if run.totalSteps + 1 < run.maxTotalSteps then
    { run with totalSteps := run.totalSteps + 1 }
  else
    { run with
      totalSteps := run.totalSteps + 1
      status := .failed
      errorMessage := some s!"Graph run exceeded maximum steps ({run.maxTotalSteps})"
      currentNodeIds := []
    }

theorem GraphRun.incrementStep_eq_ok {run run' : GraphRun}
    : run.incrementStep = .ok run'
        ↔
      (run.totalSteps + 1 < run.maxTotalSteps ∨ run.status = .running) ∧ run' = stepped run := by
  unfold GraphRun.incrementStep stepped
  dsimp only
  by_cases hlimit : run.totalSteps + 1 < run.maxTotalSteps
  . rw [if_neg (by omega), if_pos hlimit, Except.ok.injEq]
    simp only [hlimit, true_or, true_and]
    exact eq_comm
  . rw [if_pos (by omega), if_neg hlimit, GraphRun.markFailed_eq_ok]
    simp only [hlimit, false_or]

def withExecution (run : GraphRun) (ne : NodeExecution) : GraphRun :=
  { run with nodeExecutions := run.nodeExecutions.set ne.nodeId ne }

theorem recordSkipped_eq_ok {run run' : GraphRun} {node : AgentNode}
    : recordSkipped run (newExecution run node) = .ok run'
        ↔
      node.nodeId ∉ run.nodeExecutions.keys ∧ run' = withExecution run (skippedExecution run node) := by
  simp only [recordSkipped, bind_eq_ok, NodeExecution.markSkipped_eq_ok,
    GraphRun.addNodeExecution_eq_ok]
  simp [newExecution, skippedExecution, withExecution]

theorem recordStarted_eq_ok {run run' : GraphRun} {node : AgentNode} {session : String}
    : recordStarted run (newExecution run node) session = .ok run'
        ↔
      node.nodeId ∉ run.nodeExecutions.keys ∧
      (run.totalSteps + 1 < run.maxTotalSteps ∨ run.status = .running) ∧
      run' = stepped (withExecution run (startedExecution run node session)) := by
  simp only [recordStarted, bind_eq_ok, NodeExecution.markRunning_eq_ok,
    GraphRun.addNodeExecution_eq_ok, GraphRun.incrementStep_eq_ok]
  simp [newExecution, startedExecution, withExecution]

section Schedule

variable (o : Outside) (graph : AgentGraph) (parentAgentId parentSessionId : String)

def agentAt (run : GraphRun) (node : AgentNode) (clock : Nat) : Agent where
  request :=
    spawnRequest graph run node (newExecution run node) parentAgentId parentSessionId
  session := o.session clock

/--
What becomes of the nodes that are to be started one after the other: the agents that are spawned,
the number of the next port call and the run or the error that comes out. If `strict` holds, a spawn
that fails is an error.
-/
inductive Scheduled (strict : Prop)
    : Nat → List String → GraphRun → List Agent → Nat → Except String GraphRun → Prop where
  | done (c : Nat) (run : GraphRun) : Scheduled strict c [] run [] c (.ok run)
  | unknown {c c' : Nat} {nodeId : String} {nodeIds : List String} {run : GraphRun}
      {agents : List Agent} {r : Except String GraphRun} (hnode : graph.getNode nodeId = none)
      (hrest : Scheduled strict c nodeIds run agents c' r)
      : Scheduled strict c (nodeId :: nodeIds) run agents c' r
  | raised {c : Nat} {nodeId : String} {nodeIds : List String} {run : GraphRun} {node : AgentNode}
      {e : String} (hnode : graph.getNode nodeId = some node) (hfault : o.fault c = some e)
      (hstrict : strict)
      : Scheduled strict c (nodeId :: nodeIds) run [] (c + 1) (.error e)
  | skipped {c c' : Nat} {nodeId : String} {nodeIds : List String} {run run' : GraphRun}
      {node : AgentNode} {e : String} {agents : List Agent} {r : Except String GraphRun}
      (hnode : graph.getNode nodeId = some node) (hfault : o.fault c = some e) (hstrict : ¬ strict)
      (hrecord : recordSkipped run (newExecution run node) = .ok run')
      (hrest : Scheduled strict (c + 1) nodeIds run' agents c' r)
      : Scheduled strict c (nodeId :: nodeIds) run agents c' r
  | skipRefused {c : Nat} {nodeId : String} {nodeIds : List String} {run : GraphRun}
      {node : AgentNode} {e e' : String} (hnode : graph.getNode nodeId = some node)
      (hfault : o.fault c = some e) (hstrict : ¬ strict)
      (hrecord : recordSkipped run (newExecution run node) = .error e')
      : Scheduled strict c (nodeId :: nodeIds) run [] (c + 1) (.error e')
  | started {c c' : Nat} {nodeId : String} {nodeIds : List String} {run run' : GraphRun}
      {node : AgentNode} {agents : List Agent} {r : Except String GraphRun}
      (hnode : graph.getNode nodeId = some node) (hfault : o.fault c = none)
      (hrecord : recordStarted run (newExecution run node) (o.session c) = .ok run')
      (hrest : Scheduled strict (c + 1) nodeIds run' agents c' r)
      : Scheduled strict c (nodeId :: nodeIds) run
          (agentAt o graph parentAgentId parentSessionId run node c :: agents) c' r
  | startRefused {c : Nat} {nodeId : String} {nodeIds : List String} {run : GraphRun}
      {node : AgentNode} {e : String} (hnode : graph.getNode nodeId = some node)
      (hfault : o.fault c = none)
      (hrecord : recordStarted run (newExecution run node) (o.session c) = .error e)
      : Scheduled strict c (nodeId :: nodeIds) run
          [agentAt o graph parentAgentId parentSessionId run node c] (c + 1) (.error e)

end Schedule

section Programs

variable {o : Outside} {w : World} {graph : AgentGraph} {parentAgentId parentSessionId : String}

theorem eval_scheduleNode_unknown {nodeId : String} (hnode : graph.getNode nodeId = none)
    (run : GraphRun)
    : w.eval o (scheduleNode graph parentAgentId parentSessionId run nodeId)
        =
      (w, some (.ok (run, []))) := by
  simp only [scheduleNode, hnode, World.eval_ret]

theorem eval_scheduleNode_skipped {nodeId e : String} {node : AgentNode}
    (hnode : graph.getNode nodeId = some node) (hfault : o.fault w.clock = some e) (run : GraphRun)
    : w.eval o (scheduleNode graph parentAgentId parentSessionId run nodeId)
        =
      (w.tick, some ((recordSkipped run (newExecution run node)).map fun run =>
        (run, [.nodeSkipped run.id node.nodeId node.label "Failed to spawn agent"]))) := by
  simp only [scheduleNode, hnode, Prog.bind_eq, World.eval_trySpawnAgent, hfault,
    World.eval_ofExcept_bind]
  cases recordSkipped run (newExecution run node) <;> rfl

theorem eval_scheduleNode_started {nodeId : String} {node : AgentNode}
    (hnode : graph.getNode nodeId = some node) (hfault : o.fault w.clock = none) (run : GraphRun)
    : w.eval o (scheduleNode graph parentAgentId parentSessionId run nodeId)
        =
      (w.spawning [agentAt o graph parentAgentId parentSessionId run node w.clock] (w.clock + 1),
        some ((recordStarted run (newExecution run node) (o.session w.clock)).map fun run =>
          (run, [startedEvent run node (o.session w.clock)]))) := by
  simp only [scheduleNode, hnode, Prog.bind_eq, World.eval_trySpawnAgent, hfault,
    World.eval_ofExcept_bind]
  cases recordStarted run (newExecution run node) (o.session w.clock) <;> rfl

theorem eval_startNode_raised {nodeId e : String} {node : AgentNode}
    (hnode : graph.getNode nodeId = some node) (hfault : o.fault w.clock = some e) (run : GraphRun)
    : w.eval o (startNode graph parentAgentId parentSessionId run nodeId)
        =
      (w.tick, some (.error e)) := by
  simp only [startNode, hnode, Prog.bind_eq, World.eval_spawnAgent, hfault]

theorem eval_startNode_started {nodeId : String} {node : AgentNode}
    (hnode : graph.getNode nodeId = some node) (hfault : o.fault w.clock = none) (run : GraphRun)
    : w.eval o (startNode graph parentAgentId parentSessionId run nodeId)
        =
      (w.spawning [agentAt o graph parentAgentId parentSessionId run node w.clock] (w.clock + 1),
        some ((recordStarted run (newExecution run node) (o.session w.clock)).map fun run =>
          (run, [startedEvent run node (o.session w.clock)]))) := by
  simp only [startNode, hnode, Prog.bind_eq, World.eval_spawnAgent, hfault,
    World.eval_ofExcept_bind]
  cases recordStarted run (newExecution run node) (o.session w.clock) <;> rfl

variable (o graph parentAgentId parentSessionId) in
structure Schedules (strict : Prop) (body : GraphRun → String → Program Reply) : Prop where
  unknown : ∀ w run nodeId, graph.getNode nodeId = none →
    World.eval o w (body run nodeId) = (w, some (.ok (run, [])))
  raised : ∀ w run nodeId node e, graph.getNode nodeId = some node → o.fault w.clock = some e →
    strict → World.eval o w (body run nodeId) = (w.tick, some (.error e))
  skipped : ∀ w run nodeId node e, graph.getNode nodeId = some node → o.fault w.clock = some e →
    ¬ strict → ∃ event : GraphRun → List GraphEvent,
      World.eval o w (body run nodeId)
        =
      (w.tick, some ((recordSkipped run (newExecution run node)).map fun run => (run, event run)))
  started : ∀ w run nodeId node, graph.getNode nodeId = some node → o.fault w.clock = none →
    ∃ event : GraphRun → List GraphEvent,
      World.eval o w (body run nodeId)
        =
      (w.spawning [agentAt o graph parentAgentId parentSessionId run node w.clock] (w.clock + 1),
        some ((recordStarted run (newExecution run node) (o.session w.clock)).map fun run =>
          (run, event run)))

theorem schedules_scheduleNode
    : Schedules o graph parentAgentId parentSessionId False
        (scheduleNode graph parentAgentId parentSessionId) where
  unknown w run nodeId hnode := eval_scheduleNode_unknown hnode run
  raised := by simp
  skipped w run nodeId node e hnode hfault _ := ⟨_, eval_scheduleNode_skipped hnode hfault run⟩
  started w run nodeId node hnode hfault := ⟨_, eval_scheduleNode_started hnode hfault run⟩

theorem schedules_startNode
    : Schedules o graph parentAgentId parentSessionId True
        (startNode graph parentAgentId parentSessionId) where
  unknown w run nodeId hnode := by simp only [startNode, hnode, World.eval_ret]
  raised w run nodeId node e hnode hfault _ := eval_startNode_raised hnode hfault run
  skipped := by simp
  started w run nodeId node hnode hfault := ⟨_, eval_startNode_started hnode hfault run⟩

theorem Schedules.forNodes {strict : Prop} {body : GraphRun → String → Program Reply}
    (h : Schedules o graph parentAgentId parentSessionId strict body) (nodeIds : List String)
    (run : GraphRun) (events : List GraphEvent)
    : ∃ agents clock r events',
        Scheduled o graph parentAgentId parentSessionId strict w.clock nodeIds run agents clock r ∧
        w.eval o (forNodes body nodeIds run events)
          =
        (w.spawning agents clock, some (r.map fun run => (run, events'))) := by
  induction nodeIds generalizing w run events with
  | nil =>
    refine ⟨[], w.clock, .ok run, events, .done _ _, ?_⟩
    simp [GraphOrchestrator.forNodes, World.spawning, Except.map]
  | cons nodeId nodeIds ih =>
    unfold GraphOrchestrator.forNodes
    rw [World.eval_bind]
    cases hnode : graph.getNode nodeId with
    | none =>
      rcases ih (w := w) run (events ++ []) with ⟨agents, clock, r, events', hrest, heval⟩
      rw [h.unknown w run nodeId hnode]
      exact ⟨agents, clock, r, events', .unknown hnode hrest, heval⟩
    | some node =>
      cases hfault : o.fault w.clock with
      | some e =>
        by_cases hstrict : strict
        . rw [h.raised w run nodeId node e hnode hfault hstrict]
          refine ⟨[], w.clock + 1, .error e, events, .raised hnode hfault hstrict, ?_⟩
          rw [World.spawning_nil]
          rfl
        . rcases h.skipped w run nodeId node e hnode hfault hstrict with ⟨event, hbody⟩
          rw [hbody]
          cases hrecord : recordSkipped run (newExecution run node) with
          | error e' =>
            refine ⟨[], w.clock + 1, .error e', events, .skipRefused hnode hfault hstrict hrecord, ?_⟩
            rw [World.spawning_nil]
            rfl
          | ok run' =>
            rcases ih (w := w.tick) run' (events ++ event run') with
              ⟨agents, clock, r, events', hrest, heval⟩
            exact ⟨agents, clock, r, events', .skipped hnode hfault hstrict hrecord hrest, heval⟩
      | none =>
        rcases h.started w run nodeId node hnode hfault with ⟨event, hbody⟩
        rw [hbody]
        cases hrecord : recordStarted run (newExecution run node) (o.session w.clock) with
        | error e =>
          exact ⟨_, _, .error e, events, .startRefused hnode hfault hrecord, rfl⟩
        | ok run' =>
          let w' := w.spawning [agentAt o graph parentAgentId parentSessionId run node w.clock]
            (w.clock + 1)
          rcases ih (w := w') run' (events ++ event run') with
            ⟨agents, clock, r, events', hrest, heval⟩
          refine ⟨_, clock, r, events', .started hnode hfault hrecord hrest, ?_⟩
          rw [World.spawning_spawning] at heval
          exact heval

variable (o graph parentAgentId parentSessionId) in
inductive Commits (strict : Prop) (c : Nat) (nodeIds : List String) (run : GraphRun)
    : List Agent → Option GraphRun → Except String GraphRun → Prop where
  | failed {agents : List Agent} {c' : Nat} {e : String}
      (h : Scheduled o graph parentAgentId parentSessionId strict c nodeIds run agents c' (.error e))
      : Commits strict c nodeIds run agents none (.error e)
  | unsaved {agents : List Agent} {c' : Nat} {run' : GraphRun} {e : String}
      (h : Scheduled o graph parentAgentId parentSessionId strict c nodeIds run agents c' (.ok run'))
      (hfault : o.fault c' = some e)
      : Commits strict c nodeIds run agents none (.error e)
  | saved {agents : List Agent} {c' : Nat} {run' : GraphRun}
      (h : Scheduled o graph parentAgentId parentSessionId strict c nodeIds run agents c' (.ok run'))
      (hfault : o.fault c' = none)
      : Commits strict c nodeIds run agents (some run') (.ok run')

theorem Scheduled.clock_le {strict : Prop} {c c' : Nat} {nodeIds : List String} {run : GraphRun}
    {agents : List Agent} {r : Except String GraphRun}
    (h : Scheduled o graph parentAgentId parentSessionId strict c nodeIds run agents c' r)
    : c ≤ c' := by
  induction h with
  | done | raised | skipRefused | startRefused => omega
  | unknown _ _ ih => exact ih
  | skipped _ _ _ _ _ ih => omega
  | started _ _ _ _ ih => omega

end Programs

def Call.runId : Call → Option String
  | .startRun _ => none
  | .onNodeCompleted _ runId .. => some runId
  | .onNodeFailed _ runId .. => some runId
  | .cancelRun runId _ => some runId
  | .handoffNode _ runId .. => some runId

namespace World

variable (o : Outside) (w : World)

def after (w : World) (agents : List Agent) (saved : Option GraphRun) (clock : Nat) : World :=
  { w with
    agents := w.agents ++ agents
    runs := saved.elim w.runs (SqlGraphRunRepository.save w.runs)
    clock
  }

structure Loaded (graphId runId : String) (graph : AgentGraph) (run : GraphRun) : Prop where
  noFault : o.fault w.clock = none ∧ o.fault (w.clock + 1) = none
  findGraph : w.findGraph graphId = some graph
  findRun : w.runs.get runId = some run
  belongs : run.graphId = graph.id
  scope : graph.tenantId = run.tenantId ∧ graph.projectId = run.projectId

structure Startable (args : StartArgs) (graph : AgentGraph) : Prop where
  noFault : o.fault w.clock = none
  findGraph : w.findGraph args.graphId = some graph
  scope : graph.tenantId = args.tenantId ∧ graph.projectId = args.projectId
  active : graph.isActive
  valid : graph.validateGraph = []
  init : (newRun graph args (o.runId (w.clock + 1))).postInit
      =
    .ok (newRun graph args (o.runId (w.clock + 1)))
  next : getNextNodeIds graph (newRun graph args (o.runId (w.clock + 1))) ≠ []

def startingRun (args : StartArgs) (graph : AgentGraph) : GraphRun :=
  { newRun graph args (o.runId (w.clock + 1)) with
    status := .running
    currentNodeIds := getNextNodeIds graph (newRun graph args (o.runId (w.clock + 1)))
  }

/--
All that a call can come to: the agents that are spawned, the run that is saved and the answer.
-/
inductive Outcome : Call → List Agent → Option GraphRun → Except String GraphRun → Prop where
  | refused (call : Call) (e : String) : Outcome call [] none (.error e)
  | finished {call : Call} {runId : String} {run : GraphRun} (hcall : call.runId = some runId)
      (hrun : w.runs.get runId = some run) (hover : run.isTerminal)
      : Outcome call [] none (.ok run)
  | started {args : StartArgs} {graph : AgentGraph} {agents : List Agent} {saved : Option GraphRun}
      {r : Except String GraphRun} (hstartable : Startable o w args graph)
      (hcommits : Commits o graph args.parent.agentId
        (orElse args.parent.sessionId args.conversationId) True (w.clock + 2)
        (getNextNodeIds graph (newRun graph args (o.runId (w.clock + 1))))
        (startingRun o w args graph) agents saved r)
      : Outcome (.startRun args) agents saved r
  | completed {graphId runId nodeId : String} {output : Option Context} {parent : Parent}
      {graph : AgentGraph} {run run' : GraphRun} (hloaded : w.Loaded o graphId runId graph run)
      (hover : ¬ run.isTerminal) (hrecord : recordCompleted run nodeId output = .ok run')
      (hcomplete : shouldCompleteRun graph run') (hstatus : run'.status = .running)
      : Outcome (.onNodeCompleted graphId runId nodeId output parent) []
          (some { run' with status := .completed, currentNodeIds := [] })
          (.ok { run' with status := .completed, currentNodeIds := [] })
  | advanced {graphId runId nodeId : String} {output : Option Context} {parent : Parent}
      {graph : AgentGraph} {run run' : GraphRun} {agents : List Agent} {saved : Option GraphRun}
      {r : Except String GraphRun} (hloaded : w.Loaded o graphId runId graph run)
      (hover : ¬ run.isTerminal) (hrecord : recordCompleted run nodeId output = .ok run')
      (hcomplete : ¬ shouldCompleteRun graph run')
      (hcommits : Commits o graph parent.agentId (orElse parent.sessionId run'.conversationId) False
        (w.clock + 2) (getNextNodeIds graph run') run' agents saved r)
      : Outcome (.onNodeCompleted graphId runId nodeId output parent) agents saved r
  | nodeFailed {graphId runId nodeId errorMessage : String} {graph : AgentGraph}
      {run run' : GraphRun} (hloaded : w.Loaded o graphId runId graph run)
      (hover : ¬ run.isTerminal)
      (hrecord : recordFailed graph run nodeId errorMessage = .ok run')
      : Outcome (.onNodeFailed graphId runId nodeId errorMessage) [] (some run') (.ok run')
  | cancelled {runId reason : String} {run : GraphRun} (hrun : w.runs.get runId = some run)
      (hover : ¬ run.isTerminal)
      : Outcome (.cancelRun runId reason) [] (some run.markCancelled) (.ok run.markCancelled)
  | handedOff {graphId runId fromNodeId toNodeId summary : String} {parent : Parent}
      {graph : AgentGraph} {run : GraphRun} {agents : List Agent} {saved : Option GraphRun}
      {r : Except String GraphRun} (hloaded : w.Loaded o graphId runId graph run)
      (hover : ¬ run.isTerminal) (hpattern : graph.pattern = .swarm)
      (hcommits : Commits o graph parent.agentId (orElse parent.sessionId run.conversationId) False
        (w.clock + 2) [toNodeId] run agents saved r)
      : Outcome (.handoffNode graphId runId fromNodeId toNodeId summary parent) agents saved r

variable {o : Outside} {w : World}

theorem tick_eq_after (w : World) : w.tick = w.after [] none (w.clock + 1) := by
  simp [tick, after]

theorem after_tick (w : World) (clock : Nat)
    : (w.after [] none clock).tick = w.after [] none (clock + 1) := by
  rfl

theorem after_clock (w : World) (agents : List Agent) (saved : Option GraphRun) (clock : Nat)
    : (w.after agents saved clock).clock = clock := by
  rfl

theorem markRunning_newRun (args : StartArgs) (graph : AgentGraph)
    : (newRun graph args (o.runId (w.clock + 1))).markRunning
          (getNextNodeIds graph (newRun graph args (o.runId (w.clock + 1))))
        =
      .ok (startingRun o w args graph) := by
  rw [GraphRun.markRunning_eq_ok]
  exact ⟨rfl, rfl⟩

theorem eval_load (graphId runId : String)
    : (∃ e clock, w.clock ≤ clock ∧
        eval o w (load graphId runId) = (w.after [] none clock, some (.error e))) ∨
      ∃ graph run, w.Loaded o graphId runId graph run ∧
        eval o w (load graphId runId) = (w.after [] none (w.clock + 2), some (.ok (graph, run))) := by
  simp only [load, Prog.bind_eq, eval_findGraph]
  cases hfault : o.fault w.clock with
  | some e => exact .inl ⟨e, w.clock + 1, by omega, by rw [tick_eq_after]⟩
  | none =>
    cases hgraph : w.findGraph graphId with
    | none => exact .inl ⟨_, w.clock + 1, by omega, by rw [tick_eq_after]; rfl⟩
    | some graph =>
      simp only [eval_findRun]
      cases hfault' : o.fault w.tick.clock with
      | some e => exact .inl ⟨e, w.clock + 2, by omega, by simp [tick, after]⟩
      | none =>
        cases hrun : w.runs.get runId with
        | none => exact .inl ⟨_, w.clock + 2, by omega, by simp [hrun, tick, after]; rfl⟩
        | some run =>
          have hrun' : w.tick.runs.get runId = some run := hrun
          simp only [hrun', eval_ofExcept_bind]
          cases hmatch : ensureGraphMatchesRun graph run with
          | error e => exact .inl ⟨e, w.clock + 2, by omega, by simp [tick, after]⟩
          | ok u =>
            simp only [ensureGraphMatchesRun, bind_eq_ok, ensure_eq_ok, exists_const] at hmatch
            refine .inr ⟨graph, run, ?_, by simp [tick, after]⟩
            exact ⟨⟨hfault, hfault'⟩, hgraph, hrun, hmatch.1, hmatch.2⟩

theorem after_after (w : World) (agents : List Agent) (saved : Option GraphRun) (c c' : Nat)
    : (w.after [] none c).after agents saved c' = w.after agents saved c' := by
  simp [after]

theorem eval_commits {graph : AgentGraph} {parentAgentId parentSessionId : String} {strict : Prop}
    {body : GraphRun → String → Program Reply}
    (h : Schedules o graph parentAgentId parentSessionId strict body) (nodeIds : List String)
    (run : GraphRun) (events : List GraphEvent)
    : ∃ agents saved r events' clock,
        Commits o graph parentAgentId parentSessionId strict w.clock nodeIds run agents saved r ∧
        w.clock ≤ clock ∧
        w.eval o ((forNodes body nodeIds run events).bind save)
          =
        (w.after agents saved clock, some (r.map fun run => (run, events'))) := by
  rcases h.forNodes (w := w) nodeIds run events with ⟨agents, clock, r, events', hscheduled, heval⟩
  have hclock := hscheduled.clock_le
  rw [eval_bind, heval]
  cases r with
  | error e => exact ⟨agents, none, .error e, events', clock, .failed hscheduled, hclock, rfl⟩
  | ok run' =>
    simp only [Except.map, eval_save]
    cases hfault : o.fault clock with
    | some e =>
      refine ⟨agents, none, .error e, events', clock + 1, .unsaved hscheduled hfault, by omega, ?_⟩
      have hfault' : o.fault (w.spawning agents clock).clock = some e := hfault
      rw [hfault']
      rfl
    | none =>
      refine ⟨agents, some run', .ok run', events', clock + 1, .saved hscheduled hfault, by omega, ?_⟩
      have hfault' : o.fault (w.spawning agents clock).clock = none := hfault
      rw [hfault']
      rfl

variable (o w) in
def HasOutcome (call : Call) (result : World × Option (Except String Reply)) : Prop :=
  ∃ agents saved r events clock, Outcome o w call agents saved r ∧ w.clock ≤ clock ∧
    (saved ≠ none → w.clock + 2 ≤ clock) ∧
    result = (w.after agents saved clock, some (r.map fun run => (run, events)))

theorem HasOutcome.refused {call : Call} {clock : Nat} {e : String} (hclock : w.clock ≤ clock)
    : HasOutcome o w call (w.after [] none clock, some (.error e)) :=
  ⟨[], none, .error e, [], clock, .refused call e, hclock, by simp, rfl⟩

theorem HasOutcome.finished {call : Call} {runId : String} {run : GraphRun} {clock : Nat}
    (hclock : w.clock ≤ clock) (hcall : call.runId = some runId)
    (hrun : w.runs.get runId = some run) (hover : run.isTerminal)
    : HasOutcome o w call (w.after [] none clock, some (.ok (run, []))) :=
  ⟨[], none, .ok run, [], clock, .finished hcall hrun hover, hclock, by simp, rfl⟩

theorem HasOutcome.saved {call : Call} {run : GraphRun} {clock : Nat} (hclock : w.clock + 2 ≤ clock)
    (h : Outcome o w call [] (some run) (.ok run)) (events : List GraphEvent)
    : HasOutcome o w call (eval o (w.after [] none clock) (save (run, events))) := by
  rw [eval_save]
  cases o.fault (w.after [] none clock).clock with
  | some e => exact .refused (by omega : w.clock ≤ clock + 1)
  | none =>
    refine ⟨[], some run, .ok run, events, clock + 1, h, by omega, by omega, ?_⟩
    simp [saving, after, Except.map]

theorem HasOutcome.commits {call : Call} {graph : AgentGraph}
    {parentAgentId parentSessionId : String} {strict : Prop}
    {body : GraphRun → String → Program Reply} {nodeIds : List String} {run : GraphRun} {clock : Nat}
    (hclock : w.clock + 2 ≤ clock) (hbody : Schedules o graph parentAgentId parentSessionId strict body)
    (h : ∀ agents saved r,
      Commits o graph parentAgentId parentSessionId strict clock nodeIds run agents saved r →
      Outcome o w call agents saved r)
    (events : List GraphEvent)
    : HasOutcome o w call
        (eval o (w.after [] none clock) ((forNodes body nodeIds run events).bind save)) := by
  rcases eval_commits (w := w.after [] none clock) hbody nodeIds run events with
    ⟨agents, saved, r, events', clock', hcommits, hclock', heval⟩
  have hlast : w.clock + 2 ≤ clock' := le_trans hclock hclock'
  refine ⟨agents, saved, r, events', clock', h agents saved r hcommits, by omega, fun _ => hlast, ?_⟩
  rw [heval, after_after]

theorem HasOutcome.ofLoad {call : Call} {graphId runId : String} {next : AgentGraph × GraphRun → Program Reply}
    (hcall : call.runId = some runId)
    (h : ∀ graph run, w.Loaded o graphId runId graph run → ¬ run.isTerminal →
      HasOutcome o w call (eval o (w.after [] none (w.clock + 2)) (next (graph, run))))
    : HasOutcome o w call (eval o w ((load graphId runId).bind fun loaded =>
        if loaded.2.isTerminal then pure (loaded.2, []) else next loaded)) := by
  rw [eval_bind]
  cases eval_load (o := o) (w := w) graphId runId with
  | inl hfailed =>
    rcases hfailed with ⟨e, clock, hclock, hload⟩
    rw [hload]
    exact .refused hclock
  | inr hloaded =>
    rcases hloaded with ⟨graph, run, hloaded, hload⟩
    rw [hload]
    dsimp only
    split
    . next hover => exact .finished (by omega) hcall hloaded.findRun hover
    . next hover => exact h graph run hloaded hover

variable (o w)

theorem outcome_onNodeCompleted (graphId runId nodeId : String) (output : Option Context)
    (parent : Parent)
    : HasOutcome o w (.onNodeCompleted graphId runId nodeId output parent)
        (w.step o (.onNodeCompleted graphId runId nodeId output parent)) := by
  simp only [step, Call.program, onNodeCompleted, Prog.bind_eq]
  apply HasOutcome.ofLoad rfl
  intro graph run hloaded hover
  rw [eval_ofExcept_bind]
  cases hrecord : recordCompleted run nodeId output with
  | error e => exact .refused (by omega)
  | ok run' =>
    dsimp only
    split
    . next hcomplete =>
      rw [eval_ofExcept_bind]
      cases hmark : run'.markCompleted with
      | error e => exact .refused (by omega)
      | ok run'' =>
        rw [GraphRun.markCompleted_eq_ok] at hmark
        rw [hmark.2]
        exact .saved (by omega) (.completed hloaded hover hrecord hcomplete hmark.1) _
    . next hcomplete =>
      apply HasOutcome.commits (by omega) schedules_scheduleNode
      intro agents saved r hcommits
      exact .advanced hloaded hover hrecord hcomplete hcommits

theorem outcome_onNodeFailed (graphId runId nodeId errorMessage : String)
    : HasOutcome o w (.onNodeFailed graphId runId nodeId errorMessage)
        (w.step o (.onNodeFailed graphId runId nodeId errorMessage)) := by
  simp only [step, Call.program, onNodeFailed, Prog.bind_eq]
  apply HasOutcome.ofLoad rfl
  intro graph run hloaded hover
  rw [eval_ofExcept_bind]
  cases hrecord : recordFailed graph run nodeId errorMessage with
  | error e => exact .refused (by omega)
  | ok run' => exact .saved (by omega) (.nodeFailed hloaded hover hrecord) _

theorem outcome_cancelRun (runId reason : String)
    : HasOutcome o w (.cancelRun runId reason) (w.step o (.cancelRun runId reason)) := by
  simp only [step, Call.program, cancelRun, Prog.bind_eq]
  rw [eval_findRun]
  cases o.fault w.clock with
  | some e => exact tick_eq_after w ▸ .refused (by omega)
  | none =>
    cases hrun : w.runs.get runId with
    | none => exact tick_eq_after w ▸ .refused (by omega)
    | some run =>
      dsimp only
      split
      . next hover => exact tick_eq_after w ▸ .finished (by omega) rfl hrun hover
      . next hover =>
        rw [eval_findGraph]
        have htick : w.tick.tick = w.after [] none (w.clock + 2) := by
          simp [tick, after]
        rw [htick]
        cases o.fault w.tick.clock with
        | some e => exact .refused (by omega)
        | none => exact .saved (by omega) (.cancelled hrun hover) _

theorem outcome_handoffNode (graphId runId fromNodeId toNodeId summary : String) (parent : Parent)
    : HasOutcome o w (.handoffNode graphId runId fromNodeId toNodeId summary parent)
        (w.step o (.handoffNode graphId runId fromNodeId toNodeId summary parent)) := by
  simp only [step, Call.program, handoffNode, Prog.bind_eq]
  apply HasOutcome.ofLoad rfl
  intro graph run hloaded hover
  rw [eval_ofExcept_bind]
  cases hpattern : ensure (graph.pattern = .swarm)
      s!"Handoff is only supported in SWARM pattern, got {graph.pattern.toText}" with
  | error e => exact .refused (by omega)
  | ok u =>
    rw [ensure_eq_ok] at hpattern
    dsimp only
    rw [eval_ofExcept_bind]
    cases SwarmCoordinator.validateHandoffTarget graph run toNodeId with
    | error e => exact .refused (by omega)
    | ok u =>
      apply HasOutcome.commits (by omega) schedules_scheduleNode
      intro agents saved r hcommits
      exact .handedOff hloaded hover hpattern hcommits

theorem outcome_startRun (args : StartArgs)
    : HasOutcome o w (.startRun args) (w.step o (.startRun args)) := by
  simp only [step, Call.program, startRun, Prog.bind_eq]
  rw [eval_findGraph, tick_eq_after]
  cases hfault : o.fault w.clock with
  | some e => exact .refused (by omega)
  | none =>
    cases hgraph : w.findGraph args.graphId with
    | none => exact .refused (by omega)
    | some graph =>
      dsimp only
      rw [eval_ofExcept_bind]
      cases hscope : ensureGraphScope graph args.tenantId args.projectId with
      | error e => exact .refused (by omega)
      | ok u =>
        dsimp only
        rw [eval_ofExcept_bind]
        cases hactive : ensure graph.isActive s!"Agent graph is inactive: {args.graphId}" with
        | error e => exact .refused (by omega)
        | ok u =>
          dsimp only
          rw [eval_ofExcept_bind]
          cases hvalid : ensure (graph.validateGraph = [])
              ("Invalid graph: " ++ "; ".intercalate graph.validateGraph) with
          | error e => exact .refused (by omega)
          | ok u =>
            dsimp only
            rw [eval_newRunId, after_tick, after_clock, eval_ofExcept_bind]
            cases hinit : (newRun graph args (o.runId (w.clock + 1))).postInit with
            | error e => exact .refused (by omega)
            | ok run =>
              have hrun := GraphRun.postInit_eq_ok hinit
              rw [hrun] at hinit ⊢
              dsimp only
              rw [eval_ofExcept_bind]
              cases hnext : ensure
                  (getNextNodeIds graph (newRun graph args (o.runId (w.clock + 1))) ≠ [])
                  "Graph has no entry nodes to start" with
              | error e => exact .refused (by omega)
              | ok u =>
                dsimp only
                rw [markRunning_newRun, eval_ofExcept_bind]
                apply HasOutcome.commits (by omega) schedules_startNode
                intro agents saved r hcommits
                rw [ensure_eq_ok] at hactive hvalid hnext
                unfold ensureGraphScope at hscope
                rw [ensure_eq_ok] at hscope
                exact .started ⟨hfault, hgraph, hscope, hactive, hvalid, hinit, hnext⟩ hcommits

theorem step_outcome (call : Call) : HasOutcome o w call (w.step o call) := by
  cases call with
  | startRun args => apply outcome_startRun
  | onNodeCompleted graphId runId nodeId output parent => apply outcome_onNodeCompleted
  | onNodeFailed graphId runId nodeId errorMessage => apply outcome_onNodeFailed
  | cancelRun runId reason => apply outcome_cancelRun
  | handoffNode graphId runId fromNodeId toNodeId summary parent => apply outcome_handoffNode

end World

end Graph
end MemStack
