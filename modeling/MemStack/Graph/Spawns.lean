import MemStack.Graph.Progress

/-!
This module contains the agents that a call spawns.
-/

namespace MemStack
namespace Graph

open Port Checked GraphOrchestrator

variable {o : Outside} {graph : AgentGraph} {parentAgentId parentSessionId : String}
  {strict : Prop} {c c' : Nat} {nodeIds : List String} {run run' : GraphRun} {agents : List Agent}
  {r : Except String GraphRun}

def knownIds (graph : AgentGraph) (nodeIds : List String) : List String :=
  nodeIds.filter fun nodeId => (graph.getNode nodeId).isSome

def Addable (run : GraphRun) (nodeIds : List String) : Prop :=
  nodeIds.Nodup ∧ ∀ nodeId ∈ nodeIds, nodeId ∉ run.nodeExecutions.keys

theorem addable_cons {ne : NodeExecution}
    : Addable run (ne.nodeId :: nodeIds)
        ↔
      ne.nodeId ∉ run.nodeExecutions.keys ∧ Addable (withExecution run ne) nodeIds := by
  unfold Addable withExecution
  simp only [List.nodup_cons, List.mem_cons, Dict.mem_keys_set]
  grind

theorem addable_stepped : Addable (stepped run) nodeIds ↔ Addable run nodeIds := by
  unfold Addable stepped
  split <;> rfl

def WithinSteps (run : GraphRun) (spawns : Nat) : Prop :=
  spawns = 0 ∨ run.totalSteps + spawns < run.maxTotalSteps ∨
    run.status = .running ∧ (spawns = 1 ∨ run.totalSteps + spawns ≤ run.maxTotalSteps)

theorem withinSteps_succ (run : GraphRun) (ne : NodeExecution) (spawns : Nat)
    : WithinSteps run (1 + spawns)
        ↔
      (run.totalSteps + 1 < run.maxTotalSteps ∨ run.status = .running) ∧
        WithinSteps (stepped (withExecution run ne)) spawns := by
  unfold WithinSteps stepped withExecution
  dsimp only
  by_cases hstatus : run.status = .running
  . split <;> simp [hstatus] <;> omega
  . split <;> simp [hstatus] <;> omega

theorem knownIds_cons_none {nodeId : String} (h : graph.getNode nodeId = none)
    : knownIds graph (nodeId :: nodeIds) = knownIds graph nodeIds := by
  simp [knownIds, h]

theorem knownIds_cons_some {nodeId : String} {node : AgentNode}
    (h : graph.getNode nodeId = some node)
    : knownIds graph (nodeId :: nodeIds) = nodeId :: knownIds graph nodeIds := by
  simp [knownIds, h]

-- None of the next `n` port calls fails.
def NoFault (o : Outside) (c n : Nat) : Prop :=
  ∀ i < n, o.fault (c + i) = none

theorem noFault_succ {n : Nat}
    : NoFault o c (n + 1) ↔ o.fault c = none ∧ NoFault o (c + 1) n := by
  unfold NoFault
  rw [Nat.forall_lt_succ_left]
  simp only [Nat.add_zero, Nat.add_assoc, Nat.add_comm 1]

theorem not_mem_of_recordSkipped_eq_error {node : AgentNode} {e : String}
    (h : recordSkipped run (newExecution run node) = .error e)
    : node.nodeId ∈ run.nodeExecutions.keys := by
  by_contra hkey
  rw [recordSkipped_eq_ok.mpr ⟨hkey, rfl⟩] at h
  cases h

theorem Scheduled.ok_iff
    (h : Scheduled o graph parentAgentId parentSessionId strict c nodeIds run agents c' r)
    : (∃ run', r = .ok run')
        ↔
      Addable run (knownIds graph nodeIds) ∧ WithinSteps run (spawnsOf o graph c nodeIds) ∧
        (strict → NoFault o c (knownIds graph nodeIds).length) := by
  induction h with
  | done c run => simp [knownIds, Addable, WithinSteps, spawnsOf, NoFault]
  | unknown hnode hrest ih => simpa [knownIds_cons_none hnode, spawnsOf, hnode] using ih
  | raised hnode hfault hstrict =>
    simp [knownIds_cons_some hnode, noFault_succ, hfault, hstrict]
  | @skipped c c' nodeId nodeIds run run₁ node e agents r hnode hfault hstrict hrecord hrest ih =>
    rw [recordSkipped_eq_ok] at hrecord
    have hid : (skippedExecution run node).nodeId = nodeId := nodeId_of_getNode hnode
    have hkey : nodeId ∉ run.nodeExecutions.keys := nodeId_of_getNode hnode ▸ hrecord.1
    rw [ih, knownIds_cons_some hnode, hrecord.2, ← hid, addable_cons]
    simp [spawnsOf, hid, hkey, hnode, hfault, hstrict, WithinSteps, withExecution]
  | @skipRefused c nodeId nodeIds run node e e' hnode hfault hstrict hrecord =>
    have hid : (skippedExecution run node).nodeId = nodeId := nodeId_of_getNode hnode
    have hkey := nodeId_of_getNode hnode ▸ not_mem_of_recordSkipped_eq_error hrecord
    rw [knownIds_cons_some hnode, ← hid, addable_cons, hid]
    simp [hkey]
  | @started c c' nodeId nodeIds run run₁ node agents r hnode hfault hrecord hrest ih =>
    rw [recordStarted_eq_ok] at hrecord
    have hid : (startedExecution run node (o.session c)).nodeId = nodeId := nodeId_of_getNode hnode
    have hkey : nodeId ∉ run.nodeExecutions.keys := nodeId_of_getNode hnode ▸ hrecord.1
    rw [ih, knownIds_cons_some hnode, hrecord.2.2, ← hid, addable_cons, addable_stepped]
    simp only [spawnsOf, hid, hnode, hfault, if_true, List.length_cons, noFault_succ]
    rw [withinSteps_succ run (startedExecution run node (o.session c))]
    simp [hkey, hrecord.2.1]
  | @startRefused c nodeId nodeIds run node e hnode hfault hrecord =>
    have hid : (startedExecution run node (o.session c)).nodeId = nodeId := nodeId_of_getNode hnode
    have hnot : ¬ (nodeId ∉ run.nodeExecutions.keys ∧
        (run.totalSteps + 1 < run.maxTotalSteps ∨ run.status = .running)) := by
      intro h
      rw [← nodeId_of_getNode hnode] at h
      rw [recordStarted_eq_ok.mpr ⟨h.1, h.2, rfl⟩] at hrecord
      cases hrecord
    rw [knownIds_cons_some hnode, ← hid, addable_cons, hid]
    simp only [spawnsOf, hnode, hfault, if_true]
    rw [withinSteps_succ run (startedExecution run node (o.session c))]
    simp only [reduceCtorEq, exists_false, false_iff]
    tauto

-- The nodes before the `i`-th are passed without an error, given that none of them is spawned.
def Passes (o : Outside) (graph : AgentGraph) (strict : Prop) (c : Nat) (nodeIds : List String)
    (run : GraphRun) (i : Nat) : Prop :=
  Addable run ((knownIds graph nodeIds).take i) ∧ (strict → NoFault o c i)

theorem Scheduled.agents_eq_nil_iff
    (h : Scheduled o graph parentAgentId parentSessionId strict c nodeIds run agents c' r)
    : agents = []
        ↔
      ∀ i < (knownIds graph nodeIds).length,
        Passes o graph strict c nodeIds run i → o.fault (c + i) ≠ none := by
  unfold Passes
  induction h with
  | done c run => simp [knownIds]
  | unknown hnode hrest ih => simpa [knownIds_cons_none hnode] using ih
  | raised hnode hfault hstrict =>
    rw [knownIds_cons_some hnode, List.length_cons, Nat.forall_lt_succ_left]
    simp [noFault_succ, hfault, hstrict]
  | @skipped c c' nodeId nodeIds run run₁ node e agents r hnode hfault hstrict hrecord hrest ih =>
    rw [recordSkipped_eq_ok] at hrecord
    have hid : (skippedExecution run node).nodeId = nodeId := nodeId_of_getNode hnode
    have hkey : nodeId ∉ run.nodeExecutions.keys := nodeId_of_getNode hnode ▸ hrecord.1
    have hadd : ∀ ids, Addable run (nodeId :: ids) ↔ Addable run₁ ids := by
      intro ids
      rw [hrecord.2, ← hid, addable_cons, hid]
      simp [hkey]
    rw [ih, knownIds_cons_some hnode, List.length_cons, Nat.forall_lt_succ_left]
    simp [hadd, hfault, hstrict, Nat.add_assoc, Nat.add_comm 1]
  | @skipRefused c nodeId nodeIds run node e e' hnode hfault hstrict hrecord =>
    have hkey := nodeId_of_getNode hnode ▸ not_mem_of_recordSkipped_eq_error hrecord
    rw [knownIds_cons_some hnode, List.length_cons, Nat.forall_lt_succ_left]
    simp [hfault, Addable, hkey]
  | started hnode hfault hrecord hrest ih =>
    rw [knownIds_cons_some hnode, List.length_cons, Nat.forall_lt_succ_left]
    simp [hfault, Addable, NoFault]
  | startRefused hnode hfault hrecord =>
    rw [knownIds_cons_some hnode, List.length_cons, Nat.forall_lt_succ_left]
    simp [hfault, Addable, NoFault]

theorem Scheduled.clock_of_ok
    (h : Scheduled o graph parentAgentId parentSessionId strict c nodeIds run agents c' r)
    (hr : r = .ok run')
    : c' = c + (knownIds graph nodeIds).length := by
  induction h with
  | done => rfl
  | unknown hnode _ ih => rw [ih hr, knownIds_cons_none hnode]
  | raised | skipRefused | startRefused => cases hr
  | skipped hnode _ _ _ _ ih | started hnode _ _ _ ih =>
    rw [ih hr, knownIds_cons_some hnode, List.length_cons]
    omega

def Recorded (run : GraphRun) (agent : Agent) : Prop :=
  ∃ ne, run.getNodeExecution agent.request.nodeId = some ne ∧
    ne.agentSessionId = some agent.session

theorem recorded_withExecution (node : AgentNode)
    : Recorded (withExecution run (startedExecution run node (o.session c)))
        (agentAt o graph parentAgentId parentSessionId run node c) := by
  refine ⟨startedExecution run node (o.session c), ?_, rfl⟩
  unfold GraphRun.getNodeExecution withExecution
  rw [Dict.get_set, if_pos]
  rfl

theorem Recorded.extends {agent : Agent} (h : Recorded run agent) (hextends : Extends run run')
    : Recorded run' agent := by
  rcases h with ⟨ne, hget, hsession⟩
  exact ⟨ne, hextends.kept _ ne hget, hsession⟩

theorem Scheduled.recorded
    (h : Scheduled o graph parentAgentId parentSessionId strict c nodeIds run agents c' r)
    (hr : r = .ok run')
    : ∀ agent ∈ agents, Recorded run' agent := by
  induction h with
  | done => simp
  | unknown _ _ ih => apply ih hr
  | raised | skipRefused | startRefused => cases hr
  | skipped _ _ _ _ _ ih => apply ih hr
  | @started c c' nodeId nodeIds run run₁ node agents r hnode hfault hrecord hrest ih =>
    rw [recordStarted_eq_ok] at hrecord
    intro agent hagent
    cases List.mem_cons.mp hagent with
    | inl hfirst =>
      rw [hfirst]
      apply Recorded.extends _ (hrest.extends hr)
      rw [hrecord.2.2]
      apply Recorded.extends _ (extends_stepped _)
      apply recorded_withExecution
    | inr hrest => apply ih hr agent hrest

theorem Recorded.save {agent : Agent} (h : Recorded run agent) (runs : Dict String GraphRun)
    : ∃ stored, (SqlGraphRunRepository.save runs run).get run.id = some stored ∧
      Recorded stored agent := by
  rcases h with ⟨ne, hget, hsession⟩
  unfold SqlGraphRunRepository.save
  cases runs.get run.id with
  | none => exact ⟨run, by simp [Dict.get_set], ne, hget, hsession⟩
  | some existing =>
    dsimp only
    refine ⟨_, by rw [Dict.get_set, if_pos rfl], ne, ?_, hsession⟩
    unfold GraphRun.getNodeExecution at *
    rw [Dict.get_update, hget]
    rfl

def Clean (o : Outside) (graph : AgentGraph) (strict : Prop) (c : Nat) (nodeIds : List String)
    (run : GraphRun) : Prop :=
  let known := knownIds graph nodeIds
  (Addable run known ∧ WithinSteps run (spawnsOf o graph c nodeIds) ∧
    (strict → NoFault o c known.length) ∧ o.fault (c + known.length) = none) ∨
  ∀ i < known.length, Passes o graph strict c nodeIds run i → o.fault (c + i) ≠ none

theorem Commits.clean_iff {saved : Option GraphRun}
    (h : Commits o graph parentAgentId parentSessionId strict c nodeIds run agents saved r)
    : Clean o graph strict c nodeIds run ↔ (∃ run', r = .ok run') ∨ agents = [] := by
  unfold Clean
  cases h with
  | failed h =>
    have hok := h.ok_iff
    rw [h.agents_eq_nil_iff]
    simp only [reduceCtorEq, exists_false, false_iff] at hok
    simp
    tauto
  | unsaved h hfault =>
    have hclock := h.clock_of_ok rfl
    rw [h.agents_eq_nil_iff]
    simp [← hclock, hfault]
  | saved h hfault =>
    have hclock := h.clock_of_ok rfl
    have hok := h.ok_iff.mp ⟨_, rfl⟩
    simp [← hclock, hfault, hok.1, hok.2.1]
    tauto

def World.AllOrNothing (o : Outside) (w : World) (call : Call) : Prop :=
  match w.step o call with
  | (w', some (.ok reply)) =>
    ∀ agent ∈ w'.agents.drop w.agents.length,
      ∃ run, w'.runs.get reply.1.id = some run ∧ Recorded run agent
  | (w', _) => w'.agents = w.agents

namespace World

variable {w : World} {call : Call}

theorem allOrNothing_of_commits {saved : Option GraphRun} {events : List GraphEvent} {clock : Nat}
    (h : Commits o graph parentAgentId parentSessionId strict c nodeIds run agents saved r)
    (heq : w.step o call = (w.after agents saved clock, some (r.map fun run => (run, events))))
    : w.AllOrNothing o call ↔ Clean o graph strict c nodeIds run := by
  rw [h.clean_iff]
  unfold AllOrNothing
  rw [heq]
  cases h with
  | failed | unsaved => simp [after, Except.map]
  | saved h hfault =>
    simp only [Except.map, after, List.drop_left, Except.ok.injEq, exists_eq', true_or, iff_true]
    intro agent hagent
    apply Recorded.save (h.recorded rfl agent hagent)

theorem allOrNothing_of_no_agents {saved : Option GraphRun} {events : List GraphEvent} {clock : Nat}
    (heq : w.step o call = (w.after [] saved clock, some (r.map fun run => (run, events))))
    : w.AllOrNothing o call := by
  unfold AllOrNothing
  rw [heq]
  cases r <;> simp [after, Except.map]

theorem step_startRun {args : StartArgs} (h : Startable o w args graph)
    : ∃ agents saved r events clock,
        Commits o graph args.parent.agentId (orElse args.parent.sessionId args.conversationId) True
          (w.clock + 2) (getNextNodeIds graph (newRun graph args (o.runId (w.clock + 1))))
          (startingRun o w args graph) agents saved r ∧
        w.step o (.startRun args)
          =
        (w.after agents saved clock, some (r.map fun run => (run, events))) := by
  simp only [step, Call.program, startRun, Prog.bind_eq]
  rw [eval_findGraph, h.noFault]
  dsimp only
  rw [h.findGraph]
  dsimp only
  rw [eval_ofExcept_bind, ensureGraphScope, ensure_pos h.scope]
  dsimp only
  rw [eval_ofExcept_bind, ensure_pos h.active]
  dsimp only
  rw [eval_ofExcept_bind, ensure_pos h.valid]
  dsimp only
  rw [tick_eq_after, eval_newRunId, after_tick, after_clock, eval_ofExcept_bind, h.init]
  dsimp only
  rw [eval_ofExcept_bind, ensure_pos h.next]
  dsimp only
  rw [markRunning_newRun, eval_ofExcept_bind]
  dsimp only
  rcases eval_commits (w := w.after [] none (w.clock + 2)) schedules_startNode
      (getNextNodeIds graph (newRun graph args (o.runId (w.clock + 1))))
      (startingRun o w args graph) _ with ⟨agents, saved, r, events, clock, hcommits, _, heval⟩
  refine ⟨agents, saved, r, events, clock, hcommits, ?_⟩
  rw [after_after] at heval
  exact heval

structure Advancing (o : Outside) (w : World) (graphId runId nodeId : String)
    (output : Option Context) (graph : AgentGraph) (run' : GraphRun) : Prop where
  loaded : ∃ run, w.Loaded o graphId runId graph run ∧ ¬ run.isTerminal ∧
    recordCompleted run nodeId output = .ok run'
  goesOn : ¬ shouldCompleteRun graph run'

theorem eval_load_of_loaded {graphId runId : String} (h : w.Loaded o graphId runId graph run)
    : eval o w (load graphId runId) = (w.after [] none (w.clock + 2), some (.ok (graph, run))) := by
  have hmatch : ensureGraphMatchesRun graph run = .ok () := by
    simp only [ensureGraphMatchesRun, bind_eq_ok, ensure_eq_ok, exists_const]
    exact ⟨h.belongs, h.scope⟩
  simp only [load, Prog.bind_eq]
  rw [eval_findGraph, h.noFault.1]
  dsimp only
  rw [h.findGraph, eval_findRun, tick_eq_after, after_clock, h.noFault.2, after_tick]
  dsimp only
  have hrun : (w.after [] none (w.clock + 1)).runs.get runId = some run := h.findRun
  rw [hrun]
  dsimp only
  rw [eval_ofExcept_bind, hmatch]
  rfl

theorem step_onNodeCompleted {graphId runId nodeId : String} {output : Option Context}
    (parent : Parent) (h : Advancing o w graphId runId nodeId output graph run')
    : ∃ agents saved r events clock,
        Commits o graph parent.agentId (orElse parent.sessionId run'.conversationId) False
          (w.clock + 2) (getNextNodeIds graph run') run' agents saved r ∧
        w.step o (.onNodeCompleted graphId runId nodeId output parent)
          =
        (w.after agents saved clock, some (r.map fun run => (run, events))) := by
  rcases h.loaded with ⟨run, hloaded, hover, hrecord⟩
  simp only [step, Call.program, onNodeCompleted, Prog.bind_eq]
  rw [eval_bind, eval_load_of_loaded hloaded]
  dsimp only
  rw [if_neg hover, eval_ofExcept_bind, hrecord]
  dsimp only
  rw [if_neg h.goesOn]
  rcases eval_commits (w := w.after [] none (w.clock + 2)) schedules_scheduleNode
      (getNextNodeIds graph run') run' _ with ⟨agents, saved, r, events, clock, hcommits, _, heval⟩
  refine ⟨agents, saved, r, events, clock, hcommits, ?_⟩
  rw [after_after] at heval
  exact heval

def CleanStart (o : Outside) (w : World) (args : StartArgs) : Prop :=
  ∀ graph, Startable o w args graph →
    Clean o graph True (w.clock + 2)
      (getNextNodeIds graph (newRun graph args (o.runId (w.clock + 1))))
      (startingRun o w args graph)

def CleanCompletion (o : Outside) (w : World) (graphId runId nodeId : String)
    (output : Option Context) : Prop :=
  ∀ graph run', Advancing o w graphId runId nodeId output graph run' →
    Clean o graph False (w.clock + 2) (getNextNodeIds graph run') run'

theorem allOrNothing_startRun (args : StartArgs)
    : w.AllOrNothing o (.startRun args) ↔ CleanStart o w args := by
  unfold CleanStart
  by_cases h : ∃ graph, Startable o w args graph
  . rcases h with ⟨graph, h⟩
    rcases step_startRun h with ⟨agents, saved, r, events, clock, hcommits, heq⟩
    rw [allOrNothing_of_commits hcommits heq]
    constructor
    . intro hclean graph' h'
      have hgraph := h'.findGraph
      rw [h.findGraph] at hgraph
      cases hgraph
      exact hclean
    . intro hclean
      apply hclean graph h
  . rcases step_outcome o w (.startRun args) with ⟨agents, saved, r, events, clock, hout, _, _, heq⟩
    have hagents : agents = [] := by
      cases hout with
      | refused | finished => rfl
      | started hstartable => exact absurd ⟨_, hstartable⟩ h
    rw [hagents] at heq
    have hnothing := allOrNothing_of_no_agents heq
    constructor
    . intro _ graph hgraph
      exact absurd ⟨graph, hgraph⟩ h
    . intro _
      exact hnothing

theorem allOrNothing_onNodeCompleted (graphId runId nodeId : String) (output : Option Context)
    (parent : Parent)
    : w.AllOrNothing o (.onNodeCompleted graphId runId nodeId output parent)
        ↔
      CleanCompletion o w graphId runId nodeId output := by
  unfold CleanCompletion
  by_cases h : ∃ graph run', Advancing o w graphId runId nodeId output graph run'
  . rcases h with ⟨graph, run', h⟩
    rcases step_onNodeCompleted parent h with ⟨agents, saved, r, events, clock, hcommits, heq⟩
    rw [allOrNothing_of_commits hcommits heq]
    constructor
    . intro hclean graph' run'' h'
      rcases h.loaded with ⟨run, hloaded, _, hrecord⟩
      rcases h'.loaded with ⟨run₁, hloaded', _, hrecord'⟩
      have hgraph := hloaded'.findGraph
      have hrun := hloaded'.findRun
      rw [hloaded.findGraph] at hgraph
      rw [hloaded.findRun] at hrun
      cases hgraph
      cases hrun
      rw [hrecord] at hrecord'
      cases hrecord'
      exact hclean
    . intro hclean
      apply hclean graph run' h
  . rcases step_outcome o w (.onNodeCompleted graphId runId nodeId output parent) with
      ⟨agents, saved, r, events, clock, hout, _, _, heq⟩
    have hagents : agents = [] := by
      cases hout with
      | refused | finished | completed => rfl
      | advanced hloaded hover hrecord hcomplete hcommits =>
        exact absurd ⟨_, _, ⟨_, hloaded, hover, hrecord⟩, hcomplete⟩ h
    rw [hagents] at heq
    have hnothing := allOrNothing_of_no_agents heq
    constructor
    . intro _ graph run' h'
      exact absurd ⟨graph, run', h'⟩ h
    . intro _
      exact hnothing

theorem spawns_all_or_nothing (o : Outside) (w : World)
    : (∀ args, w.AllOrNothing o (.startRun args) ↔ CleanStart o w args) ∧
      ∀ graphId runId nodeId output parent,
        w.AllOrNothing o (.onNodeCompleted graphId runId nodeId output parent)
          ↔
        CleanCompletion o w graphId runId nodeId output := by
  constructor
  . intro args
    apply allOrNothing_startRun
  . intro graphId runId nodeId output parent
    apply allOrNothing_onNodeCompleted

def terminalC : AgentNode :=
  { terminalB with nodeId := "c", label := "C", nodeId_ne := by decide, label_ne := by decide }

def edgeToC : AgentEdge :=
  { sourceNodeId := "a", targetNodeId := "c" }

def limitedSteps : AgentGraph :=
  { review .fanOut [entryA, terminalB, terminalC] [{ sourceNodeId := "a", targetNodeId := "b" }, edgeToC] with
    maxTotalSteps := 2
    maxTotalSteps_pos := by decide }

theorem agents_left_at_step_limit
    : ¬ AllOrNothing calm (step calm (start [limitedSteps]) (.startRun reviewArgs)).1
          (.onNodeCompleted "review" "r" "a" none {}) := by
  intro h
  have hlength := congrArg List.length h
  revert hlength
  decide

end World

end Graph
end MemStack
