import MemStack.Graph.Store

/-!
This module contains the nodes of runs that are over.
-/

namespace MemStack
namespace Graph

open History Machine Checked GraphOrchestrator

variable {o : Outside} {graph : AgentGraph} {parentAgentId parentSessionId : String} {strict : Prop}
  {c c' : Nat} {nodeIds : List String} {run run' : GraphRun} {agents : List Agent}
  {r : Except String GraphRun}

def WithinLimit (run : GraphRun) : Prop :=
  run.status = .running ∧ run.totalSteps < run.maxTotalSteps ∨
    run.status = .failed ∧ run.totalSteps = run.maxTotalSteps

theorem Scheduled.withinLimit
    (h : Scheduled o graph parentAgentId parentSessionId strict c nodeIds run agents c' r)
    (hr : r = .ok run') (hlimit : WithinLimit run)
    : WithinLimit run' ∧ run'.totalSteps = run.totalSteps + agents.length := by
  induction h with
  | done c run =>
    cases hr
    exact ⟨hlimit, rfl⟩
  | unknown _ _ ih => apply ih hr hlimit
  | raised | skipRefused | startRefused => cases hr
  | skipped hnode hfault hstrict hrecord hrest ih =>
    rw [recordSkipped_eq_ok] at hrecord
    rw [hrecord.2] at ih
    apply ih hr hlimit
  | @started c c' nodeId nodeIds run run₁ node agents r hnode hfault hrecord hrest ih =>
    rw [recordStarted_eq_ok] at hrecord
    have hrunning : run.status = .running ∧ run.totalSteps < run.maxTotalSteps := by
      cases hlimit with
      | inl hrunning => exact hrunning
      | inr hfailed =>
        cases hrecord.2.1 with
        | inl hbelow => omega
        | inr hstatus => simp [hfailed.1] at hstatus
    have hstepped : WithinLimit run₁ ∧ run₁.totalSteps = run.totalSteps + 1 := by
      rw [hrecord.2.2]
      unfold stepped
      split
      . next hbelow => exact ⟨.inl ⟨hrunning.1, hbelow⟩, rfl⟩
      . next hbelow =>
        refine ⟨.inr ⟨rfl, ?_⟩, rfl⟩
        simp only [withExecution] at hbelow ⊢
        omega
    have ih := ih hr hstepped.1
    refine ⟨ih.1, ?_⟩
    rw [ih.2, hstepped.2, List.length_cons]
    omega

def spawnsOf (o : Outside) (graph : AgentGraph) : Nat → List String → Nat
  | _, [] => 0
  | c, nodeId :: nodeIds =>
    match graph.getNode nodeId with
    | none => spawnsOf o graph c nodeIds
    | some _ => (if o.fault c = none then 1 else 0) + spawnsOf o graph (c + 1) nodeIds

theorem Scheduled.length_agents
    (h : Scheduled o graph parentAgentId parentSessionId strict c nodeIds run agents c' r)
    (hr : r = .ok run')
    : agents.length = spawnsOf o graph c nodeIds := by
  induction h with
  | done c run => rfl
  | unknown hnode _ ih => simp only [spawnsOf, hnode, ih hr]
  | raised | skipRefused | startRefused => cases hr
  | skipped hnode hfault hstrict hrecord hrest ih => simp [spawnsOf, hnode, hfault, ih hr]
  | started hnode hfault hrecord hrest ih =>
    simp only [spawnsOf, hnode, hfault, List.length_cons, ih hr, if_true]
    omega

structure Sound (run : GraphRun) : Prop where
  noPending : ∀ nodeId ne, run.getNodeExecution nodeId = some ne → ne.status ≠ .pending
  settled : run.isTerminal → ∀ nodeId ne, run.getNodeExecution nodeId = some ne → ne.status ≠ .running
  live : ¬ run.isTerminal → run.status = .running ∧ run.totalSteps < run.maxTotalSteps

theorem Sound.of_agrees {stored : GraphRun} (h : Agrees run stored) (hsound : Sound run)
    : Sound stored where
  noPending nodeId ne hget := by
    rw [h.executions] at hget
    apply hsound.noPending nodeId ne hget
  settled hover nodeId ne hget := by
    unfold GraphRun.isTerminal at hover
    rw [h.status] at hover
    rw [h.executions] at hget
    apply hsound.settled hover nodeId ne hget
  live hlive := by
    unfold GraphRun.isTerminal at hlive
    rw [h.status] at hlive ⊢
    rw [h.totalSteps, h.maxTotalSteps]
    apply hsound.live hlive

theorem mem_runningNodeIds {nodeId : String}
    : nodeId ∈ run.runningNodeIds
        ↔
      ∃ ne, run.getNodeExecution nodeId = some ne ∧ ne.status = .running := by
  unfold GraphRun.runningNodeIds GraphRun.getNodeExecution
  simp only [List.mem_map, List.mem_filter, decide_eq_true_eq, Dict.get_eq_some, Prod.exists,
    exists_and_right, exists_eq_right]

theorem Sound.of_commits {saved : Option GraphRun}
    (h : Commits o graph parentAgentId parentSessionId strict c nodeIds run agents saved r)
    (hsaved : saved = some run')
    (hpending : ∀ nodeId ne, run.getNodeExecution nodeId = some ne → ne.status ≠ .pending)
    (hlive : run.status = .running ∧ run.totalSteps < run.maxTotalSteps)
    (hlimit : run.totalSteps + spawnsOf o graph c nodeIds ≠ run.maxTotalSteps)
    : Sound run' := by
  rcases h.extends hsaved with ⟨hextends, _, c', hscheduled⟩
  have hwithin := hscheduled.withinLimit rfl (.inl hlive)
  have hrunning : run'.status = .running ∧ run'.totalSteps < run'.maxTotalSteps := by
    cases hwithin.1 with
    | inl hrunning => exact hrunning
    | inr hfailed =>
      have htotal := hwithin.2
      have hagents := hscheduled.length_agents rfl
      have hmax := hextends.maxTotalSteps
      omega
  constructor
  . intro nodeId ne hget
    cases hextends.new nodeId ne hget with
    | inl hold => apply hpending nodeId ne hold
    | inr hnew =>
      intro heq
      simp [heq] at hnew
  . intro hover
    simp [GraphRun.isTerminal, GraphRunStatus.isTerminal, hrunning.1] at hover
  . intro _
    exact hrunning

theorem Sound.of_set {nodeId : String} {ne : NodeExecution} (h : Sound run)
    (hne : ne.status.isTerminal) (hothers : ∀ other ∈ run.runningNodeIds, other = nodeId)
    (hset : run'.nodeExecutions = run.nodeExecutions.set nodeId ne) (hover : run'.isTerminal)
    : Sound run' := by
  have hget (nodeId' : String) (ne' : NodeExecution)
      (hget : run'.getNodeExecution nodeId' = some ne')
      : ne'.status ≠ .pending ∧ ne'.status ≠ .running := by
    unfold GraphRun.getNodeExecution at hget
    rw [hset, Dict.get_set] at hget
    split at hget
    . cases hget
      constructor <;> intro heq <;> simp [heq, NodeExecutionStatus.isTerminal] at hne
    . next hother =>
      refine ⟨h.noPending nodeId' ne' hget, ?_⟩
      intro heq
      apply hother
      apply hothers
      rw [mem_runningNodeIds]
      exact ⟨ne', hget, heq⟩
  constructor
  . intro nodeId' ne' hget'
    exact (hget nodeId' ne' hget').1
  . intro _ nodeId' ne' hget'
    exact (hget nodeId' ne' hget').2
  . intro hlive
    exact absurd hover hlive

theorem Sound.markCancelled (h : ¬ run.isTerminal) : Sound run.markCancelled := by
  have hrun : run.markCancelled = { run with
      status := .cancelled
      currentNodeIds := []
      nodeExecutions := run.nodeExecutions.mapValues NodeExecution.markCancelled
    } := if_neg h
  have hget (nodeId : String) (ne : NodeExecution)
      (hget : run.markCancelled.getNodeExecution nodeId = some ne)
      : ne.status.isTerminal := by
    unfold GraphRun.getNodeExecution at hget
    rw [hrun, Dict.get_mapValues, Option.map_eq_some_iff] at hget
    rcases hget with ⟨ne', _, rfl⟩
    unfold NodeExecution.markCancelled
    split
    . next hterminal => exact hterminal
    . rfl
  constructor
  . intro nodeId ne hne heq
    simpa [heq, NodeExecutionStatus.isTerminal] using hget nodeId ne hne
  . intro _ nodeId ne hne heq
    simpa [heq, NodeExecutionStatus.isTerminal] using hget nodeId ne hne
  . intro hlive
    rw [hrun] at hlive
    simp [GraphRun.isTerminal, GraphRunStatus.isTerminal] at hlive

def EndsSettled (o : Outside) (w : World) : Call → Prop
  | .startRun args =>
    ∀ graph, w.Startable o args graph →
      spawnsOf o graph (w.clock + 2)
        (getNextNodeIds graph (newRun graph args (o.runId (w.clock + 1)))) ≠ graph.maxTotalSteps
  | .onNodeCompleted graphId runId nodeId output _ =>
    ∀ graph run run', w.Loaded o graphId runId graph run →
      recordCompleted run nodeId output = .ok run' →
      if shouldCompleteRun graph run' then
        ∀ other ∈ run.runningNodeIds, other = nodeId
      else
        run.totalSteps + spawnsOf o graph (w.clock + 2) (getNextNodeIds graph run')
          ≠
        run.maxTotalSteps
  | .onNodeFailed graphId runId nodeId errorMessage =>
    ∀ graph run run', w.Loaded o graphId runId graph run →
      recordFailed graph run nodeId errorMessage = .ok run' → ∀ other ∈ run.runningNodeIds, other = nodeId
  | .cancelRun _ _ => True
  | .handoffNode graphId runId _ toNodeId _ _ =>
    ∀ graph run, w.Loaded o graphId runId graph run →
      run.totalSteps + spawnsOf o graph (w.clock + 2) [toNodeId] ≠ run.maxTotalSteps

theorem World.Outcome.sound {w : World} {call : Call} (hinv : StoredInv o Sound w)
    (hcall : EndsSettled o w call) (h : World.Outcome o w call agents (some run') r)
    : Sound run' := by
  generalize hsaved : some run' = saved at h
  cases h with
  | refused | finished => cases hsaved
  | @started args graph _ _ _ hstartable hcommits =>
    apply Sound.of_commits hcommits hsaved.symm
    . simp [GraphRun.getNodeExecution, startingRun, newRun]
    . exact ⟨rfl, graph.maxTotalSteps_pos⟩
    . simpa [startingRun, newRun] using hcall graph hstartable
  | completed hloaded hover hrecord hcomplete hstatus =>
    cases hsaved
    have hothers := hcall _ _ _ hloaded hrecord
    rw [if_pos hcomplete] at hothers
    rw [recordCompleted_eq_ok] at hrecord
    rcases hrecord with ⟨ne, _, _, rfl⟩
    apply (hinv.holds _ _ hloaded.findRun).of_set _ hothers rfl rfl
    rfl
  | @advanced _ _ nodeId _ _ _ run _ _ _ _ hloaded hover hrecord hcomplete hcommits =>
    have hlimit := hcall _ _ _ hloaded hrecord
    rw [if_neg hcomplete] at hlimit
    rw [recordCompleted_eq_ok] at hrecord
    rcases hrecord with ⟨ne, _, _, rfl⟩
    have hsound := hinv.holds _ _ hloaded.findRun
    apply Sound.of_commits hcommits hsaved.symm _ (hsound.live hover) hlimit
    intro nodeId' ne' hget
    unfold GraphRun.getNodeExecution at hget
    rw [Dict.get_set] at hget
    split at hget
    . cases hget
      simp
    . apply hsound.noPending nodeId' ne' hget
  | nodeFailed hloaded hover hrecord =>
    cases hsaved
    have hothers := hcall _ _ _ hloaded hrecord
    rw [recordFailed_eq_ok] at hrecord
    rcases hrecord with ⟨ne, _, _, _, rfl⟩
    apply (hinv.holds _ _ hloaded.findRun).of_set _ hothers rfl rfl
    rfl
  | cancelled hrun hover =>
    cases hsaved
    apply Sound.markCancelled hover
  | handedOff hloaded hover hpattern hcommits =>
    have hsound := hinv.holds _ _ hloaded.findRun
    apply Sound.of_commits hcommits hsaved.symm hsound.noPending (hsound.live hover)
    apply hcall _ _ hloaded

def AllSettled (w : World) : Prop :=
  ∀ id run, w.runs.get id = some run → run.isTerminal →
    ∀ nodeId ne, run.getNodeExecution nodeId = some ne →
      ne.status ≠ .pending ∧ ne.status ≠ .running

theorem terminal_runs_settled (o : Outside) (graphs : List AgentGraph) (calls : List Call)
    (hcalls : ∀ e ∈ transcript (World.step o) (World.start graphs) calls,
      EndsSettled o e.before e.request)
    : AtEach (fun _ e => AllSettled e.after)
        (transcript (World.step o) (World.start graphs) calls) := by
  have hstep (past : List (Entry World Call (Option (Except String Reply)))) (w : World)
      (call : Call) (hinv : StoredInv o Sound w) (hcall : EndsSettled o w call)
      : AllSettled (w.step o call).1 ∧ StoredInv o Sound (w.step o call).1 := by
    have hafter : StoredInv o Sound (w.step o call).1 := by
      apply hinv.step (fun _ _ => Sound.of_agrees)
      intro agents run' r hout
      apply hout.sound hinv hcall
    refine ⟨?_, hafter⟩
    intro id run hrun hover nodeId ne hne
    have hsound := hafter.holds id run hrun
    exact ⟨hsound.noPending nodeId ne hne, hsound.settled hover nodeId ne hne⟩
  exact atEach_transcript (C := EndsSettled o) (I := fun _ w => StoredInv o Sound w)
    (P := fun _ e => AllSettled e.after) hstep (StoredInv.start Sound graphs) calls hcalls

def calm : Outside where
  fault _ := none
  session _ := "session"
  runId n := String.ofList (List.replicate n 'r')
  runId_injective := by
    intro m n h
    have := congrArg String.length h
    simpa using this

def entryA : AgentNode :=
  { nodeId := "a", agentDefinitionId := "reader", label := "A", isEntry := true }

def entryB : AgentNode :=
  { nodeId := "b", agentDefinitionId := "reader", label := "B", isEntry := true }

def review (pattern : GraphPattern) (nodes : List AgentNode) (edges : List AgentEdge) : AgentGraph where
  id := "review"
  tenantId := "tenant"
  projectId := "project"
  name := "Review"
  pattern := pattern
  nodes := nodes
  edges := edges

def twoEntries : AgentGraph :=
  review .fanOut [{ entryA with isTerminal := true }, { entryB with isTerminal := true }] []

def reviewArgs : StartArgs :=
  { graphId := "review", conversationId := "chat", tenantId := "tenant", projectId := "project" }

theorem terminal_runs_settled_review
    : AtEach (fun _ e => AllSettled e.after)
        (transcript (World.step calm) (World.start [twoEntries]) [
          .startRun reviewArgs, .cancelRun "r" "stop"]) := by
  apply terminal_runs_settled
  intro e he
  simp only [transcript, List.mem_cons, List.not_mem_nil, or_false] at he
  rcases he with rfl | rfl
  . intro graph hgraph
    have hgraph : some twoEntries = some graph := hgraph.findGraph
    cases hgraph
    decide
  . trivial

theorem failed_run_leaves_running_node
    : ¬ AtEach (fun _ e => AllSettled e.after)
        (transcript (World.step calm) (World.start [twoEntries]) [
          .startRun reviewArgs, .onNodeFailed "review" "r" "a" "boom"]) := by
  intro h
  have hlast := h.get (n := 1) rfl
  have hrun : ∃ run ne, (World.step calm (World.step calm (World.start [twoEntries])
      (.startRun reviewArgs)).1 (.onNodeFailed "review" "r" "a" "boom")).1.runs.get "r" = some run ∧
      run.isTerminal ∧ run.getNodeExecution "b" = some ne ∧ ne.status = .running :=
    ⟨_, _, rfl, rfl, rfl, rfl⟩
  rcases hrun with ⟨run, ne, hrun, hover, hne, hstatus⟩
  exact (hlast "r" run hrun hover "b" ne hne).2 hstatus

end Graph
end MemStack
