import MemStack.Graph.Valid
import MemStack.Graph.Settled

/-!
This module contains the progress of runs: a run that is not over has a node that can still report.
-/

namespace MemStack
namespace Graph

open History Machine GraphOrchestrator

inductive Needed (graph : AgentGraph) : String → Prop where
  | terminal {node : AgentNode} (hnode : node ∈ graph.terminalNodes) : Needed graph node.nodeId
  | edge {e : AgentEdge} (he : e ∈ graph.edges) (htarget : Needed graph e.targetNodeId)
      : Needed graph e.sourceNodeId

def IsEntryId (graph : AgentGraph) (nodeId : String) : Prop :=
  nodeId ∈ graph.entryNodes.map (·.nodeId)

inductive Blocked (graph : AgentGraph) : String → Prop where
  | source {nodeId : String} (hpredecessors : graph.getPredecessors nodeId = [])
      (hentry : ¬ IsEntryId graph nodeId)
      : Blocked graph nodeId
  | edge {e : AgentEdge} (he : e ∈ graph.edges) (hsource : Blocked graph e.sourceNodeId)
      (hentry : ¬ IsEntryId graph e.targetNodeId)
      : Blocked graph e.targetNodeId

def MayBeSkipped (graph : AgentGraph) (nodeId : String) : Prop :=
  graph.pattern = .fanOut ∧ ¬ Needed graph nodeId

def Covered (pattern : GraphPattern) : Prop :=
  pattern = .supervisor ∨ pattern = .pipeline ∨ pattern = .fanOut

def HasRunning (run : GraphRun) : Prop :=
  ∃ nodeId ne, run.getNodeExecution nodeId = some ne ∧ ne.status = .running

variable {graph : AgentGraph} {run : GraphRun}

theorem mem_getPredecessors {nodeId : String} {e : AgentEdge}
    : e ∈ graph.getPredecessors nodeId ↔ e ∈ graph.edges ∧ e.targetNodeId = nodeId := by
  simp [AgentGraph.getPredecessors]

theorem isCompleted_iff {nodeId : String}
    : run.isCompleted nodeId
        ↔
      ∃ ne, run.getNodeExecution nodeId = some ne ∧ ne.status = .completed := by
  unfold GraphRun.isCompleted
  cases run.getNodeExecution nodeId <;> simp

theorem getNode_eq_some {nodeId : String} (h : nodeId ∈ graph.nodes.map (·.nodeId))
    : ∃ node, graph.getNode nodeId = some node := by
  unfold AgentGraph.getNode
  cases hfind : graph.nodes.find? (·.nodeId = nodeId) with
  | some node => exact ⟨node, rfl⟩
  | none =>
    rw [List.find?_eq_none] at hfind
    rw [List.mem_map] at h
    rcases h with ⟨node, hnode, hid⟩
    simpa [hid] using hfind node hnode

theorem nodeId_of_getNode {nodeId : String} {node : AgentNode}
    (h : graph.getNode nodeId = some node)
    : node.nodeId = nodeId := by
  simpa using List.find?_some h

structure Moving (graph : AgentGraph) (run : GraphRun) : Prop where
  entries : graph.pattern ≠ .pipeline → ∀ nodeId, IsEntryId graph nodeId →
    ∃ ne, run.getNodeExecution nodeId = some ne
  statuses : ∀ nodeId ne, run.getNodeExecution nodeId = some ne →
    ne.status = .running ∨ ne.status = .completed ∨
      ne.status = .skipped ∧ MayBeSkipped graph nodeId

section Stalled

variable (hvalid : Valid graph) (hmoving : Moving graph run) (hstalled : ¬ HasRunning run)

include hmoving hstalled

theorem completed_of_needed {nodeId : String} {ne : NodeExecution}
    (hneeded : Needed graph nodeId) (hne : run.getNodeExecution nodeId = some ne)
    : run.isCompleted nodeId := by
  rw [isCompleted_iff]
  refine ⟨ne, hne, ?_⟩
  rcases hmoving.statuses nodeId ne hne with hrunning | hcompleted | ⟨_, _, hnot⟩
  . exact absurd ⟨nodeId, ne, hne, hrunning⟩ hstalled
  . exact hcompleted
  . exact absurd hneeded hnot

include hvalid

theorem exists_ready {nodeId : String} (hnode : nodeId ∈ graph.nodes.map (·.nodeId))
    (hnone : run.getNodeExecution nodeId = none) (hneeded : Needed graph nodeId)
    (hblocked : graph.pattern = .supervisor → ¬ Blocked graph nodeId)
    : ∃ ready ∈ graph.nodes.map (·.nodeId), run.getNodeExecution ready = none ∧
        Needed graph ready ∧ (graph.pattern = .supervisor → ¬ Blocked graph ready) ∧
        allPredecessorsDone graph run ready := by
  rcases hvalid.exists_rank with ⟨rank, hrank⟩
  induction hn : rank nodeId using Nat.strong_induction_on generalizing nodeId with
  | _ n ih =>
    by_cases hdone : allPredecessorsDone graph run nodeId
    . exact ⟨nodeId, hnode, hnone, hneeded, hblocked, hdone⟩
    . unfold allPredecessorsDone at hdone
      simp only [List.all_eq_true, not_forall] at hdone
      rcases hdone with ⟨e, he, hnot⟩
      rw [mem_getPredecessors] at he
      rcases he with ⟨he, rfl⟩
      have hsource : Needed graph e.sourceNodeId := .edge he hneeded
      have hsourceNone : run.getNodeExecution e.sourceNodeId = none := by
        cases hget : run.getNodeExecution e.sourceNodeId with
        | none => rfl
        | some ne => exact absurd (completed_of_needed hmoving hstalled hsource hget) hnot
      apply ih (rank e.sourceNodeId) _ (hvalid.source e he) hsourceNone hsource _ rfl
      . have := hrank e he
        omega
      . intro hpattern hsourceBlocked
        apply hblocked hpattern
        apply Blocked.edge he hsourceBlocked
        intro hentry
        rcases hmoving.entries (by simp [hpattern]) _ hentry with ⟨ne, hne⟩
        rw [hne] at hnone
        cases hnone

theorem exists_ready_of_incomplete
    (hblocked : graph.pattern = .supervisor → ∀ t ∈ graph.terminalNodes, ¬ Blocked graph t.nodeId)
    (hterminals : ¬ terminalsCompleted graph run)
    : ∃ ready ∈ graph.nodes.map (·.nodeId), run.getNodeExecution ready = none ∧
        Needed graph ready ∧ (graph.pattern = .supervisor → ¬ Blocked graph ready) ∧
        allPredecessorsDone graph run ready := by
  unfold terminalsCompleted at hterminals
  simp only [List.all_eq_true, not_forall] at hterminals
  rcases hterminals with ⟨t, ht, hnot⟩
  have hneeded : Needed graph t.nodeId := .terminal ht
  have hnone : run.getNodeExecution t.nodeId = none := by
    cases hget : run.getNodeExecution t.nodeId with
    | none => rfl
    | some ne => exact absurd (completed_of_needed hmoving hstalled hneeded hget) hnot
  have hnode : t.nodeId ∈ graph.nodes.map (·.nodeId) := by
    apply List.mem_map_of_mem
    exact List.mem_of_mem_filter ht
  apply exists_ready hvalid hmoving hstalled hnode hnone hneeded
  intro hpattern
  apply hblocked hpattern t ht

end Stalled

theorem exists_mem_find? {α : Type} {l : List α} {p : α → Bool} {a : α} (ha : a ∈ l) (hp : p a)
    : ∃ b ∈ (l.find? p).toList, b ∈ l ∧ p b := by
  cases hfind : l.find? p with
  | none =>
    rw [List.find?_eq_none] at hfind
    exact absurd hp (hfind a ha)
  | some b =>
    refine ⟨b, by simp, ?_, ?_⟩
    . exact List.mem_of_find?_eq_some hfind
    . exact List.find?_some hfind

section Next

variable {ready : String} (hover : ¬ run.isTerminal) (hsome : run.nodeExecutions.entries ≠ [])
  (hready : ready ∈ graph.nodes.map (·.nodeId)) (hnone : run.getNodeExecution ready = none)
  (hdone : allPredecessorsDone graph run ready)

include hover hsome hready hnone hdone

theorem exists_next_supervisor (hidle : run.runningNodeIds = [])
    (hpredecessors : graph.getPredecessors ready ≠ [])
    : ∃ nodeId ∈ SupervisorCoordinator.getNextNodeIds graph run,
        run.getNodeExecution nodeId = none ∧ nodeId ∈ graph.nodes.map (·.nodeId) := by
  unfold SupervisorCoordinator.getNextNodeIds
  rw [if_neg hover, if_neg (by simp [hidle]), if_neg hsome]
  rcases exists_mem_find? (p := fun nodeId => run.getNodeExecution nodeId = none ∧
      graph.getPredecessors nodeId ≠ [] ∧ allPredecessorsDone graph run nodeId) hready
      (by simp [hnone, hpredecessors, hdone]) with
    ⟨nodeId, hnext, hnode, hp⟩
  simp only [decide_eq_true_eq] at hp
  exact ⟨nodeId, hnext, hp.1, hnode⟩

theorem exists_next_pipeline (hvalid : Valid graph) (hidle : run.runningNodeIds = [])
    : ∃ nodeId ∈ PipelineCoordinator.getNextNodeIds graph run,
        run.getNodeExecution nodeId = none ∧ nodeId ∈ graph.nodes.map (·.nodeId) := by
  unfold PipelineCoordinator.getNextNodeIds
  rw [if_neg hover, if_neg (by simp [hidle]), if_neg hsome]
  rcases exists_mem_find? (p := fun nodeId => run.getNodeExecution nodeId = none ∧
      allPredecessorsDone graph run nodeId) (hvalid.mem_topologicalOrder.mpr hready)
      (by simp [hnone, hdone]) with
    ⟨nodeId, hnext, hnode, hp⟩
  simp only [decide_eq_true_eq] at hp
  exact ⟨nodeId, hnext, hp.1, hvalid.mem_topologicalOrder.mp hnode⟩

theorem mem_next_fanOut : ready ∈ FanOutCoordinator.getNextNodeIds graph run := by
  unfold FanOutCoordinator.getNextNodeIds
  rw [if_neg hover, if_neg hsome, List.mem_filter]
  exact ⟨hready, by simp [hnone, hdone]⟩

end Next

theorem exists_next (hvalid : Valid graph) (hmoving : Moving graph run) (hstalled : ¬ HasRunning run)
    (hcovered : Covered graph.pattern) (hover : ¬ run.isTerminal)
    (hblocked : graph.pattern = .supervisor → ∀ t ∈ graph.terminalNodes, ¬ Blocked graph t.nodeId)
    (hsome : run.nodeExecutions.entries ≠ []) (hincomplete : ¬ shouldCompleteRun graph run)
    : ∃ nodeId ∈ getNextNodeIds graph run, run.getNodeExecution nodeId = none ∧
        nodeId ∈ graph.nodes.map (·.nodeId) ∧ ¬ MayBeSkipped graph nodeId := by
  have hterminals : ¬ terminalsCompleted graph run := by
    unfold shouldCompleteRun at hincomplete
    rcases hcovered with h | h | h <;> rw [h] at hincomplete <;> exact hincomplete
  have hidle : run.runningNodeIds = [] := by
    rw [List.eq_nil_iff_forall_not_mem]
    intro nodeId hmem
    rw [mem_runningNodeIds] at hmem
    exact hstalled ⟨nodeId, hmem⟩
  rcases exists_ready_of_incomplete hvalid hmoving hstalled hblocked hterminals with
    ⟨ready, hready, hnone, hneeded, hunblocked, hdone⟩
  unfold getNextNodeIds
  rcases hcovered with hpattern | hpattern | hpattern
  . have hpredecessors : graph.getPredecessors ready ≠ [] := by
      intro hnil
      apply hunblocked hpattern
      apply Blocked.source hnil
      intro hentry
      rcases hmoving.entries (by simp [hpattern]) _ hentry with ⟨ne, hne⟩
      rw [hne] at hnone
      cases hnone
    rcases exists_next_supervisor hover hsome hready hnone hdone hidle hpredecessors with
      ⟨nodeId, hnext, hnone, hnode⟩
    rw [hpattern]
    exact ⟨nodeId, hnext, hnone, hnode, by simp [MayBeSkipped, hpattern]⟩
  . rcases exists_next_pipeline hover hsome hready hnone hdone hvalid hidle with
      ⟨nodeId, hnext, hnone, hnode⟩
    rw [hpattern]
    exact ⟨nodeId, hnext, hnone, hnode, by simp [MayBeSkipped, hpattern]⟩
  . have hnext := mem_next_fanOut hover hsome hready hnone hdone
    rw [hpattern]
    exact ⟨ready, hnext, hnone, hready, by simp [MayBeSkipped, hneeded]⟩

section Schedule

variable {o : Outside} {parentAgentId parentSessionId : String} {strict : Prop}
  {c c' : Nat} {nodeIds : List String} {run' : GraphRun} {agents : List Agent}
  {r : Except String GraphRun}

-- The spawns that fail are all for nodes that meet `P`.
def FaultsOnlyFor (o : Outside) (graph : AgentGraph) (P : String → Prop) : Nat → List String → Prop
  | _, [] => True
  | c, nodeId :: nodeIds =>
    match graph.getNode nodeId with
    | none => FaultsOnlyFor o graph P c nodeIds
    | some _ => (o.fault c ≠ none → P nodeId) ∧ FaultsOnlyFor o graph P (c + 1) nodeIds

theorem getNodeExecution_withExecution (run : GraphRun) (ne : NodeExecution) (nodeId : String)
    : (withExecution run ne).getNodeExecution nodeId
        =
      if nodeId = ne.nodeId then some ne else run.getNodeExecution nodeId := by
  apply Dict.get_set

theorem getNodeExecution_stepped (run : GraphRun) (nodeId : String)
    : (stepped run).getNodeExecution nodeId = run.getNodeExecution nodeId := by
  unfold stepped
  split <;> rfl

theorem Scheduled.statuses {P : String → Prop}
    (h : Scheduled o graph parentAgentId parentSessionId strict c nodeIds run agents c' r)
    (hr : r = .ok run') (hfaults : ¬ strict → FaultsOnlyFor o graph P c nodeIds)
    : ∀ nodeId ne, run'.getNodeExecution nodeId = some ne →
        run.getNodeExecution nodeId = some ne ∨ ne.status = .running ∨
          ne.status = .skipped ∧ P nodeId := by
  induction h with
  | done c run =>
    cases hr
    intro nodeId ne hne
    exact .inl hne
  | unknown hnode hrest ih =>
    apply ih hr
    simpa [FaultsOnlyFor, hnode] using hfaults
  | raised | skipRefused | startRefused => cases hr
  | @skipped c c' nodeId nodeIds run run₁ node e agents r hnode hfault hstrict hrecord hrest ih =>
    rw [recordSkipped_eq_ok] at hrecord
    have hfaults := hfaults hstrict
    simp only [FaultsOnlyFor, hnode, hfault] at hfaults
    intro nodeId' ne hne
    rcases ih hr (fun _ => hfaults.2) nodeId' ne hne with hold | hnew
    . rw [hrecord.2, getNodeExecution_withExecution] at hold
      split at hold
      . next heq =>
        cases hold
        right
        right
        refine ⟨rfl, ?_⟩
        rw [heq]
        have hid : (skippedExecution run node).nodeId = nodeId := nodeId_of_getNode hnode
        rw [hid]
        apply hfaults.1
        simp
      . exact .inl hold
    . exact .inr hnew
  | @started c c' nodeId nodeIds run run₁ node agents r hnode hfault hrecord hrest ih =>
    rw [recordStarted_eq_ok] at hrecord
    have hrest : ¬ strict → FaultsOnlyFor o graph P (c + 1) nodeIds := by
      intro hstrict
      have hfaults := hfaults hstrict
      simp only [FaultsOnlyFor, hnode] at hfaults
      exact hfaults.2
    intro nodeId' ne hne
    rcases ih hr hrest nodeId' ne hne with hold | hnew
    . rw [hrecord.2.2, getNodeExecution_stepped, getNodeExecution_withExecution] at hold
      split at hold
      . cases hold
        exact .inr (.inl rfl)
      . exact .inl hold
    . exact .inr hnew

theorem Scheduled.executed
    (h : Scheduled o graph parentAgentId parentSessionId strict c nodeIds run agents c' r)
    (hr : r = .ok run') {nodeId : String} (hmem : nodeId ∈ nodeIds)
    (hnode : nodeId ∈ graph.nodes.map (·.nodeId))
    : ∃ ne, run'.getNodeExecution nodeId = some ne := by
  induction h with
  | done c run => cases hmem
  | unknown hnone hrest ih =>
    rcases List.mem_cons.mp hmem with rfl | hmem
    . rcases getNode_eq_some hnode with ⟨node, hsome⟩
      rw [hsome] at hnone
      cases hnone
    . apply ih hr hmem
  | raised | skipRefused | startRefused => cases hr
  | @skipped _ _ _ _ run run₁ node _ _ _ hsome hfault hstrict hrecord hrest ih =>
    rcases List.mem_cons.mp hmem with rfl | hmem
    . rw [recordSkipped_eq_ok] at hrecord
      have hadded : run₁.getNodeExecution nodeId = some (skippedExecution run node) := by
        rw [hrecord.2, getNodeExecution_withExecution]
        exact if_pos (nodeId_of_getNode hsome).symm
      exact ⟨_, (hrest.extends hr).kept _ _ hadded⟩
    . apply ih hr hmem
  | @started c _ _ _ run run₁ node _ _ hsome hfault hrecord hrest ih =>
    rcases List.mem_cons.mp hmem with rfl | hmem
    . rw [recordStarted_eq_ok] at hrecord
      have hadded : run₁.getNodeExecution nodeId
          =
          some (startedExecution run node (o.session c)) := by
        rw [hrecord.2.2, getNodeExecution_stepped, getNodeExecution_withExecution]
        exact if_pos (nodeId_of_getNode hsome).symm
      exact ⟨_, (hrest.extends hr).kept _ _ hadded⟩
    . apply ih hr hmem

end Schedule

structure InProgress (graph : AgentGraph) (run : GraphRun) : Prop where
  valid : Valid graph
  unblocked : graph.pattern = .supervisor → ∀ t ∈ graph.terminalNodes, ¬ Blocked graph t.nodeId
  moving : ¬ run.isTerminal → Moving graph run
  running : run.isTerminal ∨ HasRunning run

def InProgressOf (graphs : List AgentGraph) (run : GraphRun) : Prop :=
  ∀ graph, graphs.find? (·.id = run.graphId) = some graph → Covered graph.pattern →
    InProgress graph run

theorem InProgressOf.of_agrees {graphs : List AgentGraph} (run stored : GraphRun)
    (h : Agrees run stored) (hrun : InProgressOf graphs run)
    : InProgressOf graphs stored := by
  intro graph hgraph hcovered
  rw [h.graphId] at hgraph
  have hprogress := hrun graph hgraph hcovered
  have hover : stored.isTerminal = run.isTerminal := by
    unfold GraphRun.isTerminal
    rw [h.status]
  refine { valid := hprogress.valid, unblocked := hprogress.unblocked, moving := ?_, running := ?_ }
  . intro hlive
    rw [hover] at hlive
    have hmoving := hprogress.moving hlive
    constructor
    . intro hpattern nodeId hentry
      rw [h.executions]
      apply hmoving.entries hpattern nodeId hentry
    . intro nodeId ne hne
      rw [h.executions] at hne
      apply hmoving.statuses nodeId ne hne
  . rw [hover]
    unfold HasRunning
    simp only [h.executions]
    exact hprogress.running

theorem Moving.recordCompleted {run' : GraphRun} {nodeId : String} {output : Option Context}
    (h : Moving graph run) (hrecord : recordCompleted run nodeId output = .ok run')
    : Moving graph run' := by
  rw [recordCompleted_eq_ok] at hrecord
  rcases hrecord with ⟨ne, hne, _, rfl⟩
  constructor
  . intro hpattern entry hentry
    rcases h.entries hpattern entry hentry with ⟨ne', hne'⟩
    unfold GraphRun.getNodeExecution at *
    rw [Dict.get_set]
    split
    . exact ⟨_, rfl⟩
    . exact ⟨ne', hne'⟩
  . intro nodeId' ne' hne'
    unfold GraphRun.getNodeExecution at hne'
    rw [Dict.get_set] at hne'
    split at hne'
    . cases hne'
      exact .inr (.inl rfl)
    . apply h.statuses nodeId' ne' hne'

theorem HasRunning.extends {run' : GraphRun} (h : HasRunning run) (hextends : Extends run run')
    : HasRunning run' := by
  rcases h with ⟨nodeId, ne, hne, hrunning⟩
  exact ⟨nodeId, ne, hextends.kept nodeId ne hne, hrunning⟩

section Saved

variable {o : Outside} {parentAgentId parentSessionId : String} {c c' : Nat} {run' : GraphRun}
  {agents : List Agent} {args : StartArgs} {id : String}

theorem getNextNodeIds_newRun (hcovered : Covered graph.pattern)
    : getNextNodeIds graph (newRun graph args id)
        =
      if graph.pattern = .pipeline then
        (graph.entryNodes.map (·.nodeId)).take 1
      else
        graph.entryNodes.map (·.nodeId) := by
  have hover : (newRun graph args id).isTerminal = false := rfl
  have hidle : (newRun graph args id).runningNodeIds = [] := rfl
  have hnone : (newRun graph args id).nodeExecutions.entries = [] := rfl
  unfold getNextNodeIds
  rcases hcovered with hpattern | hpattern | hpattern
  . simp [hpattern, SupervisorCoordinator.getNextNodeIds, hover, hidle, hnone]
  . simp [hpattern, PipelineCoordinator.getNextNodeIds, hover, hidle, hnone]
  . simp [hpattern, FanOutCoordinator.getNextNodeIds, hover, hnone]

theorem entry_mem_nodes {nodeId : String} (h : IsEntryId graph nodeId)
    : nodeId ∈ graph.nodes.map (·.nodeId) := by
  unfold IsEntryId at h
  rw [List.mem_map] at h
  rcases h with ⟨node, hnode, rfl⟩
  apply List.mem_map_of_mem
  exact List.mem_of_mem_filter hnode

theorem InProgress.of_started (hvalid : Valid graph) (hcovered : Covered graph.pattern)
    (hblocked : graph.pattern = .supervisor → ∀ t ∈ graph.terminalNodes, ¬ Blocked graph t.nodeId)
    (hrun : run.nodeExecutions = .empty)
    (hnext : getNextNodeIds graph (newRun graph args id) ≠ [])
    (h : Scheduled o graph parentAgentId parentSessionId True c
      (getNextNodeIds graph (newRun graph args id)) run agents c' (.ok run'))
    : InProgress graph run' := by
  have hentryIds : ∀ nodeId ∈ getNextNodeIds graph (newRun graph args id), IsEntryId graph nodeId := by
    intro nodeId hmem
    rw [getNextNodeIds_newRun hcovered] at hmem
    split at hmem
    . exact List.mem_of_mem_take hmem
    . exact hmem
  have hstatus : ∀ nodeId ne, run'.getNodeExecution nodeId = some ne → ne.status = .running := by
    intro nodeId ne hne
    rcases h.statuses (P := fun _ => False) rfl (by simp) nodeId ne hne with hold | hrunning | hskipped
    . simp [GraphRun.getNodeExecution, hrun] at hold
    . exact hrunning
    . exact hskipped.2.elim
  have hexecuted : ∀ nodeId ∈ getNextNodeIds graph (newRun graph args id),
      ∃ ne, run'.getNodeExecution nodeId = some ne := by
    intro nodeId hmem
    apply h.executed rfl hmem
    apply entry_mem_nodes
    apply hentryIds nodeId hmem
  refine { valid := hvalid, unblocked := hblocked, moving := ?_, running := ?_ }
  . intro _
    constructor
    . intro hpattern nodeId hentry
      apply hexecuted
      rw [getNextNodeIds_newRun hcovered, if_neg hpattern]
      exact hentry
    . intro nodeId ne hne
      exact .inl (hstatus nodeId ne hne)
  . right
    rcases List.exists_mem_of_ne_nil _ hnext with ⟨nodeId, hmem⟩
    rcases hexecuted nodeId hmem with ⟨ne, hne⟩
    exact ⟨nodeId, ne, hne, hstatus nodeId ne hne⟩

theorem InProgress.of_advanced {nodeId : String} {output : Option Context} {run₁ : GraphRun}
    (hprogress : InProgress graph run) (hcovered : Covered graph.pattern) (hover : ¬ run.isTerminal)
    (hrecord : recordCompleted run nodeId output = .ok run₁)
    (hincomplete : ¬ shouldCompleteRun graph run₁)
    (hfaults : FaultsOnlyFor o graph (MayBeSkipped graph) c (getNextNodeIds graph run₁))
    (h : Scheduled o graph parentAgentId parentSessionId False c (getNextNodeIds graph run₁) run₁
      agents c' (.ok run'))
    : InProgress graph run' := by
  have hmoving := (hprogress.moving hover).recordCompleted hrecord
  have hextends := h.extends rfl
  have hstatuses := h.statuses rfl (fun _ => hfaults)
  have hrunning : HasRunning run' := by
    by_cases hstalled : HasRunning run₁
    . apply hstalled.extends hextends
    . have hlive : ¬ run₁.isTerminal ∧ run₁.nodeExecutions.entries ≠ [] := by
        rw [recordCompleted_eq_ok] at hrecord
        rcases hrecord with ⟨ne, hne, _, rfl⟩
        refine ⟨hover, ?_⟩
        intro hnil
        have hget : (run.nodeExecutions.set nodeId { ne with
            status := .completed, outputContext := output.getD ne.outputContext }).get nodeId
              =
            none := by
          unfold Dict.get
          rw [hnil]
          rfl
        simp at hget
      rcases exists_next hprogress.valid hmoving hstalled hcovered hlive.1 hprogress.unblocked hlive.2
          hincomplete with
        ⟨next, hnext, hnone, hnode, hskip⟩
      rcases h.executed rfl hnext hnode with ⟨ne, hne⟩
      rcases hstatuses next ne hne with hold | hrunning | hskipped
      . rw [hnone] at hold
        cases hold
      . exact ⟨next, ne, hne, hrunning⟩
      . exact absurd hskipped.2 hskip
  refine {
    valid := hprogress.valid
    unblocked := hprogress.unblocked
    moving := ?_
    running := .inr hrunning
  }
  intro _
  constructor
  . intro hpattern entry hentry
    rcases hmoving.entries hpattern entry hentry with ⟨ne, hne⟩
    exact ⟨ne, hextends.kept entry ne hne⟩
  . intro nodeId' ne hne
    rcases hstatuses nodeId' ne hne with hold | hrunning | hskipped
    . apply hmoving.statuses nodeId' ne hold
    . exact .inl hrunning
    . exact .inr (.inr hskipped)

end Saved

def StartOrCompleted : Call → Prop
  | .startRun _ | .onNodeCompleted .. => True
  | .onNodeFailed .. | .cancelRun .. | .handoffNode .. => False

def KeepsMoving (o : Outside) (w : World) : Call → Prop
  | .startRun args =>
    ∀ graph, w.Startable o args graph → graph.pattern = .supervisor →
      ∀ t ∈ graph.terminalNodes, ¬ Blocked graph t.nodeId
  | .onNodeCompleted graphId runId nodeId output _ =>
    ∀ graph run run', w.Loaded o graphId runId graph run → Covered graph.pattern →
      recordCompleted run nodeId output = .ok run' → ¬ shouldCompleteRun graph run' →
      FaultsOnlyFor o graph (MayBeSkipped graph) (w.clock + 2) (getNextNodeIds graph run')
  | .onNodeFailed .. | .cancelRun .. | .handoffNode .. => True

def NeverStuck (w : World) : Prop :=
  ∀ id run graph, w.runs.get id = some run → w.findGraph run.graphId = some graph →
    Covered graph.pattern → run.isTerminal ∨ HasRunning run

theorem World.Outcome.inProgress {o : Outside} {w : World} {call : Call} {agents : List Agent}
    {run' : GraphRun} {r : Except String GraphRun} (hinv : StoredInv o (InProgressOf w.graphs) w)
    (hkind : StartOrCompleted call) (hcall : KeepsMoving o w call)
    (h : World.Outcome o w call agents (some run') r)
    : InProgressOf w.graphs run' := by
  generalize hsaved : some run' = saved at h
  intro graph hgraph hcovered
  cases h with
  | refused | finished => cases hsaved
  | nodeFailed | cancelled | handedOff => cases hkind
  | @started args graph' _ _ _ hstartable hcommits =>
    rcases hcommits.extends hsaved.symm with ⟨hextends, _, c', hscheduled⟩
    have hsame : graph' = graph := by
      have hid : run'.graphId = args.graphId :=
        hextends.graphId.trans (id_of_findGraph hstartable.findGraph)
      rw [hid] at hgraph
      exact Option.some.inj (hstartable.findGraph.symm.trans hgraph)
    rw [hsame] at hscheduled hstartable
    apply InProgress.of_started (valid_of_validateGraph hstartable.valid) hcovered
      (hcall graph hstartable) rfl hstartable.next hscheduled
  | @completed _ _ _ _ _ graph' run₀ run₁ hloaded hover hrecord hcomplete hstatus =>
    cases hsaved
    have hsame : graph' = graph := by
      rw [recordCompleted_eq_ok] at hrecord
      rcases hrecord with ⟨ne, _, _, rfl⟩
      exact Option.some.inj (hloaded.findGraph_run.symm.trans hgraph)
    rw [hsame] at hloaded
    have hprogress := hinv.holds _ _ hloaded.findRun graph hloaded.findGraph_run hcovered
    exact {
      valid := hprogress.valid
      unblocked := hprogress.unblocked
      moving := by simp [GraphRun.isTerminal, GraphRunStatus.isTerminal]
      running := .inl rfl
    }
  | @advanced _ _ _ _ _ graph' run₀ run₁ _ _ _ hloaded hover hrecord hcomplete hcommits =>
    rcases hcommits.extends hsaved.symm with ⟨hextends, _, c', hscheduled⟩
    have hsame : graph' = graph := by
      have hid : run'.graphId = run₀.graphId := by
        rw [hextends.graphId]
        rw [recordCompleted_eq_ok] at hrecord
        rcases hrecord with ⟨ne, _, _, rfl⟩
        rfl
      rw [hid] at hgraph
      exact Option.some.inj (hloaded.findGraph_run.symm.trans hgraph)
    rw [hsame] at hloaded hcomplete hscheduled
    have hprogress := hinv.holds _ _ hloaded.findRun graph hloaded.findGraph_run hcovered
    apply hprogress.of_advanced hcovered hover hrecord hcomplete _ hscheduled
    apply hcall graph _ _ hloaded hcovered hrecord hcomplete

theorem run_never_stuck (o : Outside) (graphs : List AgentGraph) (calls : List Call)
    (hkind : ∀ call ∈ calls, StartOrCompleted call)
    (hcalls : ∀ e ∈ transcript (World.step o) (World.start graphs) calls,
      KeepsMoving o e.before e.request)
    : AtEach (fun _ e => NeverStuck e.after)
        (transcript (World.step o) (World.start graphs) calls) := by
  have hstep (past : List (Entry World Call (Option (Except String Reply)))) (w : World)
      (call : Call) (hinv : w.graphs = graphs ∧ StoredInv o (InProgressOf graphs) w)
      (hcall : StartOrCompleted call ∧ KeepsMoving o w call)
      : NeverStuck (w.step o call).1 ∧
        (w.step o call).1.graphs = graphs ∧ StoredInv o (InProgressOf graphs) (w.step o call).1 := by
    rcases hinv with ⟨rfl, hinv⟩
    have hafter : StoredInv o (InProgressOf w.graphs) (w.step o call).1 := by
      apply hinv.step InProgressOf.of_agrees
      intro agents run' r hout
      apply hout.inProgress hinv hcall.1 hcall.2
    refine ⟨?_, step_graphs o w call, hafter⟩
    intro id run graph hrun hgraph hcovered
    unfold World.findGraph at hgraph
    rw [step_graphs] at hgraph
    exact (hafter.holds id run hrun graph hgraph hcovered).running
  apply atEach_transcript (C := fun w call => StartOrCompleted call ∧ KeepsMoving o w call)
    (I := fun _ w => w.graphs = graphs ∧ StoredInv o (InProgressOf graphs) w)
    (P := fun _ e => NeverStuck e.after) hstep ⟨rfl, StoredInv.start _ graphs⟩ calls
  intro e he
  refine ⟨?_, hcalls e he⟩
  apply hkind
  apply request_mem_of_mem he

theorem faultsOnlyFor_of_none {o : Outside} (h : ∀ n, o.fault n = none) (P : String → Prop) (c : Nat)
    (nodeIds : List String)
    : FaultsOnlyFor o graph P c nodeIds := by
  induction nodeIds generalizing c with
  | nil => trivial
  | cons nodeId nodeIds ih =>
    unfold FaultsOnlyFor
    split
    . apply ih
    . exact ⟨by simp [h], ih (c + 1)⟩

def terminalB : AgentNode :=
  { entryB with agentDefinitionId := "writer", isEntry := false, isTerminal := true, agentDefinitionId_ne := by decide }

def twoSteps (pattern : GraphPattern) (edges : List AgentEdge) : AgentGraph :=
  review pattern [entryA, terminalB] edges

theorem run_never_stuck_review
    : AtEach (fun _ e => NeverStuck e.after)
        (transcript (World.step calm)
          (World.start [twoSteps .pipeline [{ sourceNodeId := "a", targetNodeId := "b" }]]) [
          .startRun reviewArgs, .onNodeCompleted "review" "r" "a" none {}]) := by
  apply run_never_stuck
  . simp [StartOrCompleted]
  . intro e he
    simp only [transcript, List.mem_cons, List.not_mem_nil, or_false] at he
    rcases he with rfl | rfl
    . intro graph hstartable hpattern
      cases hstartable.findGraph
      cases hpattern
    . intro graph run run' _ _ _ _
      apply faultsOnlyFor_of_none
      intro n
      rfl

def secondSpawnFails : Outside :=
  { calm with fault := fun n => if n = 6 then some "no agent" else none }

theorem stuck_of_no_running {w : World}
    (h : ∃ run graph, w.runs.get "r" = some run ∧ w.findGraph run.graphId = some graph ∧
      Covered graph.pattern ∧ run.isTerminal = false ∧ run.runningNodeIds = [])
    : ¬ NeverStuck w := by
  rcases h with ⟨run, graph, hrun, hgraph, hcovered, hover, hidle⟩
  intro h
  rcases h "r" run graph hrun hgraph hcovered with hterminal | ⟨nodeId, ne, hne, hrunning⟩
  . rw [hover] at hterminal
    cases hterminal
  . have hmem : nodeId ∈ run.runningNodeIds := mem_runningNodeIds.mpr ⟨ne, hne, hrunning⟩
    rw [hidle] at hmem
    cases hmem

/--
In the first run the second node is skipped, in the second one the supervisor never comes to it.
-/
theorem skipped_or_blocked_run_stuck
    : (¬ AtEach (fun _ e => NeverStuck e.after)
        (transcript (World.step secondSpawnFails)
          (World.start [twoSteps .pipeline [{ sourceNodeId := "a", targetNodeId := "b" }]]) [
          .startRun reviewArgs, .onNodeCompleted "review" "r" "a" none {}])) ∧
      ¬ AtEach (fun _ e => NeverStuck e.after)
        (transcript (World.step calm) (World.start [twoSteps .supervisor []]) [
          .startRun reviewArgs, .onNodeCompleted "review" "r" "a" none {}]) := by
  constructor
  . intro h
    refine stuck_of_no_running ?_ (h.get (n := 1) rfl)
    exact ⟨_, twoSteps .pipeline [{ sourceNodeId := "a", targetNodeId := "b" }], rfl, rfl,
      .inr (.inl rfl), rfl, rfl⟩
  . intro h
    refine stuck_of_no_running ?_ (h.get (n := 1) rfl)
    exact ⟨_, twoSteps .supervisor [], rfl, rfl, .inl rfl, rfl, rfl⟩

end Graph
end MemStack
