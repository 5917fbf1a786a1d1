import MemStack.Port.Prog
import MemStack.Graph.Spawns

/-!
This module contains completions of the nodes of one run that are reported at the same time. Each call
works on a copy of the run and saves the whole copy at its end, so a call must not load the run while
another one has a copy that is not saved yet. Saving is one port call here, though the repository
first selects what it overwrites.
-/

namespace MemStack
namespace Graph

open Port Checked Machine History GraphOrchestrator

abbrev Pool := Port.Pool ports String Reply World

def Pool.step (o : Outside) : Pool → Nat → Pool × Unit :=
  Port.Pool.step World.next (World.answer o)

structure Completion where
  nodeId : String
  output : Option Context := none
  parent : Parent := {}
  deriving DecidableEq

variable (graphId runId : String)

def Completion.program (c : Completion) : Program Reply :=
  onNodeCompleted graphId runId c.nodeId c.output c.parent

def Pool.start (w : World) (calls : List Completion) : Pool :=
  { world := w, threads := calls.map (·.program graphId runId) }

def Holding : Program Reply → Prop
  | .call (.spawnAgent _) _ => True
  | .call (.saveRun _) _ => True
  | _ => False

def Exclusive (o : Outside) (pool : Pool) (i : Nat) : Prop :=
  match pool.threads[i]? with
  | some (.call (.findRun runId) _) =>
    (∀ p ∈ pool.threads, ¬ Holding p) ∧
    ∀ run, pool.world.runs.get runId = some run → ¬ run.isTerminal
  | some (.call (.spawnAgent _) _) => o.fault pool.world.clock = none
  | _ => True

theorem Exclusive.load {o : Outside} {pool : Pool} {i : Nat} {runId : String}
    {k : Except String (Option GraphRun) → Program Reply} (h : Exclusive o pool i)
    (hthread : pool.threads[i]? = some (.call (.findRun runId) k))
    : (∀ p ∈ pool.threads, ¬ Holding p) ∧
      ∀ run, pool.world.runs.get runId = some run → ¬ run.isTerminal := by
  unfold Exclusive at h
  rw [hthread] at h
  exact h

theorem Exclusive.spawn {o : Outside} {pool : Pool} {i : Nat} {request : SpawnRequest}
    {k : Except String String → Program Reply} (h : Exclusive o pool i)
    (hthread : pool.threads[i]? = some (.call (.spawnAgent request) k))
    : o.fault pool.world.clock = none := by
  unfold Exclusive at h
  rw [hthread] at h
  exact h

-- The agents that were spawned since the world was `w`.
def World.spawnedSince (w w' : World) : List Agent :=
  w'.agents.drop w.agents.length

def nodeIdsOf (agents : List Agent) : List String :=
  agents.map (·.request.nodeId)

-- What is to hold in the world `w'` once all calls have returned.
structure Consistent (graph : AgentGraph) (w : World) (calls : List Completion) (run run' : GraphRun)
    (w' : World) : Prop where
  completed : ∀ c ∈ calls, run'.isCompleted c.nodeId
  totalSteps : run'.totalSteps = run.totalSteps + (w.spawnedSince w').length
  atMostOnce : ∀ nodeId, (nodeIdsOf (w.spawnedSince w')).count nodeId ≤ 1
  joined : run'.status ≠ .completed → ∀ node ∈ graph.nodes, allPredecessorsDone graph run' node.nodeId →
    run.getNodeExecution node.nodeId = none →
    (nodeIdsOf (w.spawnedSince w')).count node.nodeId = 1

section Programs

variable {graphId runId} {o : Outside} {graph : AgentGraph} {c : Completion} {run run' : GraphRun}

def scheduling (graph : AgentGraph) (c : Completion) (conversationId : String) (nodeIds : List String)
    (run : GraphRun) (events : List GraphEvent) : Program Reply :=
  (forNodes (scheduleNode graph c.parent.agentId (orElse c.parent.sessionId conversationId))
    nodeIds run events).bind save

inductive AfterLoad (graph : AgentGraph) (c : Completion) (run : GraphRun) : Program Reply → Prop where
  | failed (e : String) : AfterLoad graph c run (.fail e)
  | finished (h : run.isTerminal) (reply : Reply) : AfterLoad graph c run (.ret reply)
  | completed {run' : GraphRun} (hover : ¬ run.isTerminal)
      (hrecord : recordCompleted run c.nodeId c.output = .ok run') (events : List GraphEvent)
      : AfterLoad graph c run
          (scheduling graph c run'.conversationId []
            { run' with status := .completed, currentNodeIds := [] } events)
  | advanced {run' : GraphRun} (hover : ¬ run.isTerminal)
      (hrecord : recordCompleted run c.nodeId c.output = .ok run') (events : List GraphEvent)
      : AfterLoad graph c run
          (scheduling graph c run'.conversationId (getNextNodeIds graph run') run' events)

structure Waiting (graph : AgentGraph) (c : Completion) (runId : String)
    (k : Except String (Option GraphRun) → Program Reply) : Prop where
  error : ∀ e, ∃ e', k (.error e) = .fail e'
  none : ∃ e', k (.ok none) = .fail e'
  some : ∀ run, AfterLoad graph c run (k (.ok (some run)))

theorem ofExcept_bind {α β : Type} (x : Except String α) (f : α → Program β)
    : (Prog.ofExcept x : Program α).bind f
        =
      match x with
      | .ok a => f a
      | .error e => .fail e := by
  cases x <;> rfl

theorem program_eq (graphId runId : String) (c : Completion)
    : ∃ k, c.program graphId runId = .call (.findGraph graphId) k ∧
      (∀ e, ∃ e', k (.error e) = .fail e') ∧ (∃ e', k (.ok none) = .fail e') ∧
      ∀ graph, ∃ k', k (.ok (some graph)) = .call (.findRun runId) k' ∧ Waiting graph c runId k' := by
  refine ⟨_, rfl, fun e => ⟨e, rfl⟩, ⟨_, rfl⟩, ?_⟩
  intro graph
  refine ⟨_, rfl, fun e => ⟨e, rfl⟩, ⟨_, rfl⟩, ?_⟩
  intro run
  simp only [Prog.bind_eq, Prog.bind, ofExcept_bind]
  cases ensureGraphMatchesRun graph run with
  | error e => exact .failed e
  | ok u =>
    simp only [Prog.pure_eq, Prog.bind]
    split
    . next hover => exact .finished hover _
    . next hover =>
      cases hrecord : recordCompleted run c.nodeId c.output with
      | error e => exact .failed e
      | ok run' =>
        dsimp only
        split
        . cases hmark : run'.markCompleted with
          | error e => exact .failed e
          | ok run'' =>
            rw [GraphRun.markCompleted_eq_ok] at hmark
            rw [hmark.2]
            exact .completed hover hrecord _
        . exact .advanced hover hrecord _

inductive NextCall (graph : AgentGraph) (c : Completion) (conversationId : String)
    (nodeIds : List String) (run : GraphRun) : Program Reply → Prop where
  | save {k : Except String Unit → Program Reply} (hnone : ∀ nodeId ∈ nodeIds, graph.getNode nodeId = none)
      (hok : ∃ reply, k (.ok ()) = .ret reply) (herror : ∀ e, ∃ e', k (.error e) = .fail e')
      : NextCall graph c conversationId nodeIds run (.call (.saveRun run) k)
  | spawn (node : AgentNode) (nodeIds' : List String) {request : SpawnRequest}
      {k : Except String String → Program Reply} (hrequest : request.nodeId = node.nodeId)
      (hrest : ∀ nodeId ∈ nodeIds, graph.getNode nodeId = none ∨ nodeId = node.nodeId ∨ nodeId ∈ nodeIds')
      (herror : ∀ session e, recordStarted run (newExecution run node) session = .error e →
        ∃ e', k (.ok session) = .fail e')
      (hok : ∀ session run', recordStarted run (newExecution run node) session = .ok run' →
        ∃ events, k (.ok session) = scheduling graph c conversationId nodeIds' run' events)
      : NextCall graph c conversationId nodeIds run (.call (.spawnAgent request) k)

theorem NextCall.unknown {conversationId nodeId : String} {nodeIds : List String} {p : Program Reply}
    (hnode : graph.getNode nodeId = none) (h : NextCall graph c conversationId nodeIds run p)
    : NextCall graph c conversationId (nodeId :: nodeIds) run p := by
  cases h with
  | save hnone hok herror =>
    refine .save ?_ hok herror
    intro nodeId' hmem
    cases List.mem_cons.mp hmem with
    | inl heq => rw [heq, hnode]
    | inr hmem => apply hnone nodeId' hmem
  | spawn node nodeIds' hrequest hrest herror hok =>
    refine .spawn node nodeIds' hrequest ?_ herror hok
    intro nodeId' hmem
    cases List.mem_cons.mp hmem with
    | inl heq =>
      left
      rw [heq, hnode]
    | inr hmem => apply hrest nodeId' hmem

theorem scheduling_cons (conversationId nodeId : String) (nodeIds : List String) (run : GraphRun)
    (events : List GraphEvent)
    : scheduling graph c conversationId (nodeId :: nodeIds) run events
        =
      (scheduleNode graph c.parent.agentId (orElse c.parent.sessionId conversationId) run
        nodeId).bind fun reply =>
        scheduling graph c conversationId nodeIds reply.1 (events ++ reply.2) := by
  unfold scheduling
  rw [forNodes, Prog.bind_assoc]

theorem nextCall_scheduling (conversationId : String) (nodeIds : List String) (run : GraphRun)
    (events : List GraphEvent)
    : NextCall graph c conversationId nodeIds run
        (scheduling graph c conversationId nodeIds run events) := by
  induction nodeIds generalizing run events with
  | nil => exact .save (by simp) ⟨_, rfl⟩ (fun e => ⟨e, rfl⟩)
  | cons nodeId nodeIds ih =>
    rw [scheduling_cons]
    unfold scheduleNode
    cases hnode : graph.getNode nodeId with
    | none => apply NextCall.unknown hnode (ih run (events ++ []))
    | some node =>
      refine .spawn node nodeIds rfl ?_ ?_ ?_
      . intro nodeId' hmem
        rw [nodeId_of_getNode hnode]
        right
        exact List.mem_cons.mp hmem
      . intro session e hrecord
        refine ⟨e, ?_⟩
        simp only [Prog.bind_eq, Prog.bind, ofExcept_bind, hrecord]
      . intro session run' hrecord
        refine ⟨events ++ [startedEvent run' node session], ?_⟩
        simp only [Prog.bind_eq, Prog.bind, ofExcept_bind, hrecord]
        rfl

end Programs

section Accounting

variable {graph : AgentGraph} {run₀ run run' stored : GraphRun} {agents : List Agent}
  {c : Completion} {nodeIds : List String}

structure Accounted (run₀ run : GraphRun) (agents : List Agent) : Prop where
  totalSteps : run.totalSteps = run₀.totalSteps + agents.length
  nodup : (nodeIdsOf agents).Nodup
  executed : ∀ nodeId, nodeId ∈ run.nodeExecutions.keys
      ↔
    nodeId ∈ run₀.nodeExecutions.keys ∨ nodeId ∈ nodeIdsOf agents

def Pending (graph : AgentGraph) (run : GraphRun) (nodeIds : List String) : Prop :=
  run.status ≠ .completed → ∀ node ∈ graph.nodes, allPredecessorsDone graph run node.nodeId →
    run.getNodeExecution node.nodeId = none → node.nodeId ∈ nodeIds

structure Held (graph : AgentGraph) (run₀ stored : GraphRun) (c : Completion) (agents : List Agent)
    (nodeIds : List String) (run : GraphRun) : Prop where
  accounted : Accounted run₀ run agents
  follows : Follows stored run
  completed : run.isCompleted c.nodeId
  kept : ∀ nodeId, stored.isCompleted nodeId → run.isCompleted nodeId
  pending : Pending graph run nodeIds

theorem accounted_refl (run : GraphRun) : Accounted run run [] where
  totalSteps := rfl
  nodup := List.nodup_nil
  executed nodeId := by simp [nodeIdsOf]

theorem mem_keys_iff_of_get {d d' : Dict String NodeExecution}
    (h : ∀ nodeId, d'.get nodeId = d.get nodeId) (nodeId : String)
    : nodeId ∈ d'.keys ↔ nodeId ∈ d.keys := by
  rw [Dict.mem_keys, Dict.mem_keys, h]

theorem Accounted.of_agrees (h : Accounted run₀ run agents) (hagrees : Agrees run stored)
    : Accounted run₀ stored agents where
  totalSteps := by rw [hagrees.totalSteps, h.totalSteps]
  nodup := h.nodup
  executed nodeId := by
    rw [← h.executed]
    apply mem_keys_iff_of_get hagrees.executions

theorem isCompleted_set {d : Dict String NodeExecution} {ne : NodeExecution} {nodeId : String}
    (hrun : run.nodeExecutions = d.set nodeId ne) (nodeId' : String)
    : run.isCompleted nodeId'
        ↔
      if nodeId' = nodeId then ne.status = .completed
      else ((d.get nodeId').any (·.status = .completed)) = true := by
  unfold GraphRun.isCompleted GraphRun.getNodeExecution
  rw [hrun, Dict.get_set]
  split <;> simp

theorem Accounted.recordCompleted {nodeId : String} {output : Option Context}
    (h : Accounted run₀ run agents)
    (hrecord : GraphOrchestrator.recordCompleted run nodeId output = .ok run')
    : Accounted run₀ run' agents := by
  rw [recordCompleted_eq_ok] at hrecord
  rcases hrecord with ⟨ne, hne, _, rfl⟩
  refine ⟨h.totalSteps, h.nodup, ?_⟩
  intro nodeId'
  have hkey : nodeId ∈ run.nodeExecutions.keys := Dict.mem_keys.mpr ⟨ne, hne⟩
  rw [← h.executed, Dict.mem_keys_set]
  constructor
  . intro hmem
    cases hmem with
    | inl heq => rw [heq]; exact hkey
    | inr hmem => exact hmem
  . exact .inr

theorem isCompleted_recordCompleted {nodeId : String} {output : Option Context}
    (hrecord : recordCompleted run nodeId output = .ok run') (nodeId' : String)
    : run'.isCompleted nodeId' ↔ nodeId' = nodeId ∨ run.isCompleted nodeId' := by
  rw [recordCompleted_eq_ok] at hrecord
  rcases hrecord with ⟨ne, hne, _, rfl⟩
  rw [isCompleted_set rfl]
  split
  . next heq => simp [heq]
  . next hne => simp [hne, GraphRun.isCompleted, GraphRun.getNodeExecution]

theorem getNextNodeIds_pending (hpattern : graph.pattern = .fanOut) (hover : ¬ run.isTerminal)
    (hsome : run.nodeExecutions.keys ≠ [])
    : Pending graph run (getNextNodeIds graph run) := by
  intro _ node hnode hpreds hnone
  unfold getNextNodeIds
  simp only [hpattern, FanOutCoordinator.getNextNodeIds]
  rw [if_neg hover, if_neg]
  . simp only [List.mem_filter, List.mem_map, decide_eq_true_eq]
    exact ⟨⟨node, hnode, rfl⟩, hnone, .inr hpreds⟩
  . intro hempty
    apply hsome
    unfold Dict.keys
    rw [hempty]
    rfl

theorem follows_recordCompleted {nodeId : String} {output : Option Context}
    (hrecord : recordCompleted run nodeId output = .ok run')
    : Follows run run' ∧ run'.status = run.status ∧ run'.nodeExecutions.keys ≠ [] := by
  rw [recordCompleted_eq_ok] at hrecord
  rcases hrecord with ⟨ne, hne, _, rfl⟩
  refine ⟨follows_set rfl rfl rfl, rfl, ?_⟩
  apply List.ne_nil_of_mem
  rw [Dict.mem_keys_set]
  exact .inl rfl

theorem held_advanced (hpattern : graph.pattern = .fanOut) (h : Accounted run₀ stored agents)
    (hover : ¬ stored.isTerminal) (hrecord : recordCompleted stored c.nodeId c.output = .ok run')
    : Held graph run₀ stored c agents (getNextNodeIds graph run') run' where
  accounted := h.recordCompleted hrecord
  follows := (follows_recordCompleted hrecord).1
  completed := (isCompleted_recordCompleted hrecord c.nodeId).mpr (.inl rfl)
  kept nodeId hdone := (isCompleted_recordCompleted hrecord nodeId).mpr (.inr hdone)
  pending := by
    rcases follows_recordCompleted hrecord with ⟨_, hstatus, hsome⟩
    apply getNextNodeIds_pending hpattern _ hsome
    unfold GraphRun.isTerminal
    rw [hstatus]
    exact hover

theorem held_completed (h : Accounted run₀ stored agents)
    (hrecord : recordCompleted stored c.nodeId c.output = .ok run')
    : Held graph run₀ stored c agents [] { run' with status := .completed, currentNodeIds := [] } where
  accounted := by
    have haccounted := h.recordCompleted hrecord
    exact ⟨haccounted.totalSteps, haccounted.nodup, haccounted.executed⟩
  follows := by
    have hfollows := (follows_recordCompleted hrecord).1
    exact ⟨hfollows.id, hfollows.graphId, hfollows.kept⟩
  completed := (isCompleted_recordCompleted hrecord c.nodeId).mpr (.inl rfl)
  kept nodeId hdone := (isCompleted_recordCompleted hrecord nodeId).mpr (.inr hdone)
  pending hstatus := absurd rfl hstatus

theorem isCompleted_stepped (run : GraphRun) (nodeId : String)
    : (stepped run).isCompleted nodeId = run.isCompleted nodeId := by
  unfold stepped
  split <;> rfl

theorem nodeExecutions_stepped (run : GraphRun)
    : (stepped run).nodeExecutions = run.nodeExecutions := by
  unfold stepped
  split <;> rfl

theorem totalSteps_stepped (run : GraphRun) : (stepped run).totalSteps = run.totalSteps + 1 := by
  unfold stepped
  split <;> rfl

theorem getNode_ne_none {node : AgentNode} (h : node ∈ graph.nodes)
    : graph.getNode node.nodeId ≠ none := by
  intro hnone
  rw [AgentGraph.getNode, List.find?_eq_none] at hnone
  have := hnone node h
  simp at this

theorem Held.recordStarted {node : AgentNode} {agent : Agent} {nodeIds' : List String}
    (h : Held graph run₀ stored c agents nodeIds run) (hagent : agent.request.nodeId = node.nodeId)
    (hrest : ∀ nodeId ∈ nodeIds,
      graph.getNode nodeId = none ∨ nodeId = node.nodeId ∨ nodeId ∈ nodeIds')
    (hrecord : GraphOrchestrator.recordStarted run (newExecution run node) agent.session = .ok run')
    : Held graph run₀ stored c (agents ++ [agent]) nodeIds' run' := by
  rw [recordStarted_eq_ok] at hrecord
  rcases hrecord with ⟨hkey, hlimit, rfl⟩
  have hcompleted : ∀ nodeId, (stepped (withExecution run
      (startedExecution run node agent.session))).isCompleted nodeId = run.isCompleted nodeId := by
    intro nodeId
    rw [isCompleted_stepped, Bool.eq_iff_iff, isCompleted_set (d := run.nodeExecutions) rfl]
    split
    . next heq =>
      have hnone : run.nodeExecutions.get nodeId = none := by
        rw [Dict.get_eq_none, heq]
        exact hkey
      simp [startedExecution, GraphRun.isCompleted, GraphRun.getNodeExecution, hnone]
    . rfl
  refine ⟨⟨?_, ?_, ?_⟩, ?_, ?_, ?_, ?_⟩
  . rw [totalSteps_stepped, List.length_append]
    have := h.accounted.totalSteps
    simp only [withExecution, List.length_singleton]
    omega
  . unfold nodeIdsOf
    rw [List.map_append, List.nodup_append]
    refine ⟨h.accounted.nodup, by simp, ?_⟩
    intro nodeId hmem nodeId' hmem' heq
    simp only [List.map_cons, List.map_nil, List.mem_singleton] at hmem'
    apply hkey
    rw [h.accounted.executed]
    right
    rw [← hagent, ← hmem', ← heq]
    exact hmem
  . intro nodeId
    rw [nodeExecutions_stepped]
    unfold withExecution nodeIdsOf
    rw [Dict.mem_keys_set, h.accounted.executed]
    simp only [List.map_append, List.mem_append, List.map_cons, List.map_nil, List.mem_singleton,
      hagent, nodeIdsOf]
    have hid : (startedExecution run node agent.session).nodeId = node.nodeId := rfl
    rw [hid]
    tauto
  . apply h.follows.trans
    apply Extends.follows
    apply Extends.trans _ (extends_stepped _)
    apply extends_withExecution hkey
    exact .inl rfl
  . rw [hcompleted]
    exact h.completed
  . intro nodeId hdone
    rw [hcompleted]
    apply h.kept nodeId hdone
  . intro hstatus node' hnode' hpreds hnone
    have hstatus' : run.status ≠ .completed := by
      intro heq
      unfold stepped withExecution at hstatus
      dsimp only at hstatus
      split at hstatus
      . exact hstatus heq
      . next hbelow =>
        cases hlimit with
        | inl hlimit => exact hbelow hlimit
        | inr hrunning =>
          rw [hrunning] at heq
          cases heq
    have hpreds' : allPredecessorsDone graph run node'.nodeId := by
      unfold allPredecessorsDone at hpreds ⊢
      simp only [hcompleted] at hpreds
      exact hpreds
    unfold GraphRun.getNodeExecution at hnone
    rw [nodeExecutions_stepped] at hnone
    unfold withExecution at hnone
    rw [Dict.get_set] at hnone
    split at hnone
    . cases hnone
    . next hne =>
      rcases hrest _ (h.pending hstatus' node' hnode' hpreds' hnone) with hunknown | heq | hmem
      . exact absurd hunknown (getNode_ne_none hnode')
      . exact absurd heq hne
      . exact hmem

end Accounting

section Threads

variable {o : Outside} {graphId runId} {graph : AgentGraph} {calls : List Completion} {w : World}
  {run₀ stored stored' : GraphRun} {pool : Pool} {J J' : Nat → Prop} {i : Nat}

inductive Idle (graphId runId : String) (graph : AgentGraph) (stored : GraphRun) (c : Completion)
    : Program Reply → Prop where
  | fresh : Idle graphId runId graph stored c (c.program graphId runId)
  | waiting {k : Except String (Option GraphRun) → Program Reply} (h : Waiting graph c runId k)
      : Idle graphId runId graph stored c (.call (.findRun runId) k)
  | returned (reply : Reply) (h : stored.isCompleted c.nodeId)
      : Idle graphId runId graph stored c (.ret reply)

-- The threads that `J` selects are idle.
structure Good (graphId runId : String) (graph : AgentGraph) (calls : List Completion) (w : World)
    (pool : Pool) (stored : GraphRun) (J : Nat → Prop) : Prop where
  graphs : pool.world.graphs = w.graphs
  runs : pool.world.runs.get runId = some stored
  id : stored.id = runId
  length : pool.threads.length = calls.length
  closed : (∃ reply, .ret reply ∈ pool.threads) → Pending graph stored []
  idle : ∀ j c p, J j → calls[j]? = some c → pool.threads[j]? = some p →
    Idle graphId runId graph stored c p

inductive Situation (graphId runId : String) (graph : AgentGraph) (calls : List Completion) (w : World)
    (run₀ : GraphRun) (pool : Pool) : Prop where
  | failed (h : pool.SomeFailed) : Situation graphId runId graph calls w run₀ pool
  | free (stored : GraphRun) (agents : List Agent)
      (hgood : Good graphId runId graph calls w pool stored fun _ => True)
      (hagents : pool.world.agents = w.agents ++ agents) (haccounted : Accounted run₀ stored agents)
      : Situation graphId runId graph calls w run₀ pool
  | held (stored : GraphRun) (agents : List Agent) (i : Nat) (c : Completion) (conversationId : String)
      (nodeIds : List String) (run : GraphRun) (events : List GraphEvent)
      (hgood : Good graphId runId graph calls w pool stored (· ≠ i))
      (hagents : pool.world.agents = w.agents ++ agents) (hcall : calls[i]? = some c)
      (hthread : pool.threads[i]? = some (scheduling graph c conversationId nodeIds run events))
      (hheld : Held graph run₀ stored c agents nodeIds run)
      : Situation graphId runId graph calls w run₀ pool

theorem Idle.mono {c : Completion} {p : Program Reply}
    (hkept : ∀ nodeId, stored.isCompleted nodeId → stored'.isCompleted nodeId)
    (h : Idle graphId runId graph stored c p)
    : Idle graphId runId graph stored' c p := by
  cases h with
  | fresh => exact .fresh
  | waiting h => exact .waiting h
  | returned reply h => exact .returned reply (hkept _ h)

theorem Good.move (h : Good graphId runId graph calls w pool stored J) {w' : World}
    {p : Program Reply} (hJ : ∀ j, j ≠ i → J' j → J j) (hgraphs : w'.graphs = pool.world.graphs)
    (hruns : w'.runs.get runId = some stored') (hid : stored'.id = runId)
    (hkept : ∀ nodeId, stored.isCompleted nodeId → stored'.isCompleted nodeId)
    (hclosed : (∃ reply, .ret reply ∈ pool.threads.set i p) → Pending graph stored' [])
    (hidle : J' i → ∀ c, calls[i]? = some c → Idle graphId runId graph stored' c p)
    : Good graphId runId graph calls w { world := w', threads := pool.threads.set i p } stored' J' where
  graphs := by rw [← h.graphs]; exact hgraphs
  runs := hruns
  id := hid
  length := by rw [List.length_set, h.length]
  closed := hclosed
  idle j c p' hj hcall hthread := by
    dsimp only at hthread
    rw [List.getElem?_set] at hthread
    split at hthread
    . next heq =>
      rw [← heq] at hj hcall
      split at hthread
      . cases hthread
        apply hidle hj c hcall
      . cases hthread
    . next hne =>
      apply Idle.mono hkept
      apply h.idle j c p' (hJ j (Ne.symm hne) hj) hcall hthread

theorem ret_mem_set {p : Program Reply} {reply : Reply} (hp : ∀ reply, p ≠ .ret reply)
    (h : .ret reply ∈ pool.threads.set i p)
    : .ret reply ∈ pool.threads := by
  cases List.mem_or_eq_of_mem_set h with
  | inl hmem => exact hmem
  | inr heq => exact absurd heq.symm (hp reply)

theorem failed_of_set {w' : World} {p : Program Reply} {e : String} {p' : Program Reply}
    (hthread : pool.threads[i]? = some p') (hp : p = .fail e)
    : Port.Pool.SomeFailed (P := ports) { world := w', threads := pool.threads.set i p } := by
  refine ⟨e, ?_⟩
  rw [hp]
  exact List.mem_set (List.getElem?_eq_some_iff.mp hthread).1 _

theorem scheduling_holding (graph : AgentGraph) (c : Completion) (conversationId : String)
    (nodeIds : List String) (run : GraphRun) (events : List GraphEvent)
    : Holding (scheduling graph c conversationId nodeIds run events) := by
  have hnext : NextCall graph c conversationId nodeIds run
      (scheduling graph c conversationId nodeIds run events) :=
    nextCall_scheduling conversationId nodeIds run events
  generalize scheduling graph c conversationId nodeIds run events = p at hnext
  cases hnext with
  | save | spawn => trivial

theorem Good.step_fresh (hgraph : w.findGraph graphId = some graph)
    (h : Good graphId runId graph calls w pool stored J) {c : Completion}
    (hcall : calls[i]? = some c) (hthread : pool.threads[i]? = some (c.program graphId runId))
    : (Pool.step o pool i).1.SomeFailed ∨
      Good graphId runId graph calls w (Pool.step o pool i).1 stored J ∧
      (Pool.step o pool i).1.world.agents = pool.world.agents ∧
      ∀ j, j ≠ i → (Pool.step o pool i).1.threads[j]? = pool.threads[j]? := by
  rcases program_eq graphId runId c with ⟨k, heq, herror, _, hsome⟩
  have hthread' := hthread
  rw [heq] at hthread'
  have hstep : (Pool.step o pool i).1 = _ := Port.Pool.step_call hthread'
  rw [hstep]
  have hfind : pool.world.findGraph graphId = some graph := by
    unfold World.findGraph at hgraph ⊢
    rw [h.graphs, hgraph]
  simp only [World.answer]
  cases o.fault pool.world.clock with
  | some e =>
    left
    rcases herror e with ⟨e', he'⟩
    apply failed_of_set hthread he'
  | none =>
    right
    rcases hsome graph with ⟨k', hk', hwaiting⟩
    simp only [hfind, World.next]
    refine ⟨?_, trivial, ?_⟩
    . refine h.move (fun _ _ hj => hj) rfl h.runs h.id (fun _ hdone => hdone) ?_ ?_
      . intro hret
        rcases hret with ⟨reply, hret⟩
        apply h.closed
        refine ⟨reply, ret_mem_set ?_ hret⟩
        intro reply heq
        rw [hk'] at heq
        cases heq
      . intro _ c' hcall'
        rw [hcall] at hcall'
        cases hcall'
        rw [hk']
        exact .waiting hwaiting
    . intro j hj
      rw [List.getElem?_set_ne (Ne.symm hj)]

theorem not_ret_of_holding {p : Program Reply} (h : Holding p) (reply : Reply) : p ≠ .ret reply := by
  intro heq
  rw [heq] at h
  exact h

theorem Situation.step_waiting (hpattern : graph.pattern = .fanOut)
    (hgood : Good graphId runId graph calls w pool stored fun _ => True) {agents : List Agent}
    (hagents : pool.world.agents = w.agents ++ agents) (haccounted : Accounted run₀ stored agents)
    {c : Completion} (hcall : calls[i]? = some c)
    {k : Except String (Option GraphRun) → Program Reply}
    (hthread : pool.threads[i]? = some (.call (.findRun runId) k)) (hwaiting : Waiting graph c runId k)
    (hexclusive : Exclusive o pool i)
    : Situation graphId runId graph calls w run₀ (Pool.step o pool i).1 := by
  have hstep : (Pool.step o pool i).1 = _ := Port.Pool.step_call hthread
  rw [hstep]
  simp only [World.answer]
  cases o.fault pool.world.clock with
  | some e =>
    rcases hwaiting.error e with ⟨e', he'⟩
    exact .failed (failed_of_set hthread he')
  | none =>
    have hover := (hexclusive.load hthread).2 stored hgood.runs
    have hmove {p : Program Reply} (hp : Holding p)
        : Good graphId runId graph calls w
            { world := { pool.world with clock := pool.world.clock + 1 }
              threads := pool.threads.set i p } stored (· ≠ i) := by
      refine hgood.move (fun _ _ _ => trivial) rfl hgood.runs hgood.id (fun _ hdone => hdone) ?_ ?_
      . intro hret
        rcases hret with ⟨reply, hret⟩
        apply hgood.closed
        exact ⟨reply, ret_mem_set (not_ret_of_holding hp) hret⟩
      . intro hne
        exact absurd rfl hne
    have hlt := (List.getElem?_eq_some_iff.mp hthread).1
    have hafter := hwaiting.some stored
    simp only [World.next, hgood.runs]
    generalize k (.ok (some stored)) = p at hafter
    cases hafter with
    | failed e => exact .failed (failed_of_set hthread rfl)
    | finished hterminal => exact absurd hterminal hover
    | @completed run' _ hrecord events =>
      refine .held stored agents i c run'.conversationId [] _ events (hmove (scheduling_holding ..)) hagents hcall ?_
        (held_completed haccounted hrecord)
      exact List.getElem?_set_self hlt
    | @advanced run' _ hrecord events =>
      refine .held stored agents i c run'.conversationId _ _ events (hmove (scheduling_holding ..)) hagents hcall ?_
        (held_advanced hpattern haccounted hover hrecord)
      exact List.getElem?_set_self hlt

theorem Situation.step_held {agents : List Agent} {c : Completion} {conversationId : String}
    {nodeIds : List String} {run : GraphRun} {events : List GraphEvent}
    (hgood : Good graphId runId graph calls w pool stored (· ≠ i))
    (hagents : pool.world.agents = w.agents ++ agents) (hcall : calls[i]? = some c)
    (hthread : pool.threads[i]? = some (scheduling graph c conversationId nodeIds run events))
    (hheld : Held graph run₀ stored c agents nodeIds run) (hexclusive : Exclusive o pool i)
    : Situation graphId runId graph calls w run₀ (Pool.step o pool i).1 := by
  have hlt := (List.getElem?_eq_some_iff.mp hthread).1
  have hnext : NextCall graph c conversationId nodeIds run
      (scheduling graph c conversationId nodeIds run events) :=
    nextCall_scheduling conversationId nodeIds run events
  generalize scheduling graph c conversationId nodeIds run events = p at hnext hthread
  cases hnext with
  | save hnone hok herror =>
    have hstep : (Pool.step o pool i).1 = _ := Port.Pool.step_call hthread
    rw [hstep]
    simp only [World.answer]
    cases o.fault pool.world.clock with
    | some e =>
      rcases herror e with ⟨e', he'⟩
      exact .failed (failed_of_set hthread he')
    | none =>
      rcases hok with ⟨reply, hreply⟩
      have hid : run.id = runId := by
        rw [hheld.follows.id, hgood.id]
      have hfollows : ∀ existing, pool.world.runs.get run.id = some existing → Follows existing run := by
        intro existing hexisting
        rw [hid, hgood.runs] at hexisting
        cases hexisting
        exact hheld.follows
      rcases save_agrees hfollows with ⟨stored', hagrees, hget⟩
      have hcompleted : ∀ nodeId, stored'.isCompleted nodeId = run.isCompleted nodeId := by
        intro nodeId
        unfold GraphRun.isCompleted
        rw [hagrees.executions]
      simp only [World.next, hreply]
      refine .free stored' agents ?_ hagents (hheld.accounted.of_agrees hagrees)
      refine hgood.move (fun j hj _ => hj) rfl ?_ ?_ ?_ ?_ ?_
      . rw [hget, if_pos hid.symm]
      . rw [hagrees.id, hid]
      . intro nodeId hdone
        rw [hcompleted]
        apply hheld.kept nodeId hdone
      . intro _ hstatus node hnode hpreds hnoExec
        rw [hagrees.status] at hstatus
        rw [hagrees.executions] at hnoExec
        unfold allPredecessorsDone at hpreds
        simp only [hcompleted] at hpreds
        have hmem := hheld.pending hstatus node hnode hpreds hnoExec
        exact absurd (hnone _ hmem) (getNode_ne_none hnode)
      . intro _ c' hcall'
        rw [hcall] at hcall'
        cases hcall'
        apply Idle.returned
        rw [hcompleted]
        exact hheld.completed
  | @spawn node nodeIds' request k hrequest hrest herror hok =>
    have hstep : (Pool.step o pool i).1 = _ := Port.Pool.step_call hthread
    rw [hstep]
    simp only [World.answer, hexclusive.spawn hthread, World.next]
    cases hrecord : recordStarted run (newExecution run node) (o.session pool.world.clock) with
    | error e =>
      rcases herror _ e hrecord with ⟨e', he'⟩
      exact .failed (failed_of_set hthread he')
    | ok run' =>
      rcases hok _ run' hrecord with ⟨events', hk⟩
      let agent : Agent := { request, session := o.session pool.world.clock }
      refine .held stored (agents ++ [agent]) i c conversationId nodeIds' run' events' ?_ ?_ hcall ?_
        (hheld.recordStarted hrequest hrest hrecord)
      . refine hgood.move (fun j hj _ => hj) rfl hgood.runs hgood.id (fun _ hdone => hdone) ?_ ?_
        . intro hret
          rcases hret with ⟨reply, hret⟩
          apply hgood.closed
          refine ⟨reply, ret_mem_set ?_ hret⟩
          rw [hk]
          apply not_ret_of_holding
          apply scheduling_holding
        . intro hne
          exact absurd rfl hne
      . rw [hagents, List.append_assoc]
      . rw [hk]
        exact List.getElem?_set_self hlt

theorem Good.exists_call (h : Good graphId runId graph calls w pool stored J) {p : Program Reply}
    (hthread : pool.threads[i]? = some p)
    : ∃ c, calls[i]? = some c := by
  have hlt := (List.getElem?_eq_some_iff.mp hthread).1
  rw [h.length] at hlt
  exact ⟨calls[i], List.getElem?_eq_getElem hlt⟩

theorem Situation.step (hgraph : w.findGraph graphId = some graph) (hpattern : graph.pattern = .fanOut)
    (h : Situation graphId runId graph calls w run₀ pool) (hexclusive : Exclusive o pool i)
    : Situation graphId runId graph calls w run₀ (Pool.step o pool i).1 := by
  by_cases hmakes : ∃ q k, pool.threads[i]? = some (.call q k)
  . rcases hmakes with ⟨q, k, hthread⟩
    cases h with
    | failed h => exact .failed h.step
    | free stored agents hgood hagents haccounted =>
      rcases hgood.exists_call hthread with ⟨c, hcall⟩
      have hidle := hgood.idle i c _ trivial hcall hthread
      generalize hp : Prog.call q k = p at hidle hthread
      cases hidle with
      | fresh =>
        cases hgood.step_fresh (o := o) hgraph hcall hthread with
        | inl hfailed => exact .failed hfailed
        | inr hstep => exact .free stored agents hstep.1 (hstep.2.1.trans hagents) haccounted
      | waiting hwaiting =>
        exact .step_waiting hpattern hgood hagents haccounted hcall hthread hwaiting hexclusive
      | returned => cases hp
    | held stored agents j c conversationId nodeIds run events hgood hagents hcall hthread' hheld =>
      by_cases hij : i = j
      . rw [← hij] at hgood hcall hthread'
        exact .step_held hgood hagents hcall hthread' hheld hexclusive
      . rcases hgood.exists_call hthread with ⟨c', hcall'⟩
        have hidle := hgood.idle i c' _ hij hcall' hthread
        generalize hp : Prog.call q k = p at hidle hthread
        cases hidle with
        | fresh =>
          cases hgood.step_fresh (o := o) hgraph hcall' hthread with
          | inl hfailed => exact .failed hfailed
          | inr hstep =>
            refine .held stored agents j c conversationId nodeIds run events hstep.1
              (hstep.2.1.trans hagents) hcall ?_ hheld
            rw [hstep.2.2 j (Ne.symm hij)]
            exact hthread'
        | waiting hwaiting =>
          -- The thread would have to wait for the one that has a copy.
          have hmem := List.mem_of_getElem? hthread'
          exact absurd (scheduling_holding ..) ((hexclusive.load hthread).1 _ hmem)
        | returned => cases hp
  . have hstep : (Pool.step o pool i).1 = pool := by
      apply Port.Pool.step_idle
      intro q k hthread
      exact hmakes ⟨q, k, hthread⟩
    rw [hstep]
    exact h

theorem Situation.start (hrun : w.runs.get runId = some run₀) (hid : run₀.id = runId)
    : Situation graphId runId graph calls w run₀ (Pool.start graphId runId w calls) := by
  refine .free run₀ [] ⟨rfl, hrun, hid, ?_, ?_, ?_⟩ ?_ (accounted_refl run₀)
  . simp [Pool.start]
  . intro hret
    rcases hret with ⟨reply, hret⟩
    rcases List.mem_map.mp hret with ⟨c, _, hc⟩
    rcases program_eq graphId runId c with ⟨k, heq, _⟩
    rw [heq] at hc
    cases hc
  . intro j c p _ hcall hthread
    simp only [Pool.start, List.getElem?_map, hcall, Option.map_some, Option.some.injEq] at hthread
    rw [← hthread]
    exact .fresh
  . simp [Pool.start]

theorem Situation.consistent (h : Situation graphId runId graph calls w run₀ pool)
    (hcalls : calls ≠ []) (hreturned : pool.AllReturned)
    : ∃ run, pool.world.runs.get runId = some run ∧
      Consistent graph w calls run₀ run pool.world := by
  cases h with
  | failed h => exact absurd h hreturned.not_someFailed
  | held stored agents i c conversationId nodeIds run events hgood hagents hcall hthread hheld =>
    rcases hreturned _ (List.mem_of_getElem? hthread) with ⟨reply, hreply⟩
    exact absurd hreply (not_ret_of_holding (scheduling_holding ..) reply)
  | free stored agents hgood hagents haccounted =>
    have hspawned : w.spawnedSince pool.world = agents := by
      unfold World.spawnedSince
      rw [hagents, List.drop_left]
    have hret (j : Nat) (c : Completion) (hcall : calls[j]? = some c)
        : ∃ reply, pool.threads[j]? = some (.ret reply) := by
      have hlt := (List.getElem?_eq_some_iff.mp hcall).1
      rw [← hgood.length] at hlt
      rcases hreturned _ (List.getElem_mem hlt) with ⟨reply, hreply⟩
      exact ⟨reply, by rw [List.getElem?_eq_getElem hlt, hreply]⟩
    refine ⟨stored, hgood.runs, ?_, ?_, ?_, ?_⟩
    . intro c hc
      rcases List.mem_iff_getElem?.mp hc with ⟨j, hj⟩
      rcases hret j c hj with ⟨reply, hreply⟩
      have hidle := hgood.idle j c _ trivial hj hreply
      generalize hp : Prog.ret reply = p at hidle
      cases hidle with
      | fresh =>
        rcases program_eq graphId runId c with ⟨k, heq, _⟩
        rw [heq] at hp
        cases hp
      | waiting => cases hp
      | returned _ hdone => exact hdone
    . rw [hspawned]
      exact haccounted.totalSteps
    . intro nodeId
      rw [hspawned]
      exact List.nodup_iff_count_le_one.mp haccounted.nodup nodeId
    . intro hstatus node hnode hpreds hnone
      rw [hspawned]
      have hclosed : Pending graph stored [] := by
        apply hgood.closed
        cases hcall : calls with
        | nil => exact absurd hcall hcalls
        | cons c rest =>
          rcases hret 0 c (by rw [hcall]; rfl) with ⟨reply, hreply⟩
          exact ⟨reply, List.mem_of_getElem? hreply⟩
      have hexec : node.nodeId ∈ stored.nodeExecutions.keys := by
        by_contra hkey
        have := hclosed hstatus node hnode hpreds (Dict.get_eq_none.mpr hkey)
        cases this
      apply List.count_eq_one_of_mem haccounted.nodup
      cases (haccounted.executed _).mp hexec with
      | inl hold => exact absurd hold (Dict.get_eq_none.mp hnone)
      | inr hnew => exact hnew

end Threads

theorem completions_consistent (o : Outside) (w : World) (graphId runId : String) (graph : AgentGraph)
    (run : GraphRun) (calls : List Completion) (schedule : List Nat)
    (hgraph : w.findGraph graphId = some graph) (hpattern : graph.pattern = .fanOut)
    (hrun : w.runs.get runId = some run) (hid : run.id = runId) (hcalls : calls ≠ [])
    (hexclusive : ∀ e ∈ transcript (Pool.step o) (Pool.start graphId runId w calls) schedule,
      Exclusive o e.before e.request)
    : AtEach
        (fun _ e => e.after.AllReturned → ∃ run', e.after.world.runs.get runId = some run' ∧
          Consistent graph w calls run run' e.after.world)
        (transcript (Pool.step o) (Pool.start graphId runId w calls) schedule) := by
  refine atEach_transcript (C := Exclusive o)
    (I := fun _ pool => Situation graphId runId graph calls w run pool) ?_ (Situation.start hrun hid)
    schedule hexclusive
  intro past pool i h hstep
  have hafter := h.step hgraph hpattern hstep
  exact ⟨fun hreturned => hafter.consistent hcalls hreturned, hafter⟩

def joinGraph : AgentGraph :=
  review .fanOut [entryA, entryB, World.terminalC] [World.edgeToC, { sourceNodeId := "b", targetNodeId := "c" }]

def bothRunning : World :=
  (World.step calm (World.start [joinGraph]) (.startRun reviewArgs)).1

theorem forall_mem_pair {P : Program Reply → Prop} {l : List (Program Reply)}
    (h : ∃ p q, l = [p, q] ∧ P p ∧ P q)
    : ∀ p ∈ l, P p := by
  rcases h with ⟨p, q, rfl, hp, hq⟩
  simp [hp, hq]

def bothDone : List Completion :=
  [{ nodeId := "a" }, { nodeId := "b" }]

theorem completions_consistent_review
    : ∃ run, bothRunning.runs.get "r" = some run ∧
      AtEach
        (fun _ e => e.after.AllReturned → ∃ run', e.after.world.runs.get "r" = some run' ∧
          Consistent joinGraph bothRunning bothDone run run' e.after.world)
        (transcript (Pool.step calm) (Pool.start "review" "r" bothRunning bothDone)
          [0, 0, 0, 1, 1, 1, 1]) := by
  refine ⟨_, rfl, ?_⟩
  apply completions_consistent calm bothRunning "review" "r" joinGraph _ bothDone _ rfl rfl rfl rfl
    (by simp [bothDone])
  intro e he
  simp only [transcript, List.mem_cons, List.not_mem_nil, or_false] at he
  rcases he with rfl | rfl | rfl | rfl | rfl | rfl | rfl
  . trivial
  . refine ⟨forall_mem_pair ⟨_, _, rfl, id, id⟩, ?_⟩
    intro run hrun
    cases hrun
    exact Bool.false_ne_true
  . trivial
  . trivial
  . refine ⟨forall_mem_pair ⟨_, _, rfl, id, id⟩, ?_⟩
    intro run hrun
    cases hrun
    exact Bool.false_ne_true
  . rfl
  . trivial

/--
Each thread looks for the graph and for the run before the first one saves.
-/
theorem overlapping_completions_lost
    : ∃ run, bothRunning.runs.get "r" = some run ∧
      ¬ AtEach
        (fun _ e => e.after.AllReturned → ∃ run', e.after.world.runs.get "r" = some run' ∧
          Consistent joinGraph bothRunning bothDone run run' e.after.world)
        (transcript (Pool.step calm) (Pool.start "review" "r" bothRunning bothDone)
          [0, 0, 1, 1, 0, 1]) := by
  refine ⟨_, rfl, ?_⟩
  intro h
  have hlast := h.get (n := 5) rfl
  let pool := final (Pool.step calm) (Pool.start "review" "r" bothRunning bothDone) [0, 0, 1, 1, 0, 1]
  have hreturned : pool.AllReturned := by
    apply forall_mem_pair
    exact ⟨_, _, rfl, ⟨_, rfl⟩, ⟨_, rfl⟩⟩
  have hlost : ∃ run', pool.world.runs.get "r" = some run' ∧ run'.isCompleted "a" = false :=
    ⟨_, rfl, rfl⟩
  rcases hlast hreturned with ⟨run', hrun', hconsistent⟩
  rcases hlost with ⟨run'', hrun'', hnot⟩
  have hsame : run' = run'' := Option.some.inj (hrun'.symm.trans hrun'')
  have hdone := hconsistent.completed { nodeId := "a" } (by simp [bothDone])
  rw [hsame, hnot] at hdone
  cases hdone

end Graph
end MemStack
