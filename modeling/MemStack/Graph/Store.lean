import MemStack.Graph.Lemmas

/-!
This module contains the runs as the repository keeps them: how the run that a call saves follows from
the one that was stored before, and what holds of all stored runs because every call keeps it.
-/

namespace MemStack
namespace Graph

open History Machine Checked GraphOrchestrator

structure Extends (run run' : GraphRun) : Prop where
  id : run'.id = run.id
  graphId : run'.graphId = run.graphId
  maxTotalSteps : run'.maxTotalSteps = run.maxTotalSteps
  kept : ∀ nodeId ne, run.getNodeExecution nodeId = some ne → run'.getNodeExecution nodeId = some ne
  new : ∀ nodeId ne, run'.getNodeExecution nodeId = some ne →
    run.getNodeExecution nodeId = some ne ∨
    run.getNodeExecution nodeId = none ∧ (ne.status = .running ∨ ne.status = .skipped)

theorem Extends.refl (run : GraphRun) : Extends run run where
  id := rfl
  graphId := rfl
  maxTotalSteps := rfl
  kept _ _ h := h
  new _ _ h := .inl h

theorem Extends.trans {run run' run'' : GraphRun} (h : Extends run run') (h' : Extends run' run'')
    : Extends run run'' where
  id := h'.id.trans h.id
  graphId := h'.graphId.trans h.graphId
  maxTotalSteps := h'.maxTotalSteps.trans h.maxTotalSteps
  kept nodeId ne hget := h'.kept nodeId ne (h.kept nodeId ne hget)
  new nodeId ne hget := by
    cases h'.new nodeId ne hget with
    | inl hold => apply h.new nodeId ne hold
    | inr hnew =>
      right
      refine ⟨?_, hnew.2⟩
      cases hrun : run.getNodeExecution nodeId with
      | none => rfl
      | some ne' => simp [h.kept nodeId ne' hrun] at hnew

theorem extends_withExecution {run : GraphRun} {ne : NodeExecution}
    (hnew : ne.nodeId ∉ run.nodeExecutions.keys) (hne : ne.status = .running ∨ ne.status = .skipped)
    : Extends run (withExecution run ne) where
  id := rfl
  graphId := rfl
  maxTotalSteps := rfl
  kept nodeId ne' hget := by
    unfold GraphRun.getNodeExecution withExecution at *
    rw [Dict.get_set, if_neg, hget]
    intro heq
    apply hnew
    rw [← heq, Dict.mem_keys]
    exact ⟨ne', hget⟩
  new nodeId ne' hget := by
    unfold GraphRun.getNodeExecution withExecution at *
    rw [Dict.get_set] at hget
    split at hget
    . next heq =>
      cases hget
      right
      rw [heq, Dict.get_eq_none]
      exact ⟨hnew, hne⟩
    . exact .inl hget

theorem extends_stepped (run : GraphRun) : Extends run (stepped run) := by
  unfold stepped
  split <;> exact {
    id := rfl
    graphId := rfl
    maxTotalSteps := rfl
    kept := fun _ _ h => h
    new := fun _ _ h => .inl h
  }

variable {o : Outside} {graph : AgentGraph} {parentAgentId parentSessionId : String} {strict : Prop}
  {c c' : Nat} {nodeIds : List String} {run run' : GraphRun} {agents : List Agent}
  {r : Except String GraphRun}

theorem Scheduled.extends
    (h : Scheduled o graph parentAgentId parentSessionId strict c nodeIds run agents c' r)
    (hr : r = .ok run')
    : Extends run run' := by
  induction h with
  | done c run =>
    cases hr
    apply Extends.refl
  | unknown _ _ ih => apply ih hr
  | raised | skipRefused | startRefused => cases hr
  | skipped hnode hfault hstrict hrecord hrest ih =>
    rw [recordSkipped_eq_ok] at hrecord
    apply Extends.trans _ (ih hr)
    rw [hrecord.2]
    apply extends_withExecution hrecord.1
    exact .inr rfl
  | started hnode hfault hrecord hrest ih =>
    rw [recordStarted_eq_ok] at hrecord
    apply Extends.trans _ (ih hr)
    rw [hrecord.2.2]
    apply Extends.trans _ (extends_stepped _)
    apply extends_withExecution hrecord.1
    exact .inl rfl

theorem recordCompleted_eq_ok {nodeId : String} {output : Option Context}
    : recordCompleted run nodeId output = .ok run'
        ↔
      ∃ ne, run.getNodeExecution nodeId = some ne ∧ ne.status = .running ∧
        run' = { run with
          nodeExecutions := run.nodeExecutions.set nodeId
            { ne with status := .completed, outputContext := output.getD ne.outputContext }
          sharedContext := run.sharedContext.update (output.getD .empty)
        } := by
  unfold recordCompleted executionOf
  cases run.getNodeExecution nodeId with
  | none => simp
  | some ne =>
    simp only [bind_eq_ok, NodeExecution.markCompleted_eq_ok, Except.ok.injEq, Option.some.injEq]
    simp only [pure, Except.pure, Except.ok.injEq, GraphRun.updateSharedContext]
    grind

theorem recordFailed_eq_ok {nodeId errorMessage : String}
    : recordFailed graph run nodeId errorMessage = .ok run'
        ↔
      ∃ ne, run.getNodeExecution nodeId = some ne ∧ ne.status = .running ∧ run.status = .running ∧
        run' = { run with
          nodeExecutions := run.nodeExecutions.set nodeId
            { ne with status := .failed, errorMessage := some errorMessage }
          status := .failed
          errorMessage := some s!"Node '{nodeLabel graph nodeId}' failed: {errorMessage}"
          currentNodeIds := []
        } := by
  unfold recordFailed executionOf
  cases run.getNodeExecution nodeId with
  | none => simp
  | some ne =>
    simp only [bind_eq_ok, NodeExecution.markFailed_eq_ok, GraphRun.markFailed_eq_ok,
      Except.ok.injEq, Option.some.injEq]
    grind

structure Follows (run run' : GraphRun) : Prop where
  id : run'.id = run.id
  graphId : run'.graphId = run.graphId
  kept : ∀ nodeId ne, run.getNodeExecution nodeId = some ne →
    ∃ ne', run'.getNodeExecution nodeId = some ne'

theorem Extends.follows (h : Extends run run') : Follows run run' where
  id := h.id
  graphId := h.graphId
  kept nodeId ne hget := ⟨ne, h.kept nodeId ne hget⟩

theorem Follows.trans {run'' : GraphRun} (h : Follows run run') (h' : Follows run' run'')
    : Follows run run'' where
  id := h'.id.trans h.id
  graphId := h'.graphId.trans h.graphId
  kept nodeId ne hget := by
    rcases h.kept nodeId ne hget with ⟨ne', hget'⟩
    apply h'.kept nodeId ne' hget'

theorem follows_set {run' : GraphRun} {nodeId : String} {ne : NodeExecution} (hid : run'.id = run.id)
    (hgraph : run'.graphId = run.graphId)
    (hset : run'.nodeExecutions = run.nodeExecutions.set nodeId ne)
    : Follows run run' where
  id := hid
  graphId := hgraph
  kept nodeId' ne' hget := by
    unfold GraphRun.getNodeExecution at *
    rw [hset, Dict.get_set]
    split
    . exact ⟨ne, rfl⟩
    . exact ⟨ne', hget⟩

theorem follows_markCancelled (run : GraphRun) : Follows run run.markCancelled := by
  unfold GraphRun.markCancelled
  split
  . exact (Extends.refl run).follows
  . refine { id := rfl, graphId := rfl, kept := ?_ }
    intro nodeId ne hget
    unfold GraphRun.getNodeExecution at *
    rw [Dict.get_mapValues, hget]
    exact ⟨ne.markCancelled, rfl⟩

theorem Commits.extends {saved : Option GraphRun}
    (h : Commits o graph parentAgentId parentSessionId strict c nodeIds run agents saved r)
    (hsaved : saved = some run')
    : Extends run run' ∧ r = .ok run' ∧
      ∃ c', Scheduled o graph parentAgentId parentSessionId strict c nodeIds run agents c' (.ok run') := by
  cases h with
  | failed | unsaved => cases hsaved
  | saved h hfault =>
    cases hsaved
    exact ⟨h.extends rfl, rfl, _, h⟩

namespace World

variable {w : World} {call : Call}

theorem Outcome.follows (h : Outcome o w call agents (some run') r)
    : (∃ runId run, w.runs.get runId = some run ∧ Follows run run') ∨
      run'.id = o.runId (w.clock + 1) := by
  generalize hsaved : some run' = saved at h
  cases h with
  | refused | finished => cases hsaved
  | started hstartable hcommits =>
    right
    exact (hcommits.extends hsaved.symm).1.id
  | completed hloaded hover hrecord hcomplete hstatus =>
    cases hsaved
    rw [recordCompleted_eq_ok] at hrecord
    rcases hrecord with ⟨ne, _, _, rfl⟩
    left
    exact ⟨_, _, hloaded.findRun, follows_set rfl rfl rfl⟩
  | advanced hloaded hover hrecord hcomplete hcommits =>
    rw [recordCompleted_eq_ok] at hrecord
    rcases hrecord with ⟨ne, _, _, rfl⟩
    left
    refine ⟨_, _, hloaded.findRun, Follows.trans ?_ (hcommits.extends hsaved.symm).1.follows⟩
    exact follows_set rfl rfl rfl
  | nodeFailed hloaded hover hrecord =>
    cases hsaved
    rw [recordFailed_eq_ok] at hrecord
    rcases hrecord with ⟨ne, _, _, _, rfl⟩
    left
    exact ⟨_, _, hloaded.findRun, follows_set rfl rfl rfl⟩
  | cancelled hrun hover =>
    cases hsaved
    left
    exact ⟨_, _, hrun, follows_markCancelled _⟩
  | handedOff hloaded hover hpattern hcommits =>
    left
    exact ⟨_, _, hloaded.findRun, (hcommits.extends hsaved.symm).1.follows⟩

end World

structure Agrees (run stored : GraphRun) : Prop where
  id : stored.id = run.id
  graphId : stored.graphId = run.graphId
  status : stored.status = run.status
  totalSteps : stored.totalSteps = run.totalSteps
  maxTotalSteps : stored.maxTotalSteps = run.maxTotalSteps
  executions : ∀ nodeId, stored.getNodeExecution nodeId = run.getNodeExecution nodeId

theorem save_agrees {runs : Dict String GraphRun}
    (h : ∀ existing, runs.get run'.id = some existing → Follows existing run')
    : ∃ stored, Agrees run' stored ∧
      ∀ id, (SqlGraphRunRepository.save runs run').get id
          =
        if id = run'.id then some stored else runs.get id := by
  unfold SqlGraphRunRepository.save
  cases hexisting : runs.get run'.id with
  | none =>
    refine ⟨run', ⟨rfl, rfl, rfl, rfl, rfl, fun _ => rfl⟩, ?_⟩
    intro id
    apply Dict.get_set
  | some existing =>
    have hfollows := h existing hexisting
    dsimp only
    refine ⟨_, ?_, fun id => Dict.get_set runs run'.id id _⟩
    refine ⟨hfollows.id.symm, hfollows.graphId.symm, rfl, rfl, rfl, ?_⟩
    intro nodeId
    unfold GraphRun.getNodeExecution
    rw [Dict.get_update]
    cases hnew : run'.nodeExecutions.get nodeId with
    | some ne => rfl
    | none =>
      cases hold : existing.nodeExecutions.get nodeId with
      | none => rfl
      | some ne =>
        rcases hfollows.kept nodeId ne hold with ⟨ne', hne'⟩
        simp [GraphRun.getNodeExecution, hnew] at hne'

-- Every stored run was drawn an identifier by an earlier call, and it meets `R`.
structure StoredInv (o : Outside) (R : GraphRun → Prop) (w : World) : Prop where
  id : ∀ id run, w.runs.get id = some run → run.id = id
  drawn : ∀ id run, w.runs.get id = some run → ∃ n < w.clock, id = o.runId n
  holds : ∀ id run, w.runs.get id = some run → R run

theorem step_graphs (o : Outside) (w : World) (call : Call)
    : (w.step o call).1.graphs = w.graphs := by
  rcases World.step_outcome o w call with ⟨agents, saved, r, events, clock, _, _, _, heq⟩
  rw [heq]
  rfl

theorem id_of_findGraph {w : World} {graphId : String} (h : w.findGraph graphId = some graph)
    : graph.id = graphId := by
  simpa using List.find?_some h

theorem World.Loaded.findGraph_run {w : World} {graphId runId : String}
    (h : w.Loaded o graphId runId graph run)
    : w.findGraph run.graphId = some graph := by
  rw [h.belongs, id_of_findGraph h.findGraph, h.findGraph]

theorem StoredInv.start (R : GraphRun → Prop) (graphs : List AgentGraph)
    : StoredInv o R (World.start graphs) where
  id := by simp [World.start]
  drawn := by simp [World.start]
  holds := by simp [World.start]

theorem StoredInv.step {R : GraphRun → Prop} (hR : ∀ run stored, Agrees run stored → R run → R stored)
    {w : World} (h : StoredInv o R w) {call : Call}
    (hcall : ∀ agents run' r, World.Outcome o w call agents (some run') r → R run')
    : StoredInv o R (w.step o call).1 := by
  rcases World.step_outcome o w call with ⟨agents, saved, r, events, clock, hout, hle, hlast, heq⟩
  rw [heq]
  cases saved with
  | none =>
    refine { id := h.id, drawn := ?_, holds := h.holds }
    intro id run hget
    rcases h.drawn id run hget with ⟨n, hn, hid⟩
    exact ⟨n, by simp only [World.after]; omega, hid⟩
  | some run' =>
    have hclock : w.clock + 2 ≤ clock := hlast (by simp)
    have hstored : ∀ existing, w.runs.get run'.id = some existing → Follows existing run' := by
      intro existing hexisting
      cases hout.follows with
      | inl hold =>
        rcases hold with ⟨runId, run, hrun, hfollows⟩
        rw [hfollows.id, h.id runId run hrun, hrun] at hexisting
        cases hexisting
        exact hfollows
      | inr hnew =>
        rcases h.drawn _ _ hexisting with ⟨n, hn, hid⟩
        rw [hnew] at hid
        have := o.runId_injective hid
        omega
    rcases save_agrees hstored with ⟨stored, hagrees, hget⟩
    constructor
    . intro id run hrun
      simp only [World.after, Option.elim, hget] at hrun
      split at hrun
      . next hid =>
        cases hrun
        rw [hagrees.id, hid]
      . apply h.id id run hrun
    . intro id run hrun
      simp only [World.after, Option.elim, hget] at hrun ⊢
      split at hrun
      . next hid =>
        cases hout.follows with
        | inl hold =>
          rcases hold with ⟨runId, run, hold, hfollows⟩
          rcases h.drawn runId run hold with ⟨n, hn, hrunId⟩
          refine ⟨n, by omega, ?_⟩
          rw [hid, hfollows.id, h.id runId run hold, hrunId]
        | inr hnew => exact ⟨w.clock + 1, by omega, hid.trans hnew⟩
      . rcases h.drawn id run hrun with ⟨n, hn, hid⟩
        exact ⟨n, by omega, hid⟩
    . intro id run hrun
      simp only [World.after, Option.elim, hget] at hrun
      split at hrun
      . cases hrun
        apply hR run' stored hagrees
        apply hcall agents run' r hout
      . apply h.holds id run hrun

end Graph
end MemStack
