import MemStack.Workspace.Sprint
import MemStack.Workspace.Valid

/-!
This module contains what planning the next sprint does to a plan, and the order of the nodes of an
iteration that the pass over the barriers goes by.
-/

namespace MemStack
namespace Workspace

open Checked

theorem get_withAll_of_notMem {metadata : Metadata} {updates : List (String × Value)} {key : String}
    (h : key ∉ updates.map Prod.fst)
    : (withAll metadata updates).get key = metadata.get key := by
  induction updates generalizing metadata with
  | nil => rfl
  | cons e updates ih =>
    simp only [List.map_cons, List.mem_cons, not_or] at h
    unfold withAll
    rw [List.foldl_cons]
    have hrest := @ih (metadata.set e.1 e.2) h.2
    unfold withAll at hrest
    rw [hrest, Dict.get_set, if_neg h.1]

section Order

variable {plan : Plan} {nodes : List PlanNode} {a b : PlanNode}

theorem orderKey_injective (h : a.orderKey = b.orderKey) : a.id = b.id := by
  unfold PlanNode.orderKey at h
  simp only [EmbeddingLike.apply_eq_iff_eq, Prod.mk.injEq] at h
  exact h.2.2

theorem sequenceByNode_eq_some {ordered : List PlanNode}
    (hids : ordered.Pairwise fun a b => a.id ≠ b.id) (ha : a ∈ ordered)
    : ∃ i, ∃ h : i < ordered.length, ordered[i] = a ∧ sequenceByNode ordered a.id = some (i + 1) := by
  rcases List.mem_iff_getElem.mp ha with ⟨i, hi, hget⟩
  refine ⟨i, hi, hget, ?_⟩
  unfold sequenceByNode
  rw [Option.map_eq_some_iff]
  refine ⟨i, ?_, rfl⟩
  rw [List.findIdx?_eq_some_iff_getElem]
  refine ⟨hi, by simp [hget], ?_⟩
  intro j hj hid
  have hne := List.pairwise_iff_getElem.mp hids j i (by omega) hi hj
  rw [hget] at hne
  simp only [decide_eq_true_eq] at hid
  exact hne hid

theorem comesBefore_iff (hids : (nodes.map (·.id)).Nodup) (ha : a ∈ nodes) (hb : b ∈ nodes)
    : comesBefore (orderedIterationNodes nodes) b a.id ↔ a.orderKey < b.orderKey := by
  have hperm : (orderedIterationNodes nodes).Perm nodes := List.perm_insertionSort _ nodes
  have hsorted : (orderedIterationNodes nodes).Pairwise fun a b => a.orderKey ≤ b.orderKey := by
    apply List.pairwise_insertionSort
  have hids' : (orderedIterationNodes nodes).Pairwise fun a b => a.id ≠ b.id := by
    rw [← List.pairwise_map (f := fun node : PlanNode => node.id)]
    exact (hperm.map _).nodup_iff.mpr hids
  rcases sequenceByNode_eq_some hids' (hperm.mem_iff.mpr ha) with ⟨i, hi, hgeti, hseqi⟩
  rcases sequenceByNode_eq_some hids' (hperm.mem_iff.mpr hb) with ⟨j, hj, hgetj, hseqj⟩
  unfold comesBefore
  simp only [hseqi, hseqj, Option.getD_some, decide_eq_true_eq]
  constructor
  . intro hlt
    have hle := List.pairwise_iff_getElem.mp hsorted i j hi hj (by omega)
    have hne := List.pairwise_iff_getElem.mp hids' i j hi hj (by omega)
    rw [hgeti, hgetj] at hle hne
    apply lt_of_le_of_ne hle
    intro heq
    exact hne (orderKey_injective heq)
  . intro hlt
    by_contra hge
    cases Nat.lt_or_ge j i with
    | inl hji =>
      have hle := List.pairwise_iff_getElem.mp hsorted j i hj hi hji
      rw [hgeti, hgetj] at hle
      exact absurd hlt (not_lt.mpr hle)
    | inr hij =>
      have hsame : i = j := by omega
      subst hsame
      rw [← hgeti, hgetj] at hlt
      exact absurd hlt (lt_irrefl _)

theorem mem_iterationNodes {i : Nat}
    : a ∈ iterationNodes plan i
        ↔
      plan.nodes.get a.id = some a ∧ a.isRunnable ∧ a.iterationIndex = i := by
  unfold iterationNodes runnableNodes
  simp only [List.mem_filter, Plan.mem_values, decide_eq_true_eq, and_assoc]

theorem nodup_iterationNodes (i : Nat) : ((iterationNodes plan i).map (·.id)).Nodup := by
  have hsub : ((iterationNodes plan i).map (·.id)).Sublist (plan.nodes.values.map (·.id)) := by
    apply List.Sublist.map
    exact List.filter_sublist.trans List.filter_sublist
  apply hsub.nodup
  rw [Plan.ids_eq_keys]
  exact plan.nodup_keys

end Order

section Append

theorem Edited.andThen_eq_ok {edited : Edited} {f : Plan → Edited} {plan' : Plan}
    : edited.andThen f = (plan', none) ↔ ∃ plan, edited = (plan, none) ∧ f plan = (plan', none) := by
  rcases edited with ⟨plan, e⟩
  cases e with
  | none => simp [Edited.andThen]
  | some e => simp [Edited.andThen]

theorem Edited.ofExcept_eq_ok {plan plan' : Plan} {x : Except String Plan}
    : Edited.ofExcept plan x = (plan', none) ↔ x = .ok plan' := by
  cases x <;> simp [Edited.ofExcept]

theorem editAll_cons_eq_ok {β : Type} {f : Plan → β → Except String Plan} {b : β} {bs : List β}
    {plan plan' : Plan}
    : editAll f (b :: bs) plan = (plan', none)
        ↔
      ∃ plan₁, f plan b = .ok plan₁ ∧ editAll f bs plan₁ = (plan', none) := by
  rw [editAll, Edited.andThen_eq_ok]
  simp only [Edited.ofExcept_eq_ok]

theorem withDependsOn_eq_ok {node node' : PlanNode} {deps : Finset String}
    : node.withDependsOn deps = .ok node'
        ↔
      ∃ h : node.id ∉ deps, node' = { node with dependsOn := deps, id_notMem := h } := by
  unfold PlanNode.withDependsOn
  split
  . next h => simp [h, eq_comm]
  . next h => simp [h]

variable {plan plan' : Plan} {nextIteration now : Nat} {specs : List TaskSpec}

theorem addNextIterationNode_eq_ok {spec : TaskSpec}
    : addNextIterationNode nextIteration now plan spec = .ok plan'
        ↔
      Text.strip (iterationNode plan nextIteration now spec).title ≠ "" ∧
      spec.nodeId ∉ plan.nodes.keys ∧ plan.goalId ∈ plan.nodes.keys ∧
      plan' = plan.setNode (iterationNode plan nextIteration now spec) := by
  unfold addNextIterationNode PlanNode.postInit
  simp only [bind_eq_ok, ensure_eq_ok, exists_const]
  simp only [pure, Except.pure, Except.ok.injEq]
  have hkind : (iterationNode plan nextIteration now spec).kind ≠ .goal := by
    simp [iterationNode]
  have hadd : plan.addNode (iterationNode plan nextIteration now spec) = .ok plan' ↔ _ :=
    Plan.addNode_eq_ok hkind
  have hdeps : plan.missingDeps (iterationNode plan nextIteration now spec) = ∅ := by
    simp [Plan.missingDeps, iterationNode]
  have hparent : (iterationNode plan nextIteration now spec).parentId = some plan.goalId := rfl
  have hplan : (iterationNode plan nextIteration now spec).planId = plan.id := rfl
  have hid : (iterationNode plan nextIteration now spec).id = spec.nodeId := rfl
  rw [hdeps, hparent, hplan, hid] at hadd
  simp only [Option.mem_def, Option.some.injEq, exists_eq_left', true_and] at hadd
  constructor
  . intro h
    rcases h with ⟨node, ⟨htitle, rfl⟩, hnode⟩
    exact ⟨htitle, hadd.mp hnode⟩
  . intro h
    exact ⟨_, ⟨h.1, rfl⟩, hadd.mpr h.2⟩

structure SprintAdded (plan plan' : Plan) (specs : List TaskSpec) (newNode : TaskSpec → PlanNode)
    : Prop where
  id : plan'.id = plan.id
  goalId : plan'.goalId = plan.goalId
  nodup : (specs.map (·.nodeId)).Nodup
  fresh : ∀ spec ∈ specs, spec.nodeId ∉ plan.nodes.keys
  new : ∀ spec ∈ specs, plan'.nodes.get spec.nodeId = some (newNode spec)
  old : ∀ id, id ∉ specs.map (·.nodeId) → plan'.nodes.get id = plan.nodes.get id

theorem SprintAdded.nil (plan : Plan) (newNode : TaskSpec → PlanNode)
    : SprintAdded plan plan [] newNode := by
  exact ⟨rfl, rfl, by simp, by simp, by simp, by simp⟩

theorem SprintAdded.cons {spec : TaskSpec} (hnew : spec.nodeId ∉ plan.nodes.keys)
    (h : SprintAdded (plan.setNode (iterationNode plan nextIteration now spec)) plan' specs
      (iterationNode plan nextIteration now))
    : SprintAdded plan plan' (spec :: specs) (iterationNode plan nextIteration now) := by
  have hkeys : ∀ id, id ∈ (plan.setNode (iterationNode plan nextIteration now spec)).nodes.keys
      ↔
    id = spec.nodeId ∨ id ∈ plan.nodes.keys := by
    intro id
    apply Plan.mem_keys_setNode
  have hspec : spec.nodeId ∉ specs.map (·.nodeId) := by
    intro hmem
    rcases List.mem_map.mp hmem with ⟨spec', hspec', hid⟩
    apply h.fresh spec' hspec'
    rw [hkeys]
    exact .inl hid
  refine ⟨h.id, h.goalId, ?_, ?_, ?_, ?_⟩
  . rw [List.map_cons, List.nodup_cons]
    exact ⟨hspec, h.nodup⟩
  . intro spec' hspec' hmem
    cases List.mem_cons.mp hspec' with
    | inl heq => exact hnew (heq ▸ hmem)
    | inr hin =>
      apply h.fresh spec' hin
      rw [hkeys]
      exact .inr hmem
  . intro spec' hspec'
    cases List.mem_cons.mp hspec' with
    | inl heq =>
      rw [heq, h.old _ hspec, Plan.get_setNode, if_pos]
      rfl
    | inr hin => apply h.new spec' hin
  . intro id hid
    rw [List.map_cons, List.mem_cons, not_or] at hid
    rw [h.old id hid.2, Plan.get_setNode, if_neg]
    exact hid.1

theorem sprintAdded_of_editAll
    (h : editAll (addNextIterationNode nextIteration now) specs plan = (plan', none))
    : SprintAdded plan plan' specs (iterationNode plan nextIteration now) := by
  induction specs generalizing plan with
  | nil =>
    cases h
    apply SprintAdded.nil
  | cons spec specs ih =>
    rw [editAll_cons_eq_ok] at h
    rcases h with ⟨plan₁, hadd, hrest⟩
    rw [addNextIterationNode_eq_ok] at hadd
    rcases hadd with ⟨_, hnew, hgoal, rfl⟩
    apply SprintAdded.cons hnew
    apply ih hrest

theorem setDependencies_eq_ok {deps : TaskSpec → Finset String} {spec : TaskSpec}
    : setDependencies deps plan spec = .ok plan'
        ↔
      ∃ node, plan.nodes.get spec.nodeId = some node ∧ ∃ h : node.id ∉ deps spec,
        plan' = plan.setNode { node with dependsOn := deps spec, id_notMem := h } := by
  unfold setDependencies
  cases hget : plan.nodes.get spec.nodeId with
  | none => simp
  | some node =>
    simp only [bind_eq_ok, withDependsOn_eq_ok, Plan.replaceNode_eq_ok, Option.some.injEq]
    have hkey : node.id ∈ plan.nodes.keys := by
      rw [plan.keyed _ node hget]
      exact Plan.mem_keys_of_get hget
    constructor
    . intro h
      rcases h with ⟨node', ⟨hself, rfl⟩, _, rfl⟩
      exact ⟨node, rfl, hself, rfl⟩
    . intro h
      rcases h with ⟨_, rfl, hself, rfl⟩
      exact ⟨_, ⟨hself, rfl⟩, hkey, rfl⟩

theorem get_of_editAll_setDependencies {deps : TaskSpec → Finset String}
    (h : editAll (setDependencies deps) specs plan = (plan', none))
    (hnodup : (specs.map (·.nodeId)).Nodup)
    : plan'.id = plan.id ∧ plan'.goalId = plan.goalId ∧
      (∀ spec ∈ specs, ∃ node, plan.nodes.get spec.nodeId = some node ∧ ∃ h : node.id ∉ deps spec,
        plan'.nodes.get spec.nodeId
          =
        some { node with dependsOn := deps spec, id_notMem := h }) ∧
      ∀ id, id ∉ specs.map (·.nodeId) → plan'.nodes.get id = plan.nodes.get id := by
  induction specs generalizing plan with
  | nil =>
    cases h
    simp
  | cons spec specs ih =>
    rw [editAll_cons_eq_ok] at h
    rcases h with ⟨plan₁, hset, hrest⟩
    rw [setDependencies_eq_ok] at hset
    rcases hset with ⟨node, hget, hself, rfl⟩
    rw [List.map_cons, List.nodup_cons] at hnodup
    rcases ih hrest hnodup.2 with ⟨hid, hgoal, hnew, hold⟩
    have hnode : node.id = spec.nodeId := plan.keyed _ node hget
    refine ⟨hid, hgoal, ?_, ?_⟩
    . intro spec' hspec'
      cases List.mem_cons.mp hspec' with
      | inl heq =>
        refine ⟨node, heq ▸ hget, heq ▸ hself, ?_⟩
        subst heq
        rw [hold _ hnodup.1, Plan.get_setNode, if_pos hnode.symm]
      | inr hin =>
        rcases hnew spec' hin with ⟨node', hget', hself', hnew'⟩
        refine ⟨node', ?_, hself', hnew'⟩
        rw [Plan.get_setNode, if_neg] at hget'
        . exact hget'
        . intro heq
          apply hnodup.1
          rw [← hnode, ← heq]
          exact List.mem_map_of_mem hin
    . intro id hid'
      rw [List.map_cons, List.mem_cons, not_or] at hid'
      rw [hold id hid'.2, Plan.get_setNode, if_neg]
      rw [hnode]
      exact hid'.1

theorem replaceGoalLoopMetadata_eq_ok {status : PlanStatus} {updates : List (String × Value)}
    : replaceGoalLoopMetadata plan status updates = .ok plan'
        ↔
      ∃ goal, plan.nodes.get plan.goalId = some goal ∧
        plan' = { plan.setNode { goal with
          metadata := goal.metadata.set "iteration_loop"
            (.dict (withAll (goalIterationLoopMetadata goal) updates).entries) } with status } := by
  unfold replaceGoalLoopMetadata Plan.goalNode
  cases hget : plan.nodes.get plan.goalId with
  | none => simp
  | some goal =>
    have hkey : goal.id ∈ plan.nodes.keys := by
      rw [plan.keyed _ goal hget]
      exact Plan.mem_keys_of_get hget
    simp only [bind_eq_ok, Plan.replaceNode_eq_ok, Except.ok.injEq, exists_eq_left',
      Option.some.injEq]
    simp only [pure, Except.pure, Except.ok.injEq]
    constructor
    . intro h
      rcases h with ⟨plan₁, ⟨_, rfl⟩, rfl⟩
      rfl
    . intro h
      exact ⟨_, ⟨hkey, rfl⟩, h.symm⟩

structure Appended (newId : Nat → String) (now : Nat) (tasks : List IterationNextTask)
    (nextIteration : Nat) (updates : Metadata → List (String × Value)) (plan plan' : Plan) : Prop where
  id : plan'.id = plan.id
  goalId : plan'.goalId = plan.goalId
  nodup : ((taskSpecs newId tasks).map (·.nodeId)).Nodup
  fresh : ∀ spec ∈ taskSpecs newId tasks, spec.nodeId ∉ plan.nodes.keys
  goal : ∃ goal, plan.nodes.get plan.goalId = some goal ∧
    plan'.nodes.get plan.goalId = some { goal with
      metadata := goal.metadata.set "iteration_loop" (.dict
        (withAll (goalIterationLoopMetadata goal) (updates (goalIterationLoopMetadata goal))).entries) }
  new : ∀ spec ∈ taskSpecs newId tasks, ∃ h : spec.nodeId ∉ taskDependencies newId tasks spec,
    plan'.nodes.get spec.nodeId = some { iterationNode plan nextIteration now spec with
      dependsOn := taskDependencies newId tasks spec
      id_notMem := h }
  old : ∀ id, id ∉ (taskSpecs newId tasks).map (·.nodeId) → id ≠ plan.goalId →
    plan'.nodes.get id = plan.nodes.get id

theorem appended_of_appendNextIteration {newId : Nat → String} {verdict : IterationReviewVerdict}
    {maxIterations : Nat}
    (h : appendNextIteration newId now verdict nextIteration maxIterations plan = (plan', none))
    : Appended newId now verdict.nextTasks nextIteration
        (fun loop => nextSprintUpdates loop verdict nextIteration maxIterations) plan plan' := by
  unfold appendNextIteration Plan.goalNode at h
  cases hgoal : plan.nodes.get plan.goalId with
  | none => simp [hgoal] at h
  | some goal =>
    simp only [hgoal, Edited.andThen_eq_ok, Edited.ofExcept_eq_ok, replaceGoalLoopMetadata_eq_ok] at h
    rcases h with ⟨plan₂, ⟨plan₁, hadd, hset⟩, goal', hgoal', rfl⟩
    have hadded := sprintAdded_of_editAll hadd
    rcases get_of_editAll_setDependencies hset hadded.nodup with ⟨hid, hgoalId, hnew, hold⟩
    have hgoalKey : plan.goalId ∉ (taskSpecs newId verdict.nextTasks).map (·.nodeId) := by
      intro hmem
      rcases List.mem_map.mp hmem with ⟨spec, hspec, heq⟩
      apply hadded.fresh spec hspec
      rw [heq]
      exact Plan.mem_keys_of_get hgoal
    have hgoal₂ : plan₂.goalId = plan.goalId := hgoalId.trans hadded.goalId
    rw [hgoal₂, hold _ hgoalKey, hadded.old _ hgoalKey, hgoal] at hgoal'
    cases hgoal'
    have hgoalNode : goal.id = plan.goalId := plan.keyed _ goal hgoal
    refine ⟨hid.trans hadded.id, hgoal₂, hadded.nodup, hadded.fresh, ?_, ?_, ?_⟩
    . refine ⟨goal, hgoal, ?_⟩
      dsimp only
      rw [Plan.get_setNode, if_pos hgoalNode.symm]
    . intro spec hspec
      rcases hnew spec hspec with ⟨node, hget, hself, hget'⟩
      rw [hadded.new spec hspec] at hget
      cases hget
      refine ⟨hself, ?_⟩
      dsimp only
      rw [Plan.get_setNode, if_neg]
      . exact hget'
      . dsimp only
        rw [hgoalNode]
        intro heq
        apply hgoalKey
        rw [← heq]
        exact List.mem_map_of_mem hspec
    . intro id hid' hne
      dsimp only
      rw [Plan.get_setNode, if_neg, hold _ hid', hadded.old _ hid']
      dsimp only
      rw [hgoalNode]
      exact hne

end Append

section Repair

variable {plan : Plan} {node : PlanNode}

@[simp]
theorem get_mapNodes {f : PlanNode → PlanNode} {hf : ∀ node, (f node).id = node.id} (id : String)
    : (plan.mapNodes f hf).nodes.get id = (plan.nodes.get id).map f := by
  apply Dict.get_mapValues

theorem mem_keys_mapNodes {f : PlanNode → PlanNode} {hf : ∀ node, (f node).id = node.id} {id : String}
    : id ∈ (plan.mapNodes f hf).nodes.keys ↔ id ∈ plan.nodes.keys := by
  rw [Dict.mem_keys, Dict.mem_keys]
  simp

theorem repairIterationNode_cases (plan : Plan) (node : PlanNode)
    : repairIterationNode plan node = node ∨
      1 < node.iterationIndex ∧ node.isRunnable ∧
      repairIterationNode plan node
        =
      { node with
        dependsOn := desiredDependencies
          (orderedIterationNodes (iterationNodes plan node.iterationIndex)) node
        metadata := withAll node.metadata [
          ("iteration_phase", .str node.iterationPhase.toText),
          ("scrum_artifact", .str node.iterationPhase.scrumArtifact)
        ]
        id_notMem := Finset.notMem_erase _ _ } := by
  unfold repairIterationNode repairedNode
  dsimp only
  split
  . next h =>
    split
    . exact .inl rfl
    . split
      . exact .inl rfl
      . exact .inr ⟨h.2.1, h.1, rfl⟩
  . exact .inl rfl

structure SameNode (node node' : PlanNode) : Prop where
  id : node'.id = node.id
  planId : node'.planId = node.planId
  parentId : node'.parentId = node.parentId
  kind : node'.kind = node.kind
  featureCheckpoint : node'.featureCheckpoint = node.featureCheckpoint
  intent : node'.intent = node.intent
  execution : node'.execution = node.execution
  currentAttemptId : node'.currentAttemptId = node.currentAttemptId
  createdAt : node'.createdAt = node.createdAt
  metadata : ∀ key, key ≠ "iteration_phase" → key ≠ "scrum_artifact" →
    node'.metadata.get key = node.metadata.get key
  iterationPhase : node'.iterationPhase = node.iterationPhase

theorem sameNode_repairIterationNode (plan : Plan) (node : PlanNode)
    : SameNode node (repairIterationNode plan node) := by
  cases repairIterationNode_cases plan node with
  | inl hsame =>
    rw [hsame]
    exact ⟨rfl, rfl, rfl, rfl, rfl, rfl, rfl, rfl, rfl, fun _ _ _ => rfl, rfl⟩
  | inr hchanged =>
    rw [hchanged.2.2]
    refine ⟨rfl, rfl, rfl, rfl, rfl, rfl, rfl, rfl, rfl, ?_, ?_⟩
    . intro key hphase hartifact
      apply get_withAll_of_notMem
      simp [hphase, hartifact]
    . simp [PlanNode.iterationPhase, PlanNode.text, withAll, Dict.get_set, Value.asStr]

theorem SameNode.iterationIndex {node' : PlanNode} (h : SameNode node node')
    : node'.iterationIndex = node.iterationIndex := by
  unfold PlanNode.iterationIndex
  rw [h.metadata _ (by decide) (by decide)]

theorem SameNode.sequence {node' : PlanNode} (h : SameNode node node')
    : node'.sequence = node.sequence := by
  unfold PlanNode.sequence PlanNode.text
  rw [h.metadata _ (by decide) (by decide), h.featureCheckpoint]

theorem SameNode.isRunnable {node' : PlanNode} (h : SameNode node node')
    : node'.isRunnable = node.isRunnable := by
  unfold PlanNode.isRunnable
  rw [h.kind]

theorem get_repair (id : String)
    : (repairPendingIterationPhaseBarriers plan).nodes.get id
        =
      (plan.nodes.get id).map (repairIterationNode plan) := by
  apply get_mapNodes

theorem mem_phaseBarrierDependencies {phase : Phase} {nodesByPhase : Phase → List String} {id : String}
    : id ∈ phaseBarrierDependencies phase nodesByPhase
        ↔
      ∃ prior : Phase, prior.index < phase.index ∧ id ∈ nodesByPhase prior := by
  unfold phaseBarrierDependencies
  rw [List.mem_flatMap]
  have hmem : ∀ prior : Phase, prior ∈ Phase.all.take phase.index ↔ prior.index < phase.index := by
    intro prior
    cases prior <;> cases phase <;> decide
  simp only [hmem]

end Repair

section NewNodes

variable {plan : Plan} {nextIteration now : Nat} {newId : Nat → String}
  {tasks : List IterationNextTask} {spec : TaskSpec}

theorem iterationIndex_iterationNode (h : 0 < nextIteration)
    : (iterationNode plan nextIteration now spec).iterationIndex = nextIteration := by
  simp [PlanNode.iterationIndex, positiveInt, iterationNode, withAll, plannerNodeMetadata,
    Dict.get_set, Value.asInt, h]

theorem mem_taskSpecs
    : spec ∈ taskSpecs newId tasks ↔ ∃ i task, tasks[i]? = some task ∧ spec = taskSpec newId tasks i task := by
  unfold taskSpecs
  simp only [List.mem_map, List.mem_zipIdx_iff_getElem?, Prod.exists]
  constructor
  . intro h
    rcases h with ⟨task, i, hget, rfl⟩
    exact ⟨i, task, hget, rfl⟩
  . intro h
    rcases h with ⟨i, task, hget, rfl⟩
    exact ⟨task, i, hget, rfl⟩

theorem sequence_of_featureCheckpoint {node : PlanNode} {n : Nat}
    (h : node.featureCheckpoint = some { sequence := n }) (hn : 0 < n)
    : node.sequence = n := by
  unfold PlanNode.sequence
  rw [h]
  simp [Option.filter, hn]

theorem sequence_iterationNode (hspec : spec ∈ taskSpecs newId tasks)
    : (iterationNode plan nextIteration now spec).sequence = spec.sequence := by
  rcases mem_taskSpecs.mp hspec with ⟨i, task, _, rfl⟩
  apply sequence_of_featureCheckpoint rfl
  simp [taskSpec]

theorem mem_taskDependencies_of_phase {spec' : TaskSpec} (hspec' : spec' ∈ taskSpecs newId tasks)
    (hphase : spec'.phase.index < spec.phase.index)
    : spec'.nodeId ∈ taskDependencies newId tasks spec := by
  unfold taskDependencies
  rw [List.mem_toFinset, List.mem_append]
  right
  rw [mem_phaseBarrierDependencies]
  refine ⟨spec'.phase, hphase, ?_⟩
  unfold nodesByPhase
  rw [List.mem_map]
  exact ⟨spec', List.mem_filter.mpr ⟨hspec', by simp⟩, rfl⟩

end NewNodes

end Workspace
end MemStack
