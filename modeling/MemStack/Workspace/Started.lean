import MemStack.Workspace.Replan

/-!
This module contains what a plan is like when the planner returns it: one task after the other under the
goal, each depending on tasks before it.
-/

namespace MemStack
namespace Workspace

open Checked LLMGoalPlanner

structure DrawnId where
  value : String
  stripped : Text.strip value = value

structure StartedTask (plan : Plan) (pos : String → ℚ) (id : String) (node : PlanNode) : Prop where
  parentId : node.parentId = some plan.goalId
  iterationIndex : node.iterationIndex = 1
  phased : ∃ phase : Phase, node.text "iteration_phase" = some phase.toText
  blocked : node.repairBlockingDependencyId = none
  repairFor : node.text "repair_for_node_id" = none
  signature : node.text "repair_failure_signature" = none
  edges : ∀ dep ∈ node.dependsOn, dep ∈ plan.nodes.keys ∧ pos dep < pos id

structure Started (plan : Plan) (pos : String → ℚ) : Prop where
  goal : ∃ goal, plan.nodes.get plan.goalId = some goal ∧ goal.kind = .goal ∧ goal.dependsOn = ∅
  stripped : ∀ id ∈ plan.nodes.keys, Text.strip id = id
  task : ∀ id node, plan.nodes.get id = some node → id ≠ plan.goalId → StartedTask plan pos id node

variable {plan plan' : Plan} {pos : String → ℚ} {node : PlanNode}

theorem Started.layered {k : PhaseKey} (h : Started plan pos)
    (hkey : ∀ id node, plan.nodes.get id = some node → ∀ dep ∈ node.dependsOn, ∀ node',
      plan.nodes.get dep = some node' → k.key 1 node'.iterationPhase ≤ k.key 1 node.iterationPhase)
    : Layered k pos plan := by
  rcases h.goal with ⟨goal, hgoal, hkind, hdeps⟩
  have hgoalNode : ∀ node, plan.nodes.get plan.goalId = some node → node = goal := by
    intro node hget
    apply Option.some.inj
    rw [← hget, hgoal]
  refine ⟨⟨goal, hgoal, hkind⟩, ?_, h.stripped, ?_, ?_, ?_, ?_⟩
  . intro id node hget p hp
    by_cases hid : id = plan.goalId
    . rw [hgoalNode node (hid ▸ hget), goal.goal_iff.mp hkind] at hp
      cases hp
    . rw [(h.task id node hget hid).parentId] at hp
      cases hp
      apply Plan.mem_keys_of_get hgoal
  . intro id node hget hid
    apply (h.task id node hget hid).phased
  . intro id node hget dep hdep
    by_cases hid : id = plan.goalId
    . rw [hgoalNode node (hid ▸ hget), hdeps] at hdep
      cases hdep
    . have htask := h.task id node hget hid
      have hedge := htask.edges dep hdep
      rcases Dict.mem_keys.mp hedge.1 with ⟨node', hget'⟩
      refine ⟨hedge.1, ?_⟩
      rw [depth_eq hget, depth_eq hget', if_neg hid]
      apply Prod.Lex.toLex_lt_toLex.mpr
      by_cases hdepGoal : dep = plan.goalId
      . left
        rw [if_pos hdepGoal]
        apply Nat.zero_lt_one
      . right
        refine ⟨if_neg hdepGoal, ?_⟩
        apply Prod.Lex.toLex_lt_toLex.mpr
        have hle : node'.layer k ≤ node.layer k := by
          unfold PlanNode.layer
          rw [htask.iterationIndex, (h.task dep node' hget' hdepGoal).iterationIndex]
          apply hkey id node hget dep hdep node' hget'
        cases lt_or_eq_of_le hle with
        | inl hlt => exact .inl hlt
        | inr heq => exact .inr ⟨heq, hedge.2⟩
  . intro id node hget hid dep hdep
    rw [(h.task id node hget hid).blocked] at hdep
    cases hdep
  . intro id node hget hid target htarget
    rw [(h.task id node hget hid).repairFor] at htarget
    cases htarget

structure NewTask (plan : Plan) (node : PlanNode) : Prop where
  fresh : node.id ∉ plan.nodes.keys
  stripped : Text.strip node.id = node.id
  parentId : node.parentId = some plan.goalId
  iterationIndex : node.iterationIndex = 1
  phased : ∃ phase : Phase, node.text "iteration_phase" = some phase.toText
  blocked : node.repairBlockingDependencyId = none
  repairFor : node.text "repair_for_node_id" = none
  signature : node.text "repair_failure_signature" = none
  edges : ∀ dep ∈ node.dependsOn, dep ∈ plan.nodes.keys

theorem Started.addTask (h : Started plan pos) (hnew : NewTask plan node)
    : ∃ pos', Started (plan.setNode node) pos' := by
  have hroom := Order.exists_between_finsets (node.dependsOn.image pos) ∅ (by simp)
  rcases hroom with ⟨q, hlo, _⟩
  have hold : ∀ id ∈ plan.nodes.keys, id ≠ node.id := by
    rintro id hid rfl
    apply hnew.fresh hid
  have hpos : ∀ id ∈ plan.nodes.keys, Function.update pos node.id q id = pos id := by
    intro id hid
    apply Function.update_of_ne (hold id hid)
  rcases h.goal with ⟨goal, hgoal, hkind, hdeps⟩
  refine ⟨Function.update pos node.id q, ?_, ?_, ?_⟩
  . refine ⟨goal, ?_, hkind, hdeps⟩
    rw [Plan.setNode_goalId, Plan.get_setNode, if_neg (hold _ (Plan.mem_keys_of_get hgoal)), hgoal]
  . intro id hid
    cases Plan.mem_keys_setNode.mp hid with
    | inl heq =>
      rw [heq]
      exact hnew.stripped
    | inr hin => apply h.stripped id hin
  . intro id node' hget' hid
    rw [Plan.get_setNode] at hget'
    split at hget'
    . next heq =>
      cases hget'
      refine ⟨hnew.parentId, hnew.iterationIndex, hnew.phased, hnew.blocked, hnew.repairFor,
        hnew.signature, ?_⟩
      intro dep hdep
      have hin := hnew.edges dep hdep
      refine ⟨Plan.mem_keys_setNode.mpr (.inr hin), ?_⟩
      rw [heq, hpos dep hin, Function.update_self]
      apply hlo
      apply Finset.mem_image_of_mem pos hdep
    . have htask := h.task id node' hget' hid
      refine ⟨htask.parentId, htask.iterationIndex, htask.phased, htask.blocked, htask.repairFor,
        htask.signature, ?_⟩
      intro dep hdep
      have hedge := htask.edges dep hdep
      refine ⟨Plan.mem_keys_setNode.mpr (.inr hedge.1), ?_⟩
      rw [hpos dep hedge.1, hpos id (Plan.mem_keys_of_get hget')]
      exact hedge.2

section Tasks

variable {planId : String} {newId : Nat → DrawnId} {now : Nat} {goal : GoalSpec}
  {subtasks : List SubTask}

theorem taskNode_facts (planId : String) (newId : Nat → String) (now : Nat) (id : String)
    (sequence : Nat) (title description : String) (priority : Int)
    : (taskNode planId newId now id sequence title description priority).iterationIndex = 1 ∧
      (∃ phase : Phase, (taskNode planId newId now id sequence title description priority).text
        "iteration_phase" = some phase.toText) ∧
      (taskNode planId newId now id sequence title description priority).repairBlockingDependencyId
        = none ∧
      (taskNode planId newId now id sequence title description priority).text "repair_for_node_id"
        = none ∧
      (taskNode planId newId now id sequence title description priority).text
        "repair_failure_signature" = none := by
  refine ⟨?_, ⟨iterationPhaseForSequence (some sequence), ?_⟩, ?_, ?_, ?_⟩ <;>
  . simp [PlanNode.iterationIndex, PlanNode.repairBlockingDependencyId, PlanNode.text, positiveInt,
      taskNode, withAll, plannerNodeMetadata, Dict.get_set, Value.asInt, Value.asStr]

theorem setNode_of_addNode {node : PlanNode} (h : plan.addNode node = .ok plan')
    : plan' = plan.setNode node := by
  unfold Plan.addNode at h
  split at h
  . simp only [bind_eq_ok, ensure_eq_ok, exists_const] at h
    cases h.2.2.2.2.2
    rfl
  . simp only [bind_eq_ok, ensure_eq_ok, exists_const] at h
    cases h.2.2.2.2
    rfl

theorem idMap_eq_some {id nodeId : String}
    (h : (LLMGoalPlanner.idMap (fun n => (newId n).value) subtasks).get id = some nodeId)
    : Text.strip nodeId = nodeId := by
  have hfold (l : List (SubTask × Nat)) (d : Dict String String)
      (hd : ∀ nodeId, d.get id = some nodeId → Text.strip nodeId = nodeId)
      : ∀ nodeId, (l.foldl (fun ids t => ids.set t.1.id (newId (t.2 + 1)).value) d).get id = some nodeId →
        Text.strip nodeId = nodeId := by
    induction l generalizing d with
    | nil => exact hd
    | cons t l ih =>
      apply ih
      intro nodeId hget
      rw [Dict.get_set] at hget
      split at hget
      . cases hget
        apply (newId _).stripped
      . apply hd nodeId hget
  unfold LLMGoalPlanner.idMap at h
  apply hfold _ _ _ _ h
  intro nodeId hget
  rw [Dict.get_empty] at hget
  cases hget

theorem strip_nodeIdOf {subtask : SubTask}
    : Text.strip (nodeIdOf (fun n => (newId n).value) subtasks subtask)
        =
      nodeIdOf (fun n => (newId n).value) subtasks subtask := by
  unfold nodeIdOf
  cases h : (LLMGoalPlanner.idMap (fun n => (newId n).value) subtasks).get subtask.id with
  | none => decide
  | some nodeId => apply idMap_eq_some h

theorem newTask_of_addSubtask {t : SubTask × Nat} (hgoal : plan.goalId = (newId 0).value)
    (h : addSubtask planId (fun n => (newId n).value) now subtasks plan t = .ok plan')
    : ∃ node, NewTask plan node ∧ plan' = plan.setNode node := by
  unfold addSubtask at h
  simp only [bind_eq_ok, postInit_eq_ok, withDependsOn_eq_ok] at h
  rcases h with ⟨_, ⟨_, rfl⟩, _, ⟨hself, rfl⟩, hadd⟩
  rw [Plan.addNode_eq_ok PlanNodeKind.noConfusion] at hadd
  rcases hadd with ⟨hfresh, _, _, hdeps, rfl⟩
  rw [Plan.missingDeps_eq_empty] at hdeps
  have hfacts := taskNode_facts planId (fun n => (newId n).value) now
    (nodeIdOf (fun n => (newId n).value) subtasks t.1) (t.2 + 1)
    (if Text.take 120 t.1.description = "" then s!"Task {t.1.id}" else Text.take 120 t.1.description)
    t.1.description t.1.priority
  refine ⟨_, ⟨hfresh, strip_nodeIdOf, ?_, hfacts.1, hfacts.2.1, hfacts.2.2.1, hfacts.2.2.2.1,
    hfacts.2.2.2.2, hdeps⟩, rfl⟩
  rw [hgoal]
  rfl

theorem Started.addSubtasks {ts : List (SubTask × Nat)} (h : Started plan pos)
    (hgoal : plan.goalId = (newId 0).value)
    (hadd : addSubtasks planId (fun n => (newId n).value) now subtasks ts plan = .ok plan')
    : ∃ pos', Started plan' pos' := by
  induction ts generalizing plan pos with
  | nil =>
    cases hadd
    exact ⟨pos, h⟩
  | cons t ts ih =>
    simp only [LLMGoalPlanner.addSubtasks, bind_eq_ok] at hadd
    rcases hadd with ⟨plan₁, hfirst, hrest⟩
    rcases newTask_of_addSubtask hgoal hfirst with ⟨node, hnew, rfl⟩
    rcases h.addTask hnew with ⟨pos₁, hstarted⟩
    apply ih hstarted hgoal hrest

theorem started_goal {goalNode : PlanNode} (hkind : goalNode.kind = .goal)
    (hdeps : goalNode.dependsOn = ∅) (hid : goalNode.id = (newId 0).value) (hplan : plan.nodes = .empty)
    (hgoal : plan.goalId = (newId 0).value) (pos : String → ℚ)
    : Started (plan.setNode goalNode) pos := by
  have hget : ∀ id, (plan.setNode goalNode).nodes.get id
      =
    if id = goalNode.id then some goalNode else none := by
    intro id
    rw [Plan.get_setNode, hplan, Dict.get_empty]
  refine ⟨⟨goalNode, ?_, hkind, hdeps⟩, ?_, ?_⟩
  . rw [hget, if_pos]
    rw [Plan.setNode_goalId, hgoal, hid]
  . intro id hmem
    rcases Dict.mem_keys.mp hmem with ⟨node, hnode⟩
    rw [hget] at hnode
    split at hnode
    . next heq =>
      rw [heq, hid]
      apply (newId 0).stripped
    . cases hnode
  . intro id node hnode hne
    rw [hget, if_neg] at hnode
    . cases hnode
    . rw [hid, ← hgoal]
      exact hne

theorem Started.replaceGoal {goalNode : PlanNode} (h : Started plan pos) (hkind : goalNode.kind = .goal)
    (hdeps : goalNode.dependsOn = ∅) (hid : goalNode.id = plan.goalId)
    : Started (plan.setNode goalNode) pos := by
  rcases h.goal with ⟨goal, hgoal, _⟩
  have hgoalKey := Plan.mem_keys_of_get hgoal
  have hkeys : ∀ id, id ∈ (plan.setNode goalNode).nodes.keys ↔ id ∈ plan.nodes.keys := by
    intro id
    rw [Plan.mem_keys_setNode, hid]
    apply or_iff_right_of_imp
    rintro rfl
    exact hgoalKey
  refine ⟨⟨goalNode, ?_, hkind, hdeps⟩, ?_, ?_⟩
  . rw [Plan.setNode_goalId, Plan.get_setNode, if_pos hid.symm]
  . intro id hmem
    apply h.stripped id ((hkeys id).mp hmem)
  . intro id node hget hne
    rw [Plan.get_setNode, if_neg (hid ▸ hne)] at hget
    have htask := h.task id node hget hne
    refine ⟨htask.parentId, htask.iterationIndex, htask.phased, htask.blocked, htask.repairFor,
      htask.signature, ?_⟩
    intro dep hdep
    rw [hkeys]
    apply htask.edges dep hdep

end Tasks

theorem Started.withPlanStatus (h : Started plan pos) (status : PlanStatus)
    : Started { plan with status } pos := by
  refine ⟨h.goal, h.stripped, ?_⟩
  intro id node hget hne
  have htask := h.task id node hget hne
  exact ⟨htask.parentId, htask.iterationIndex, htask.phased, htask.blocked, htask.repairFor,
    htask.signature, htask.edges⟩

theorem started_plan {planId : String} {newId : Nat → DrawnId} {now : Nat} {goal : GoalSpec}
    {conversationContext : Option String} {decomposition : Decomposition}
    (h : LLMGoalPlanner.plan planId (fun n => (newId n).value) now goal conversationContext decomposition
      = .ok plan)
    : ∃ pos, Started plan pos := by
  unfold LLMGoalPlanner.plan at h
  simp only [bind_eq_ok, postInit_eq_ok] at h
  rcases h with ⟨goalNode, ⟨_, hgoalNode⟩, plan₁, hadd, h⟩
  have hkind : goalNode.kind = .goal := by
    rw [hgoalNode]
    rfl
  have hdeps : goalNode.dependsOn = ∅ := by
    rw [hgoalNode]
    rfl
  have hid : goalNode.id = (newId 0).value := by
    rw [hgoalNode]
    rfl
  have hgoal : plan₁.goalId = (newId 0).value := by
    rw [setNode_of_addNode hadd]
    rfl
  have hstarted : Started plan₁ 0 := by
    rw [setNode_of_addNode hadd]
    apply started_goal hkind hdeps hid rfl rfl
  clear hgoalNode hadd
  cases decomposition with
  | suspended metadata =>
    simp only [bind_eq_ok, Plan.replaceNode_eq_ok] at h
    simp only [pure, Except.pure, Except.ok.injEq] at h
    rcases h with ⟨plan₂, ⟨_, rfl⟩, rfl⟩
    refine ⟨0, (hstarted.replaceGoal ?_ ?_ ?_).withPlanStatus .suspended⟩
    . exact hkind
    . exact hdeps
    . rw [hgoal]
      exact hid
  | subtasks metadata subtasks =>
    simp only [bind_eq_ok] at h
    rcases h with ⟨plan₂, hreplace, h⟩
    have hready : Started plan₂ 0 ∧ plan₂.goalId = (newId 0).value := by
      unfold withPlanningMetadata at hreplace
      split at hreplace
      . cases hreplace
        exact ⟨hstarted, hgoal⟩
      . rw [Plan.replaceNode_eq_ok] at hreplace
        rw [hreplace.2]
        refine ⟨hstarted.replaceGoal ?_ ?_ ?_, hgoal⟩
        . exact hkind
        . exact hdeps
        . rw [hgoal]
          exact hid
    cases subtasks with
    | cons subtask subtasks => apply hready.1.addSubtasks hready.2 h
    | nil =>
      simp only [bind_eq_ok, postInit_eq_ok] at h
      rcases h with ⟨_, ⟨_, rfl⟩, hadd⟩
      rw [Plan.addNode_eq_ok PlanNodeKind.noConfusion] at hadd
      rcases hadd with ⟨hfresh, _, _, hedges, rfl⟩
      rw [Plan.missingDeps_eq_empty] at hedges
      have hfacts := taskNode_facts planId (fun n => (newId n).value) now (newId 1).value 1 goal.title
        goal.description 0
      refine hready.1.addTask ⟨hfresh, (newId 1).stripped, ?_, hfacts.1, hfacts.2.1, hfacts.2.2.1,
        hfacts.2.2.2.1, hfacts.2.2.2.2, hedges⟩
      rw [hready.2]
      rfl

end Workspace
end MemStack
