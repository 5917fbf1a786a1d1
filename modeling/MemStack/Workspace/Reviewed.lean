import MemStack.Workspace.Accepted

/-!
This module contains how often an iteration is reviewed over a run of ticks, and how far the iterations
of a plan get.
-/

namespace MemStack
namespace Workspace

open Checked

variable {config : LoopConfig} {limit : Nat} {log : List Nat} {plan plan' : Plan}
  {node node' goal : PlanNode}

section Loop

theorem get_loopOf (loop : Metadata) (key : String) : (loopOf loop.entries).get key = loop.get key := by
  have hupdate : loopOf loop.entries = Dict.empty.update loop := rfl
  rw [hupdate, Dict.get_update, Dict.get_empty, Option.or_none]

structure LoopWithin (config : LoopConfig) (limit : Nat) (loop : Metadata) : Prop where
  max : maxIterations config loop ≤ limit
  current : (positiveInt (loop.get "current_iteration")).getD 1 ≤ limit

theorem LoopWithin.congr {loop loop' : Metadata} (h : LoopWithin config limit loop)
    (hmax : loop'.get "max_iterations" = loop.get "max_iterations")
    (hcurrent : loop'.get "current_iteration" = loop.get "current_iteration")
    : LoopWithin config limit loop' := by
  refine ⟨?_, ?_⟩
  . unfold maxIterations
    rw [hmax]
    apply h.max
  . rw [hcurrent]
    apply h.current

theorem one_le_maxIterations (config : LoopConfig) (loop : Metadata) : 1 ≤ maxIterations config loop := by
  unfold maxIterations
  omega

end Loop

section Edits

structure SameSprint (node node' : PlanNode) : Prop where
  kind : node'.kind = node.kind
  iterationIndex : node'.iterationIndex = node.iterationIndex
  loop : node'.metadata.get "iteration_loop" = node.metadata.get "iteration_loop"

theorem SameSprint.goalIterationLoopMetadata (h : SameSprint node node')
    : goalIterationLoopMetadata node' = goalIterationLoopMetadata node := by
  unfold Workspace.goalIterationLoopMetadata
  rw [h.loop]

theorem SameSprint.isRunnable (h : SameSprint node node') : node'.isRunnable = node.isRunnable := by
  unfold PlanNode.isRunnable
  rw [h.kind]

def NodesWithin (limit : Nat) (plan : Plan) : Prop :=
  ∀ id node, plan.nodes.get id = some node → node.kind ≠ .goal → node.iterationIndex ≤ limit

structure InSprints (config : LoopConfig) (limit : Nat) (log : List Nat) (plan : Plan) : Prop where
  nodes : NodesWithin limit plan
  goal : ∃ goal, plan.nodes.get plan.goalId = some goal ∧
    LoopWithin config limit (goalIterationLoopMetadata goal)
  passed : ∀ i ∈ log, ∃ node ∈ runnableNodes plan, i < node.iterationIndex

theorem mem_runnableNodes : node ∈ runnableNodes plan ↔ plan.nodes.get node.id = some node ∧ node.isRunnable := by
  unfold runnableNodes
  rw [List.mem_filter, Plan.mem_values]

structure SprintsKept (limit : Nat) (plan plan' : Plan) : Prop where
  goalId : plan'.goalId = plan.goalId
  old : ∀ id node, plan.nodes.get id = some node →
    ∃ node', plan'.nodes.get id = some node' ∧ SameSprint node node'
  new : ∀ id node', plan'.nodes.get id = some node' →
    (∃ node, plan.nodes.get id = some node) ∨ node'.iterationIndex ≤ limit

theorem SprintsKept.refl (limit : Nat) (plan : Plan) : SprintsKept limit plan plan := by
  refine ⟨rfl, ?_, ?_⟩
  . intro id node hget
    exact ⟨node, hget, rfl, rfl, rfl⟩
  . intro id node hget
    exact .inl ⟨node, hget⟩

theorem SprintsKept.nodes (h : SprintsKept limit plan plan') (hnodes : NodesWithin limit plan)
    : NodesWithin limit plan' := by
  intro id node' hget' hkind
  cases h.new id node' hget' with
  | inl hold =>
    rcases hold with ⟨node, hget⟩
    rcases h.old id node hget with ⟨node₂, hget₂, hsame⟩
    rw [hget'] at hget₂
    cases hget₂
    rw [hsame.iterationIndex]
    apply hnodes id node hget
    rw [← hsame.kind]
    exact hkind
  | inr hle => exact hle

theorem SprintsKept.inSprints (h : SprintsKept limit plan plan') (hplan : InSprints config limit log plan)
    : InSprints config limit log plan' := by
  refine ⟨h.nodes hplan.nodes, ?_, ?_⟩
  . rcases hplan.goal with ⟨goal, hgoal, hloop⟩
    rcases h.old _ goal hgoal with ⟨goal', hgoal', hsame⟩
    refine ⟨goal', ?_, ?_⟩
    . rw [h.goalId]
      exact hgoal'
    . rw [hsame.goalIterationLoopMetadata]
      exact hloop
  . intro i hi
    rcases hplan.passed i hi with ⟨node, hnode, hlt⟩
    rw [mem_runnableNodes] at hnode
    rcases h.old _ node hnode.1 with ⟨node', hget', hsame⟩
    refine ⟨node', ?_, ?_⟩
    . rw [mem_runnableNodes, plan'.keyed _ node' hget', hsame.isRunnable]
      exact ⟨hget', hnode.2⟩
    . rw [hsame.iterationIndex]
      exact hlt

theorem sprintsKept_setNode (hget : plan.nodes.get node.id = some node) (hsame : SameSprint node node')
    (hid : node'.id = node.id)
    : SprintsKept limit plan (plan.setNode node') := by
  refine ⟨rfl, ?_, ?_⟩
  . intro id node₂ hget₂
    rw [Plan.get_setNode]
    split
    . next heq =>
      rw [heq, hid, hget] at hget₂
      cases hget₂
      exact ⟨node', rfl, hsame⟩
    . exact ⟨node₂, hget₂, rfl, rfl, rfl⟩
  . intro id node₂ hget₂
    rw [Plan.get_setNode] at hget₂
    split at hget₂
    . next heq =>
      rw [heq, hid]
      exact .inl ⟨node, hget⟩
    . exact .inl ⟨node₂, hget₂⟩

theorem sprintsKept_addNode (hfresh : node.id ∉ plan.nodes.keys) (hle : node.iterationIndex ≤ limit)
    : SprintsKept limit plan (plan.setNode node) := by
  refine ⟨rfl, ?_, ?_⟩
  . intro id node₂ hget₂
    rw [Plan.get_setNode, if_neg]
    . exact ⟨node₂, hget₂, rfl, rfl, rfl⟩
    . rintro rfl
      exact hfresh (Plan.mem_keys_of_get hget₂)
  . intro id node₂ hget₂
    rw [Plan.get_setNode] at hget₂
    split at hget₂
    . cases hget₂
      exact .inr hle
    . exact .inl ⟨node₂, hget₂⟩

theorem sameSprint_of_get (hkind : node'.kind = node.kind)
    (hget : ∀ key ∈ ["iteration_index", "iteration_loop"], node'.metadata.get key = node.metadata.get key)
    : SameSprint node node' := by
  refine ⟨hkind, ?_, hget _ (by simp)⟩
  unfold PlanNode.iterationIndex
  rw [hget _ (by simp)]

theorem sprintsKept_updateNode {id : String} {f : PlanNode → PlanNode}
    (hf : ∀ node, (f node).id = node.id) (hsame : ∀ node, SameSprint node (f node))
    : SprintsKept limit plan (plan.updateNode id f) := by
  unfold Plan.updateNode
  cases hget : plan.nodes.get id with
  | none => apply SprintsKept.refl
  | some node =>
    apply sprintsKept_setNode _ (hsame node) (hf node)
    rw [plan.keyed id node hget]
    exact hget

theorem sprintsKept_repair : SprintsKept limit plan (repairPendingIterationPhaseBarriers plan) := by
  refine ⟨rfl, ?_, ?_⟩
  . intro id node hget
    refine ⟨repairIterationNode plan node, ?_, ?_⟩
    . rw [get_repair, hget]
      rfl
    . have hsame := sameNode_repairIterationNode plan node
      apply sameSprint_of_get hsame.kind
      intro key hkey
      apply hsame.metadata <;>
      . rintro rfl
        simp at hkey
  . intro id node' hget'
    rw [get_repair, Option.map_eq_some_iff] at hget'
    rcases hget' with ⟨node, hget, _⟩
    exact .inl ⟨node, hget⟩

theorem sameSprint_resetNode {trigger : ReplanTrigger} {result : Option String}
    (h : LLMGoalPlanner.resetNode node trigger result = .ok node')
    : SameSprint node node' := by
  cases result with
  | none =>
    rw [resetNode_none] at h
    cases h
    exact ⟨rfl, rfl, rfl⟩
  | some repairId =>
    rw [resetNode_some_eq_ok] at h
    rcases h with ⟨_, rfl⟩
    apply sameSprint_of_get
    . rfl
    . intro key hkey
      apply get_withAll_blockedByRepair
      simp only [List.mem_cons, List.not_mem_nil, or_false] at hkey
      cases hkey with
      | inl heq => simp [heq, LLMGoalPlanner.blockedByRepair]
      | inr heq => simp [heq, LLMGoalPlanner.blockedByRepair]

theorem InSprints.repairIterationIndex_le (h : InSprints config limit log plan)
    (hget : plan.nodes.get node.id = some node) (hkind : node.kind ≠ .goal)
    : LLMGoalPlanner.repairIterationIndex plan node ≤ limit := by
  rcases h.goal with ⟨goal, hgoal, hloop⟩
  have hcurrent := hloop.current
  unfold LLMGoalPlanner.repairIterationIndex
  rw [hgoal, Option.map_some, Option.getD_some]
  dsimp only
  cases hindex : positiveInt ((goalIterationLoopMetadata goal).get "current_iteration") with
  | none => apply h.nodes node.id node hget hkind
  | some n =>
    rw [hindex] at hcurrent
    exact hcurrent

theorem RepairNode.kind_ne_goal {repair : PlanNode} {repairId : String}
    (h : RepairNode plan node repair repairId)
    : node.kind ≠ .goal := by
  rw [Ne, node.goal_iff, ← h.parentId, ← repair.goal_iff, h.kind]
  decide

theorem InSprints.replan {trigger : ReplanTrigger} {repairId : String} {now : Nat}
    (h : InSprints config limit log plan)
    : InSprints config limit log (LLMGoalPlanner.replan plan trigger repairId now).1 := by
  rcases replan_cases plan trigger repairId now with hsame | ⟨node, plan₁, result, htarget, hensure,
    hget₁, hresult⟩
  . rw [hsame]
    exact h
  . have hready : InSprints config limit log plan₁ := by
      rcases ensureRepairNode_cases hensure with ⟨rfl, _⟩ | ⟨_, _, rfl, _⟩ |
        ⟨repair, _, _, hrepair, hfresh, rfl, _⟩
      . exact h
      . exact h
      . apply SprintsKept.inSprints _ h
        apply sprintsKept_addNode
        . rw [hrepair.id]
          exact hfresh
        . rw [hrepair.iterationIndex]
          apply h.repairIterationIndex_le (get_of_bind_eq_some htarget) hrepair.kind_ne_goal
    rcases hresult with heq | ⟨node', hreset, heq⟩
    . rw [heq]
      exact hready
    . rw [heq]
      apply SprintsKept.inSprints _ hready
      apply sprintsKept_setNode hget₁ (sameSprint_resetNode hreset) (sameRole_resetNode hreset).2

theorem InSprints.edit {edit : PlanEdit} (h : InSprints config limit log plan) (hedit : ¬ edit.isAppend)
    : InSprints config limit log (edit.apply plan) := by
  cases edit with
  | replan trigger repairId now => apply h.replan
  | judge id value =>
    apply SprintsKept.inSprints _ h
    apply sprintsKept_updateNode (withJudgeMetadata_id value)
    intro node
    refine ⟨rfl, (sameRole_withJudgeMetadata value node).1.iterationIndex, ?_⟩
    apply get_withJudgeMetadata _ _ (by decide)
  | append newId now verdict nextIteration maxIterations => exact absurd rfl hedit
  | repairBarriers => apply sprintsKept_repair.inSprints h
  | status id value =>
    apply SprintsKept.inSprints _ h
    apply sprintsKept_updateNode (withStatus_id value)
    intro node
    exact ⟨rfl, rfl, rfl⟩

theorem InSprints.edited {edits : List PlanEdit} (h : InSprints config limit log plan)
    (hedits : ∀ edit ∈ edits, ¬ edit.isAppend)
    : InSprints config limit log (plan.edited edits) := by
  induction edits generalizing plan with
  | nil => exact h
  | cons edit edits ih =>
    rw [List.forall_mem_cons] at hedits
    apply ih (h.edit hedits.1) hedits.2

end Edits

section Completed

variable {reviewed : Option Nat} {status : PlanStatus} {updates : List (String × Value)} {current : Nat}

def Plan.isLive (plan : Plan) : Prop :=
  plan.status = .active ∨ plan.status = .draft

theorem le_foldl_max (l : List Nat) (n : Nat) : n ≤ l.foldl max n ∧ ∀ m ∈ l, m ≤ l.foldl max n := by
  induction l generalizing n with
  | nil => simp
  | cons m l ih =>
    rw [List.foldl_cons, List.forall_mem_cons]
    have hrest := ih (max n m)
    exact ⟨le_trans (le_max_left n m) hrest.1, le_trans (le_max_right n m) hrest.1, hrest.2⟩

theorem le_maxIteration {nodes : List PlanNode} (h : node ∈ nodes)
    : node.iterationIndex ≤ maxIteration nodes := by
  unfold maxIteration
  split
  . cases h
  . apply (le_foldl_max _ 0).2
    apply List.mem_map_of_mem h

theorem endLoop_eq (hgoal : plan.nodes.get plan.goalId = some goal)
    : endLoop plan reviewed status updates
        =
      { plan := { plan.setNode { goal with
          metadata := goal.metadata.set "iteration_loop"
            (.dict (withAll (goalIterationLoopMetadata goal) updates).entries) } with status }
        error := none
        reviewed } := by
  have hreplace := (@replaceGoalLoopMetadata_eq_ok plan _ status updates).mpr ⟨goal, hgoal, rfl⟩
  unfold endLoop
  rw [hreplace]
  rfl

structure Passed (config : LoopConfig) (limit : Nat) (log : List Nat) (completion : Completion) : Prop where
  later : ∀ i ∈ completion.reviewed, ∀ j ∈ log, j < i
  nodes : NodesWithin limit completion.plan
  live : completion.plan.isLive →
    InSprints config limit (log ++ completion.reviewed.toList) completion.plan

theorem InSprints.passed_self (h : InSprints config limit log plan) (error : Option String)
    : Passed config limit log { plan, error } := by
  refine ⟨by simp, h.nodes, ?_⟩
  intro _
  rw [Option.toList_none, List.append_nil]
  exact h

theorem InSprints.nodes_setGoal {loop : Value} (h : InSprints config limit log plan)
    (hgoal : plan.nodes.get plan.goalId = some goal)
    : NodesWithin limit (plan.setNode { goal with
        metadata := goal.metadata.set "iteration_loop" loop }) := by
  intro id node hget hkind
  rw [Plan.get_setNode] at hget
  split at hget
  . cases hget
    have hle := h.nodes _ goal hgoal hkind
    unfold PlanNode.iterationIndex at hle ⊢
    rw [Dict.get_set, if_neg (by decide)]
    exact hle
  . apply h.nodes id node hget hkind

theorem InSprints.passed_endLoop (h : InSprints config limit log plan)
    (hlater : ∀ i ∈ reviewed, ∀ j ∈ log, j < i) (hstatus : status = .suspended ∨ status = .completed)
    : Passed config limit log (endLoop plan reviewed status updates) := by
  rcases h.goal with ⟨goal, hgoal, _⟩
  rw [endLoop_eq hgoal]
  refine ⟨hlater, h.nodes_setGoal hgoal, ?_⟩
  intro hlive
  unfold Plan.isLive at hlive
  dsimp only at hlive
  cases hstatus with
  | inl heq => simp [heq] at hlive
  | inr heq => simp [heq] at hlive

theorem InSprints.passed_stopped (h : InSprints config limit log plan)
    : Passed config limit log { plan := { plan with status := .completed } } := by
  refine ⟨by simp, h.nodes, ?_⟩
  intro hlive
  simp [Plan.isLive] at hlive

theorem InSprints.lt_maxIteration (h : InSprints config limit log plan)
    : ∀ i ∈ log, i < maxIteration (runnableNodes plan) := by
  intro i hi
  rcases h.passed i hi with ⟨node, hnode, hlt⟩
  apply lt_of_lt_of_le hlt (le_maxIteration hnode)

theorem not_hasIterationNodes : ¬ hasIterationNodes plan (maxIteration (runnableNodes plan) + 1) := by
  unfold hasIterationNodes
  intro h
  rw [List.any_eq_true] at h
  rcases h with ⟨node, hnode, heq⟩
  have hle := le_maxIteration hnode
  simp only [decide_eq_true_eq] at heq
  omega

structure Answered (config : LoopConfig) (answer : Except String Review.Payload) : Prop where
  accepted : ∃ verdict, (answer.bind fun payload => Review.parseReviewResponse payload config.maxNextTasks)
    = .ok verdict ∧ (verdict.nextTasks.map (·.id)).Nodup

structure Fresh (newId : Nat → String) (plan : Plan) : Prop where
  injective : Function.Injective newId
  new : ∀ n, newId n ∉ plan.nodes.keys

theorem parsedTask_of_parseReviewResponse {payload : Review.Payload} {maxNextTasks : Nat}
    {verdict : IterationReviewVerdict} (h : Review.parseReviewResponse payload maxNextTasks = .ok verdict)
    : ∀ task ∈ verdict.nextTasks, ParsedTask task := by
  unfold Review.parseReviewResponse at h
  split at h
  . cases h
    simp [Review.needsHumanReview]
  . dsimp only at h
    split at h
    . cases h
      simp [Review.needsHumanReview]
    . rw [bind_eq_ok] at h
      rcases h with ⟨tasks, htasks, hreturn⟩
      split at hreturn
      . cases hreturn
        simp [Review.needsHumanReview]
      . cases hreturn
        apply parsedTask_of_parseNextTasks htasks

variable {newId : Nat → String} {now : Nat} {tasks : List IterationNextTask}
  {verdict : IterationReviewVerdict} {maxIterations : Nat}

theorem goalIterationLoopMetadata_of_set {loop : Metadata}
    (h : node.metadata = goal.metadata.set "iteration_loop" (.dict loop.entries))
    : goalIterationLoopMetadata node = loopOf loop.entries := by
  unfold goalIterationLoopMetadata
  rw [h, Dict.get_set, if_pos rfl]
  rfl

theorem positiveInt_int {n : Nat} (h : 0 < n) : positiveInt (some (.int n)) = some n := by
  simp [positiveInt, Value.asInt, h]

theorem loopWithin_nextSprint {loop : Metadata} (hmax : Workspace.maxIterations config loop ≤ limit)
    (hcurrent : current < Workspace.maxIterations config loop)
    : LoopWithin config limit (loopOf (withAll loop
        (nextSprintUpdates loop verdict (current + 1) (Workspace.maxIterations config loop))).entries) := by
  have hone := one_le_maxIterations config loop
  have hbase : max 1 config.configuredMax.toNat ≤ Workspace.maxIterations config loop := le_max_left _ _
  refine ⟨?_, ?_⟩
  . have hget : (withAll loop (nextSprintUpdates loop verdict (current + 1)
        (Workspace.maxIterations config loop))).get "max_iterations"
        = some (.int (Workspace.maxIterations config loop)) := by
      simp [nextSprintUpdates, withAll, Dict.get_set]
    rw [Workspace.maxIterations, get_loopOf, hget, positiveInt_int hone, Option.getD_some]
    apply le_trans (max_le hbase (le_refl _)) hmax
  . have hget : (withAll loop (nextSprintUpdates loop verdict (current + 1)
        (Workspace.maxIterations config loop))).get "current_iteration"
        = some (.int (current + 1 : Nat)) := by
      simp [nextSprintUpdates, withAll, Dict.get_set]
    rw [get_loopOf, hget, positiveInt_int (Nat.succ_pos current), Option.getD_some]
    omega

theorem InSprints.append (h : InSprints config limit log plan)
    (hgoal : plan.nodes.get plan.goalId = some goal)
    (hmax : Workspace.maxIterations config (goalIterationLoopMetadata goal) ≤ limit)
    (hcurrent : maxIteration (runnableNodes plan)
      < Workspace.maxIterations config (goalIterationLoopMetadata goal))
    (happended : Appended newId now verdict.nextTasks (maxIteration (runnableNodes plan) + 1)
      (fun loop => nextSprintUpdates loop verdict (maxIteration (runnableNodes plan) + 1)
        (Workspace.maxIterations config (goalIterationLoopMetadata goal))) plan plan')
    (htasks : verdict.nextTasks ≠ [])
    : InSprints config limit (log ++ [maxIteration (runnableNodes plan)]) plan' := by
  have hsprint := happended.sprintNodes
  have hgoals := happended.goal
  rw [hgoal] at hgoals
  refine ⟨?_, ?_, ?_⟩
  . intro id node' hget' hkind
    by_cases hid : id ∈ plan.nodes.keys
    . rcases hsprint.old id hid with ⟨node, node₂, hget, hget₂, hrole, _⟩
      rw [hget'] at hget₂
      cases hget₂
      rw [hrole.iterationIndex]
      apply h.nodes id node hget
      rw [← hrole.kind]
      exact hkind
    . rcases hsprint.new id node' hget' hid with ⟨_, _, _, hplanned, _⟩
      rw [hplanned.iterationIndex]
      omega
  . rcases hgoals with ⟨_, heq, hgoal'⟩
    cases heq
    have hset : ∃ goal', plan'.nodes.get plan'.goalId = some goal' ∧
        goal'.metadata = goal.metadata.set "iteration_loop" (.dict
          (withAll (goalIterationLoopMetadata goal) (nextSprintUpdates (goalIterationLoopMetadata goal)
            verdict (maxIteration (runnableNodes plan) + 1)
            (Workspace.maxIterations config (goalIterationLoopMetadata goal)))).entries) := by
      rw [happended.goalId, hgoal']
      exact ⟨_, rfl, rfl⟩
    rcases hset with ⟨goal', hget', hmetadata⟩
    refine ⟨goal', hget', ?_⟩
    rw [goalIterationLoopMetadata_of_set hmetadata]
    apply loopWithin_nextSprint hmax hcurrent
  . have hnew : ∃ node' ∈ runnableNodes plan', maxIteration (runnableNodes plan) < node'.iterationIndex := by
      rcases List.exists_mem_of_ne_nil _ htasks with ⟨task, htask⟩
      rcases List.mem_iff_getElem?.mp htask with ⟨i, hi⟩
      have hspec := (@mem_taskSpecs newId verdict.nextTasks _).mpr ⟨i, task, hi, rfl⟩
      rcases happended.new _ hspec with ⟨hself, hget⟩
      have hplanned := (@plannedNode_iterationNode newId _ plan
        (maxIteration (runnableNodes plan) + 1) now _ hspec).withDependsOn hself
      have hnode : ∃ node', plan'.nodes.get (taskSpec newId verdict.nextTasks i task).nodeId = some node' ∧
          node'.isRunnable ∧ node'.iterationIndex = max 1 (maxIteration (runnableNodes plan) + 1) := by
        rw [hget]
        exact ⟨_, rfl, rfl, hplanned.iterationIndex⟩
      rcases hnode with ⟨node', hget', hrunnable, hindex⟩
      refine ⟨node', ?_, ?_⟩
      . rw [mem_runnableNodes, plan'.keyed _ _ hget']
        exact ⟨hget', hrunnable⟩
      . rw [hindex]
        omega
    intro i hi
    rw [List.mem_append, List.mem_singleton] at hi
    rcases hnew with ⟨node', hnode', hlt⟩
    refine ⟨node', hnode', ?_⟩
    cases hi with
    | inl hold => apply lt_trans (h.lt_maxIteration i hold) hlt
    | inr heq =>
      rw [heq]
      exact hlt

theorem InSprints.afterReview (h : InSprints config limit log plan)
    (hgoal : plan.nodes.get plan.goalId = some goal)
    (hmax : Workspace.maxIterations config (goalIterationLoopMetadata goal) ≤ limit)
    (hcurrent : maxIteration (runnableNodes plan)
      < Workspace.maxIterations config (goalIterationLoopMetadata goal))
    (hfresh : Fresh newId plan) (hparsed : ∀ task ∈ verdict.nextTasks, ParsedTask task)
    (hnodup : (verdict.nextTasks.map (·.id)).Nodup)
    : Passed config limit log (afterReview newId now plan (goalIterationLoopMetadata goal)
        (Workspace.maxIterations config (goalIterationLoopMetadata goal)) (maxIteration (runnableNodes plan))
        verdict) := by
  have hlater : ∀ i ∈ some (maxIteration (runnableNodes plan)), ∀ j ∈ log, j < i := by
    intro i hi
    cases hi
    apply h.lt_maxIteration
  unfold Workspace.afterReview
  dsimp only
  split
  . apply h.passed_endLoop hlater (.inr rfl)
  . split
    . apply h.passed_endLoop hlater (.inl rfl)
    . next htasks =>
      simp only [not_or] at htasks
      have haccepted := (@accepted_iff newId plan (maxIteration (runnableNodes plan) + 1) now verdict
        (Workspace.maxIterations config (goalIterationLoopMetadata goal)) goal hgoal hfresh.injective
        hfresh.new hparsed).mpr hnodup
      have happended := appended_of_appendNextIteration (Prod.ext rfl haccepted.noError)
      have hnext := h.append hgoal hmax hcurrent happended htasks.2.2
      exact ⟨hlater, hnext.nodes, fun _ => hnext⟩

theorem InSprints.handleCompleted {answer : Except String Review.Payload}
    (h : InSprints config limit log plan) (hanswered : Answered config answer) (hfresh : Fresh newId plan)
    : Passed config limit log (handleCompletedProgress config answer newId now plan) := by
  rcases h.goal with ⟨goal, hgoal, hloop⟩
  have hgoalNode : plan.goalNode = .ok goal := by
    unfold Plan.goalNode
    rw [hgoal]
  unfold handleCompletedProgress
  simp only [hgoalNode]
  split
  . apply h.passed_stopped
  . split
    . split
      . apply h.passed_endLoop (by simp) (.inl rfl)
      . apply h.passed_stopped
    . split
      . apply h.passed_stopped
      . rw [if_neg not_hasIterationNodes]
        split
        . apply h.passed_endLoop (by simp) (.inl rfl)
        . split
          . apply h.passed_endLoop (by simp) (.inl rfl)
          . next hcurrent =>
            split
            . apply h.passed_endLoop (by simp) (.inl rfl)
            . rcases hanswered.accepted with ⟨verdict, hverdict, hnodup⟩
              rw [hverdict]
              have hparsed : ∀ task ∈ verdict.nextTasks, ParsedTask task := by
                cases answer with
                | error e => cases hverdict
                | ok payload => apply parsedTask_of_parseReviewResponse hverdict
              apply h.afterReview hgoal hloop.max (lt_of_not_ge hcurrent) hfresh
              . intro task htask
                apply hparsed task (List.mem_of_mem_take htask)
              . unfold clampTasks
                dsimp only
                rw [List.map_take]
                apply hnodup.sublist (List.take_sublist _ _)

end Completed

section Runs

def runAll (config : LoopConfig) : Plan → List Tick → Plan × List Nat
  | plan, [] => (plan, [])
  | plan, tick :: ticks =>
    let completion := tick.run config plan
    let rest := runAll config completion.plan ticks
    (rest.1, completion.reviewed.toList ++ rest.2)

def EachAnswered (config : LoopConfig) : Plan → List Tick → Prop
  | _, [] => True
  | plan, tick :: ticks =>
    Answered config tick.answer ∧ Fresh (fun n => (tick.newId n).value) (plan.edited tick.edits) ∧
    EachAnswered config (tick.run config plan).plan ticks

structure Invariant (config : LoopConfig) (limit : Nat) (log : List Nat) (plan : Plan) : Prop where
  nodes : NodesWithin limit plan
  live : plan.isLive → InSprints config limit log plan

theorem Invariant.tick {tick : Tick} (h : Invariant config limit log plan)
    (hanswered : Answered config tick.answer)
    (hfresh : Fresh (fun n => (tick.newId n).value) (plan.edited tick.edits))
    : (∀ i ∈ (tick.run config plan).reviewed, ∀ j ∈ log, j < i) ∧
      Invariant config limit (log ++ (tick.run config plan).reviewed.toList) (tick.run config plan).plan := by
  have hself : (∀ i ∈ (none : Option Nat), ∀ j ∈ log, j < i) ∧
      Invariant config limit (log ++ (none : Option Nat).toList) plan := by
    rw [Option.toList_none, List.append_nil]
    exact ⟨by simp, h⟩
  unfold Tick.run
  split
  . next hlive =>
    have hedited := (h.live hlive).edited tick.noAppend
    dsimp only
    split
    . have hpassed := @InSprints.handleCompleted config limit log _ _ tick.now _ hedited hanswered hfresh
      exact ⟨hpassed.later, hpassed.nodes, hpassed.live⟩
    . have hpassed := hedited.passed_self none
      exact ⟨hpassed.later, hpassed.nodes, hpassed.live⟩
  . exact hself

theorem Invariant.runAll {ticks : List Tick} (h : Invariant config limit log plan)
    (hlog : log.Pairwise (· < ·)) (hanswered : EachAnswered config plan ticks)
    : (log ++ (runAll config plan ticks).2).Pairwise (· < ·) ∧
      NodesWithin limit (runAll config plan ticks).1 := by
  induction ticks generalizing plan log with
  | nil =>
    rw [Workspace.runAll, List.append_nil]
    exact ⟨hlog, h.nodes⟩
  | cons tick ticks ih =>
    have htick := h.tick hanswered.1 hanswered.2.1
    rw [Workspace.runAll, ← List.append_assoc]
    apply ih htick.2 _ hanswered.2.2
    rw [List.pairwise_append]
    refine ⟨hlog, ?_, ?_⟩
    . cases (tick.run config plan).reviewed <;> simp
    . intro j hj i hi
      rw [Option.mem_toList] at hi
      apply htick.1 i hi j hj

theorem within_of_planned {planId : String} {newId : Nat → DrawnId} {now : Nat} {goalSpec : GoalSpec}
    {conversationContext : Option String} {decomposition : Decomposition}
    (h : LLMGoalPlanner.plan planId (fun n => (newId n).value) now goalSpec conversationContext
      decomposition = .ok plan)
    (hone : 1 ≤ limit)
    : NodesWithin limit plan := by
  rcases started_plan h with ⟨pos, hstarted⟩
  intro id node hget hkind
  rcases hstarted.goal with ⟨goal, hgoal, hgoalKind, _⟩
  rw [(hstarted.task id node hget _).iterationIndex]
  . exact hone
  . rintro rfl
    rw [hgoal] at hget
    cases hget
    exact hkind hgoalKind

end Runs

section Claim

/--
A tuple of tasks is accepted just when their ids are distinct. If all answers are like that, then no
iteration is reviewed twice or goes past the limit.
-/
theorem accepted_and_reviewed_once (config : LoopConfig) (limit : Nat)
    : (∀ value maxNextTasks verdict, Review.parseNextTasks value maxNextTasks = .ok verdict.nextTasks →
        ∀ plan goal newId now nextIteration maxIterations, plan.nodes.get plan.goalId = some goal →
          Fresh newId plan →
          (Accepted plan verdict.nextTasks
              (appendNextIteration newId now verdict nextIteration maxIterations plan)
            ↔
          (verdict.nextTasks.map (·.id)).Nodup)) ∧
      ∀ plan goal ticks, plan.nodes.get plan.goalId = some goal →
        LoopWithin config limit (goalIterationLoopMetadata goal) → NodesWithin limit plan →
        EachAnswered config plan ticks →
        (runAll config plan ticks).2.Nodup ∧ NodesWithin limit (runAll config plan ticks).1 := by
  constructor
  . intro value maxNextTasks verdict hparse plan goal newId now nextIteration maxIterations hgoal hfresh
    apply accepted_iff hgoal hfresh.injective hfresh.new
    apply parsedTask_of_parseNextTasks hparse
  . intro plan goal ticks hgoal hloop hnodes hanswered
    have hstart : Invariant config limit [] plan := by
      refine ⟨hnodes, ?_⟩
      intro _
      exact ⟨hnodes, ⟨goal, hgoal, hloop⟩, by simp⟩
    have hrun := hstart.runAll List.Pairwise.nil hanswered
    rw [List.nil_append] at hrun
    refine ⟨?_, hrun.2⟩
    apply hrun.1.imp
    intro i j hlt
    exact hlt.ne

def loopConfig : LoopConfig where
  enabled := true
  configuredMax := 8
  hasReviewer := true
  maxNextTasks := 6

def taskItem (id description : String) (priority : Value) : Value :=
  .dict [("id", .str id), ("description", .str description), ("priority", priority)]

def answerOf (items : List Value) : Review.Payload where
  verdict := "continue_next_iteration"
  confidence := 9 / 10
  nextTasks := some (.list items)

def plannedSingle : Except String Plan :=
  LLMGoalPlanner.plan "plan" (fun n => (drawnId n).value) 0 { workspaceId := "ws", title := "Ship" } none
    (.subtasks [] [])

def singlePlan : Plan :=
  match plannedSingle with
  | .ok plan => plan
  | .error _ => goalPlan

def tickOf (done : List Nat) (items : List Value) (first : Nat) : Tick where
  edits := done.map fun n => .status (drawnId n).value
    { intent := .done, execution := .idle, currentAttemptId := none }
  answer := .ok (answerOf items)
  newId n := drawnId (first + n)
  now := 0
  raises := false
  noAppend := by
    intro edit hedit
    rw [List.mem_map] at hedit
    rcases hedit with ⟨n, _, rfl⟩
    exact Bool.false_ne_true

theorem repeated_ids_not_accepted
    : (∃ tasks, Review.parseNextTasks
          (some (.list [taskItem "t" "Build" (.int 1), taskItem "t" "Check" (.int 1)])) 6 = .ok tasks ∧
        tasks.length = 2 ∧
        (appendNextIteration nodeName 1 { sprintVerdict [] with nextTasks := tasks } 2 8 goalPlan).2
          = some "duplicate node id: node-1" ∧
        (appendNextIteration nodeName 1 { sprintVerdict [] with nextTasks := tasks } 2 8
          goalPlan).1.nodes.keys = ["goal", "node-1"]) ∧
      (runAll loopConfig singlePlan
        [tickOf [1] [taskItem "t" "Build" (.str "high")] 2,
          tickOf [] [taskItem "t" "Build" (.str "high")] 2]).2 = [1, 1] := by
  refine ⟨⟨_, rfl, rfl, rfl, rfl⟩, ?_⟩
  decide +kernel

theorem fresh_drawnId {first : Nat} (h : ∀ id ∈ plan.nodes.keys, id.toList.length ≤ first)
    : Fresh (fun n => (drawnId (first + n)).value) plan := by
  have hlength : ∀ n, (drawnId n).value.toList.length = n + 1 := by
    intro n
    simp [drawnId]
  refine ⟨?_, ?_⟩
  . intro n m heq
    have hsame := congrArg (fun s => s.toList.length) heq
    simp only [hlength] at hsame
    omega
  . intro n hmem
    have hle := h _ hmem
    rw [hlength] at hle
    omega

theorem answered_answerOf {items : List Value} {tasks : List IterationNextTask}
    (hparse : Review.parseNextTasks (some (.list items)) 6 = .ok tasks)
    (hnodup : (tasks.map (·.id)).Nodup)
    : Answered loopConfig (.ok (answerOf items)) := by
  have hconfidence : ¬ (9 / 10 : ℚ) < Review.minReviewConfidence := by
    norm_num [Review.minReviewConfidence]
  have hdecision : Review.decisionOf "continue_next_iteration" = some .continueNextIteration := rfl
  have hbind : ((.ok (answerOf items) : Except String Review.Payload).bind fun payload =>
      Review.parseReviewResponse payload loopConfig.maxNextTasks)
      = Review.parseReviewResponse (answerOf items) 6 := rfl
  refine ⟨?_⟩
  rw [hbind]
  unfold Review.parseReviewResponse answerOf
  simp only [hdecision, hconfidence, if_false, hparse, bind_eq_ok, Except.ok.injEq, exists_eq_left']
  split
  . exact ⟨_, rfl, by simp [Review.needsHumanReview]⟩
  . exact ⟨_, rfl, hnodup⟩

def nextTick : Tick :=
  tickOf [1] [taskItem "t" "Build" (.int 1), taskItem "u" "Check" (.int 2)] 2

theorem accepted_and_reviewed_once_single
    : (∃ verdict, Review.parseNextTasks
          (some (.list [taskItem "t" "Build" (.int 1), taskItem "u" "Check" (.int 2)])) 6
            = .ok verdict.nextTasks ∧
        Accepted goalPlan verdict.nextTasks
          (appendNextIteration (fun n => (drawnId (4 + n)).value) 1 verdict 2 8 goalPlan)) ∧
      plannedSingle = .ok singlePlan ∧ (runAll loopConfig singlePlan [nextTick]).2 = [1] ∧
      (runAll loopConfig singlePlan [nextTick]).2.Nodup ∧
      NodesWithin 8 (runAll loopConfig singlePlan [nextTick]).1 := by
  have hplan : plannedSingle = .ok singlePlan := rfl
  have hclaim := accepted_and_reviewed_once loopConfig 8
  have htasks : Review.parseNextTasks
      (some (.list [taskItem "t" "Build" (.int 1), taskItem "u" "Check" (.int 2)])) 6
        = .ok [{ id := "t", description := "Build", priority := 1 },
          { id := "u", description := "Check", priority := 2 }] := rfl
  refine ⟨?_, hplan, by decide +kernel, ?_⟩
  . refine ⟨{ sprintVerdict [] with nextTasks := _ }, htasks, ?_⟩
    rw [hclaim.1 _ _ { sprintVerdict [] with nextTasks := _ } htasks goalPlan _ _ _ _ _ rfl]
    . decide
    . apply fresh_drawnId
      decide
  . apply hclaim.2 singlePlan _ _ rfl
    . refine ⟨?_, ?_⟩ <;> decide
    . apply within_of_planned hplan
      decide
    . refine ⟨?_, ?_, trivial⟩
      . apply answered_answerOf htasks
        decide
      . apply fresh_drawnId
        decide

end Claim

end Workspace
end MemStack
