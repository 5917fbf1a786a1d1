import MemStack.Workspace.Layered

/-!
This module contains what planning a node again does to the layers of a plan: a repair node takes a place
right before the node that it repairs.
-/

namespace MemStack
namespace Workspace

open Checked LLMGoalPlanner

variable {k : PhaseKey} {pos : String → ℚ} {plan plan' : Plan} {node repair : PlanNode}

section Insert

theorem exists_pos_between (pos : String → ℚ) (deps : Finset String) (id : String)
    (h : ∀ dep ∈ deps, pos dep < pos id)
    : ∃ q, (∀ dep ∈ deps, pos dep < q) ∧ q < pos id := by
  have hroom := Order.exists_between_finsets (deps.image pos) {pos id} (by simpa using h)
  rcases hroom with ⟨q, hlo, hhi⟩
  refine ⟨q, ?_, by simpa using hhi⟩
  intro dep hdep
  apply hlo
  apply Finset.mem_image_of_mem pos hdep

theorem lt_depth_of_between {a : ℕ} {b : ℕ} {c q p : ℚ} {layer : ℕ}
    (h : toLex (a, toLex (b, c)) < toLex (1, toLex (layer, p)))
    (hq : a = 1 → b = layer → c < p → c < q)
    : toLex (a, toLex (b, c)) < toLex (1, toLex (layer, q)) := by
  simp only [Prod.Lex.toLex_lt_toLex] at h ⊢
  rcases h with hlt | ⟨ha, hlt | ⟨hb, hc⟩⟩
  . apply Or.inl hlt
  . apply Or.inr ⟨ha, .inl hlt⟩
  . apply Or.inr ⟨ha, .inr ⟨hb, hq ha hb hc⟩⟩

structure Repairs (k : PhaseKey) (plan : Plan) (node repair : PlanNode) : Prop where
  fresh : repair.id ∉ plan.nodes.keys
  stripped : Text.strip repair.id = repair.id
  parentId : repair.parentId = node.parentId
  dependsOn : repair.dependsOn = node.dependsOn
  layer : repair.layer k = node.layer k
  phased : ∃ phase : Phase, repair.text "iteration_phase" = some phase.toText
  blocked : repair.repairBlockingDependencyId = none
  repairFor : repair.text "repair_for_node_id" = some node.id

theorem Layered.addRepair (h : Layered k pos plan) (hget : plan.nodes.get node.id = some node)
    (hne : node.id ≠ plan.goalId) (hrepair : Repairs k plan node repair)
    : ∃ pos', Layered k pos' (plan.setNode repair) ∧
        (plan.setNode repair).Before k pos' repair.id node.id := by
  rcases h.goal with ⟨goal, hgoal, _⟩
  have hrepairGoal : repair.id ≠ plan.goalId := by
    intro heq
    apply hrepair.fresh
    rw [heq]
    apply Plan.mem_keys_of_get hgoal
  have hnode : plan.depth k pos node.id = toLex (1, toLex (node.layer k, pos node.id)) := by
    rw [depth_eq hget, if_neg hne]
  -- Only the dependencies of the same layer limit the place of the repair node.
  let near := node.dependsOn.filter fun dep => dep ≠ plan.goalId ∧
    ((plan.nodes.get dep).map (·.layer k)).getD 0 = node.layer k
  have hnear : ∀ dep ∈ near, pos dep < pos node.id := by
    intro dep hdep
    simp only [near, Finset.mem_filter] at hdep
    have hbefore := (h.edges node.id node hget dep hdep.1).2
    rw [hnode] at hbefore
    unfold Plan.depth at hbefore
    rw [if_neg hdep.2.1, hdep.2.2] at hbefore
    simpa [Prod.Lex.toLex_lt_toLex] using hbefore
  rcases exists_pos_between pos near node.id hnear with ⟨q, hlo, hhi⟩
  have hold : ∀ id ∈ plan.nodes.keys, id ≠ repair.id := by
    rintro id hid rfl
    apply hrepair.fresh hid
  have hdepth : ∀ id ∈ plan.nodes.keys,
      (plan.setNode repair).depth k (Function.update pos repair.id q) id = plan.depth k pos id := by
    intro id hid
    unfold Plan.depth
    rw [Function.update_of_ne (hold id hid), Plan.setNode_goalId, Plan.get_setNode,
      if_neg (hold id hid)]
  have hplace : (plan.setNode repair).depth k (Function.update pos repair.id q) repair.id
      =
    toLex (1, toLex (node.layer k, q)) := by
    rw [depth_eq (by rw [Plan.get_setNode, if_pos rfl]), Plan.setNode_goalId, if_neg hrepairGoal,
      hrepair.layer, Function.update_self]
  have hbefore : (plan.setNode repair).Before k (Function.update pos repair.id q) repair.id node.id := by
    refine ⟨Plan.mem_keys_setNode.mpr (.inl rfl), ?_⟩
    rw [hplace, hdepth node.id (Plan.mem_keys_of_get hget), hnode]
    simp [Prod.Lex.toLex_lt_toLex, hhi]
  refine ⟨Function.update pos repair.id q, ?_, hbefore⟩
  apply h.edit Plan.setNode_goalId
  . intro id hid
    apply Plan.mem_keys_setNode.mpr (.inr hid)
  . intro id hid
    apply Function.update_of_ne (hold id hid)
  . intro id node' hget' hid
    rw [Plan.get_setNode, if_neg (hold id hid)] at hget'
    exact ⟨node', hget', .refl node', h.edges id node' hget', h.blocked id node' hget'⟩
  . intro id node' hget' hid
    rw [Plan.get_setNode] at hget'
    split at hget'
    . next heq =>
      cases hget'
      rw [heq]
      refine ⟨?_, hrepair.stripped, hrepair.phased, ?_, hrepair.blocked, ?_⟩
      . rw [hrepair.parentId]
        intro p hp
        apply Plan.mem_keys_setNode.mpr (.inr (h.parent node.id node hget p hp))
      . rw [hrepair.dependsOn]
        intro dep hdep
        have hdepBefore := h.edges node.id node hget dep hdep
        refine ⟨Plan.mem_keys_setNode.mpr (.inr hdepBefore.1), ?_⟩
        have hlt := hdepBefore.2
        rw [hdepth dep hdepBefore.1, hplace]
        rw [hnode] at hlt
        unfold Plan.depth at hlt ⊢
        apply lt_depth_of_between hlt
        intro hgoalDep hlayer _
        apply hlo
        simp only [near, Finset.mem_filter]
        refine ⟨hdep, ?_, hlayer⟩
        intro heq
        rw [if_pos heq] at hgoalDep
        cases hgoalDep
      . intro target htarget
        rw [hrepair.repairFor] at htarget
        cases htarget
        exact ⟨Plan.mem_keys_setNode.mpr (.inr (Plan.mem_keys_of_get hget)), hbefore⟩
    . exact absurd (Plan.mem_keys_of_get hget') hid

end Insert

section Replan

variable {trigger : ReplanTrigger} {repairId : String} {now : Nat}

theorem positiveInt_pos {value : Option Value} {n : Nat} (h : positiveInt value = some n) : 0 < n := by
  unfold positiveInt at h
  split at h
  . split at h
    . cases h
      omega
    . cases h
  . rw [Option.filter_eq_some_iff] at h
    simpa using h.2

theorem iterationIndex_pos (node : PlanNode) : 0 < node.iterationIndex := by
  unfold PlanNode.iterationIndex
  cases h : positiveInt (node.metadata.get "iteration_index") with
  | none => apply Nat.zero_lt_one
  | some n => apply positiveInt_pos h

theorem repairIterationIndex_pos (plan : Plan) (node : PlanNode) : 0 < repairIterationIndex plan node := by
  unfold repairIterationIndex
  dsimp only
  cases h : positiveInt _ with
  | none => apply iterationIndex_pos
  | some n => apply positiveInt_pos h

theorem repairIterationPhase_eq
    (h : ∃ phase : Phase, node.text "iteration_phase" = some phase.toText)
    : repairIterationPhase node = node.iterationPhase := by
  rcases h with ⟨phase, h⟩
  rw [iterationPhase_of_text h]
  unfold repairIterationPhase
  rw [h, Option.bind_some]
  cases phase <;> decide

theorem get_repairMetadata (plan : Plan) (node : PlanNode)
    : (repairMetadata plan node).get "iteration_index" = some (.int (repairIterationIndex plan node)) ∧
      (repairMetadata plan node).get "iteration_phase"
        = some (.str (repairIterationPhase node).toText) ∧
      (repairMetadata plan node).get "repair_for_node_id" = some (.str node.id) ∧
      (repairMetadata plan node).get "repair_failure_signature"
        = some (.str (repairFailureSignature node)) ∧
      (repairMetadata plan node).get "blocked_by_repair_node_id" = none := by
  simp [repairMetadata, withAll, plannerNodeMetadata, Dict.get_set]

theorem postInit_eq_ok {node' : PlanNode}
    : node.postInit = .ok node' ↔ Text.strip node.title ≠ "" ∧ node' = node := by
  apply guarded_eq_ok

structure RepairNode (plan : Plan) (node repair : PlanNode) (repairId : String) : Prop where
  id : repair.id = repairId
  planId : repair.planId = plan.id
  parentId : repair.parentId = node.parentId
  kind : repair.kind = .task
  dependsOn : repair.dependsOn = node.dependsOn
  metadata : repair.metadata = repairMetadata plan node

theorem repairNode_of_eq_ok (h : repairNode plan node repairId now = .ok repair)
    : RepairNode plan node repair repairId := by
  unfold repairNode at h
  cases hparent : node.parentId with
  | none => simp [hparent] at h
  | some parentId =>
    simp only [hparent, bind_eq_ok, postInit_eq_ok, withDependsOn_eq_ok] at h
    rcases h with ⟨_, ⟨_, rfl⟩, _, rfl⟩
    exact ⟨rfl, rfl, hparent.symm, rfl, rfl, rfl⟩

theorem RepairNode.iterationIndex (h : RepairNode plan node repair repairId)
    : repair.iterationIndex = repairIterationIndex plan node := by
  unfold PlanNode.iterationIndex
  rw [h.metadata, (get_repairMetadata plan node).1]
  simp [positiveInt, Value.asInt, repairIterationIndex_pos plan node]

theorem RepairNode.phaseText (h : RepairNode plan node repair repairId)
    : repair.text "iteration_phase" = some (repairIterationPhase node).toText := by
  unfold PlanNode.text
  rw [h.metadata, (get_repairMetadata plan node).2.1]
  rfl

theorem RepairNode.repairFor (h : RepairNode plan node repair repairId)
    : repair.text "repair_for_node_id" = some node.id := by
  unfold PlanNode.text
  rw [h.metadata, (get_repairMetadata plan node).2.2.1]
  rfl

theorem RepairNode.signature (h : RepairNode plan node repair repairId)
    : repair.text "repair_failure_signature" = some (repairFailureSignature node) := by
  unfold PlanNode.text
  rw [h.metadata, (get_repairMetadata plan node).2.2.2.1]
  rfl

theorem RepairNode.blocked (h : RepairNode plan node repair repairId)
    : repair.repairBlockingDependencyId = none := by
  unfold PlanNode.repairBlockingDependencyId PlanNode.text
  rw [h.metadata, (get_repairMetadata plan node).2.2.2.2]
  rfl

theorem RepairNode.repairs (h : RepairNode plan node repair repairId)
    (hphased : ∃ phase : Phase, node.text "iteration_phase" = some phase.toText)
    (hfresh : repairId ∉ plan.nodes.keys) (hstrip : Text.strip repairId = repairId)
    (hlayer : k.key (repairIterationIndex plan node) node.iterationPhase = node.layer k)
    : Repairs k plan node repair := by
  refine ⟨?_, ?_, h.parentId, h.dependsOn, ?_, ⟨_, h.phaseText⟩, h.blocked, h.repairFor⟩
  . rw [h.id]
    exact hfresh
  . rw [h.id]
    exact hstrip
  . rw [← hlayer]
    unfold PlanNode.layer
    rw [h.iterationIndex, iterationPhase_of_text h.phaseText, repairIterationPhase_eq hphased]

theorem ensureRepairNode_cases {result : Option String}
    (h : ensureRepairNodeForVerificationFailure plan node trigger repairId now = .ok (plan', result))
    : plan' = plan ∧ result = none ∨
      (∃ existing, existingPendingRepairNode plan node = some existing ∧ plan' = plan ∧
        result = some existing.id) ∨
      ∃ repair, wantsRepairNode plan node trigger ∧ existingPendingRepairNode plan node = none ∧
        RepairNode plan node repair repairId ∧ repairId ∉ plan.nodes.keys ∧
        plan' = plan.setNode repair ∧ result = some repairId := by
  unfold ensureRepairNodeForVerificationFailure at h
  split at h
  . next hwants =>
    cases hexisting : existingPendingRepairNode plan node with
    | some existing =>
      rw [hexisting] at h
      cases h
      exact .inr (.inl ⟨existing, rfl, rfl, rfl⟩)
    | none =>
      simp only [hexisting, bind_eq_ok] at h
      rcases h with ⟨repair, hrepair, plan₁, hadd, hret⟩
      cases hret
      have hnode := repairNode_of_eq_ok hrepair
      have hkind : repair.kind ≠ .goal := by
        rw [hnode.kind]
        decide
      rw [Plan.addNode_eq_ok hkind, hnode.id] at hadd
      exact .inr (.inr ⟨repair, hwants, rfl, hnode, hadd.1, hadd.2.2.2.2, rfl⟩)
  . cases h
    exact .inl ⟨rfl, rfl⟩

theorem resetNode_none : resetNode node trigger none
    = .ok { node with intent := .todo, execution := .idle, currentAttemptId := none } := by
  rfl

theorem resetNode_some_eq_ok {node' : PlanNode}
    : resetNode node trigger (some repairId) = .ok node'
        ↔
      ∃ h : node.id ∉ insert repairId node.dependsOn, node' = { node with
        intent := .todo
        execution := .idle
        currentAttemptId := none
        metadata := withAll node.metadata (blockedByRepair trigger repairId)
        dependsOn := insert repairId node.dependsOn
        id_notMem := h } := by
  unfold resetNode
  apply withDependsOn_eq_ok

theorem get_withAll_blockedByRepair {metadata : Metadata} {key : String}
    (h : key ∉ (blockedByRepair trigger repairId).map Prod.fst)
    : (withAll metadata (blockedByRepair trigger repairId)).get key = metadata.get key := by
  apply get_withAll_of_notMem h

theorem repairBlockingDependencyId_blockedByRepair {node' : PlanNode}
    (h : node'.metadata = withAll node.metadata (blockedByRepair trigger repairId))
    : node'.repairBlockingDependencyId = (some (Text.strip repairId)).filter (· ≠ "") := by
  unfold PlanNode.repairBlockingDependencyId PlanNode.text
  rw [h]
  simp [blockedByRepair, withAll, Dict.get_set, Value.asStr]

theorem sameRole_resetNode {result : Option String} {node' : PlanNode}
    (h : resetNode node trigger result = .ok node')
    : SameRole node node' ∧ node'.id = node.id := by
  cases result with
  | none =>
    rw [resetNode_none] at h
    cases h
    exact ⟨⟨rfl, rfl, rfl, rfl, id, rfl, rfl⟩, rfl⟩
  | some repairId =>
    rw [resetNode_some_eq_ok] at h
    rcases h with ⟨_, rfl⟩
    have hkey : ∀ key, key ∉ (blockedByRepair trigger repairId).map Prod.fst →
        (withAll node.metadata (blockedByRepair trigger repairId)).get key = node.metadata.get key :=
      fun key => get_withAll_blockedByRepair
    have hindex := hkey "iteration_index" (by simp [blockedByRepair])
    have hphase := hkey "iteration_phase" (by simp [blockedByRepair])
    refine ⟨⟨rfl, rfl, ?_, ?_, ?_, ?_, ?_⟩, rfl⟩
    . unfold PlanNode.iterationIndex
      rw [hindex]
    . unfold PlanNode.iterationPhase PlanNode.text
      rw [hphase]
    . unfold PlanNode.text
      rw [hphase]
      exact id
    . apply text_eq_of_get
      apply hkey
      simp [blockedByRepair]
    . apply text_eq_of_get
      apply hkey
      simp [blockedByRepair]

theorem Layered.reset {result : Option String} {node' : PlanNode} (h : Layered k pos plan)
    (hget : plan.nodes.get node.id = some node) (hreset : resetNode node trigger result = .ok node')
    (hresult : ∀ repairId ∈ result, repairId ≠ node.id →
      Text.strip repairId = repairId ∧ plan.Before k pos repairId node.id)
    : Layered k pos (plan.setNode node') := by
  have hrole := sameRole_resetNode hreset
  cases result with
  | none =>
    rw [resetNode_none] at hreset
    cases hreset
    apply h.setNode hget hrole.2 hrole.1
    . apply h.edges node.id node hget
    . apply h.blocked node.id node hget
  | some repairId =>
    rw [resetNode_some_eq_ok] at hreset
    rcases hreset with ⟨hself, hnode⟩
    have hne : repairId ≠ node.id := by
      rintro rfl
      apply hself (Finset.mem_insert_self _ _)
    have hbefore := hresult repairId rfl hne
    apply h.setNode hget hrole.2 hrole.1
    . rw [hnode]
      intro dep hdep
      cases Finset.mem_insert.mp hdep with
      | inl heq =>
        rw [heq]
        exact hbefore.2
      | inr hold => exact h.edges node.id node hget dep hold
    . have hmetadata : node'.metadata = withAll node.metadata (blockedByRepair trigger repairId) := by
        rw [hnode]
      rw [repairBlockingDependencyId_blockedByRepair hmetadata, hbefore.1]
      intro _ dep hdep
      rw [Option.mem_def, Option.filter_eq_some_iff] at hdep
      cases hdep.1
      exact hbefore.2

theorem Layered.before_existing {existing : PlanNode} (h : Layered k pos plan)
    (hexisting : existingPendingRepairNode plan node = some existing) (hne : existing.id ≠ node.id)
    : Text.strip existing.id = existing.id ∧ plan.Before k pos existing.id node.id := by
  unfold existingPendingRepairNode at hexisting
  have hmem := Plan.mem_values.mp (List.mem_of_find?_eq_some hexisting)
  have hfor := List.find?_some hexisting
  simp only [decide_eq_true_eq] at hfor
  refine ⟨h.stripped _ (Plan.mem_keys_of_get hmem), ?_⟩
  by_cases hgoal : existing.id = plan.goalId
  . refine ⟨Plan.mem_keys_of_get hmem, ?_⟩
    unfold Plan.depth
    rw [if_pos hgoal, if_neg (hgoal ▸ hne.symm)]
    apply Prod.Lex.toLex_lt_toLex.mpr
    left
    apply Nat.zero_lt_one
  . exact (h.repairs _ existing hmem hgoal node.id hfor.1).2

theorem RepairNode.ne_goalId (h : RepairNode plan node repair repairId) (hlayered : Layered k pos plan)
    (hget : plan.nodes.get node.id = some node)
    : node.id ≠ plan.goalId := by
  intro heq
  rcases hlayered.goal with ⟨goal, hgoal, hkind⟩
  rw [← heq, hget] at hgoal
  cases hgoal
  have hparent := h.parentId
  rw [node.goal_iff.mp hkind, ← repair.goal_iff, h.kind] at hparent
  cases hparent

theorem get_of_bind_eq_some {id : Option String} (h : id.bind plan.nodes.get = some node)
    : plan.nodes.get node.id = some node := by
  rw [Option.bind_eq_some_iff] at h
  rcases h with ⟨id, _, hget⟩
  rw [plan.keyed id node hget]
  exact hget

def RepairInLayer (k : PhaseKey) (plan : Plan) (trigger : ReplanTrigger) : Prop :=
  ∀ node, trigger.nodeId.bind plan.nodes.get = some node → wantsRepairNode plan node trigger →
    existingPendingRepairNode plan node = none →
    k.key (repairIterationIndex plan node) node.iterationPhase = node.layer k

theorem replan_cases (plan : Plan) (trigger : ReplanTrigger) (repairId : String) (now : Nat)
    : (LLMGoalPlanner.replan plan trigger repairId now).1 = plan ∨
      ∃ node plan₁ result, trigger.nodeId.bind plan.nodes.get = some node ∧
        ensureRepairNodeForVerificationFailure plan node trigger repairId now = .ok (plan₁, result) ∧
        plan₁.nodes.get node.id = some node ∧
        ((LLMGoalPlanner.replan plan trigger repairId now).1 = plan₁ ∨
          ∃ node', resetNode node trigger result = .ok node' ∧
            (LLMGoalPlanner.replan plan trigger repairId now).1 = plan₁.setNode node') := by
  unfold LLMGoalPlanner.replan
  split
  . exact .inl rfl
  . next node htarget =>
    split
    . exact .inl rfl
    . next plan₁ result hensure =>
      right
      refine ⟨node, plan₁, result, htarget, hensure, ?_, ?_⟩
      . have hget := get_of_bind_eq_some htarget
        rcases ensureRepairNode_cases hensure with ⟨rfl, _⟩ | ⟨_, _, rfl, _⟩ |
          ⟨repair, _, _, hrepair, hfresh, rfl, _⟩
        . exact hget
        . exact hget
        . rw [Plan.get_setNode, if_neg, hget]
          intro heq
          apply hfresh
          rw [← hrepair.id, ← heq]
          apply Plan.mem_keys_of_get hget
      . cases hedit : (do
            let node ← resetNode node trigger result
            plan₁.replaceNode node : Except String Plan) with
        | error e => exact .inl rfl
        | ok plan₂ =>
          simp only [bind_eq_ok, Plan.replaceNode_eq_ok] at hedit
          rcases hedit with ⟨node', hreset, _, rfl⟩
          exact .inr ⟨node', hreset, rfl⟩

theorem Layered.replan (h : Layered k pos plan) (hstrip : Text.strip repairId = repairId)
    (hlayer : RepairInLayer k plan trigger)
    : ∃ pos', Layered k pos' (LLMGoalPlanner.replan plan trigger repairId now).1 := by
  rcases replan_cases plan trigger repairId now with hsame | ⟨node, plan₁, result, htarget, hensure,
    hget₁, hresult⟩
  . rw [hsame]
    exact ⟨pos, h⟩
  . have hready : ∃ pos', Layered k pos' plan₁ ∧
        ∀ repairId ∈ result, repairId ≠ node.id →
          Text.strip repairId = repairId ∧ plan₁.Before k pos' repairId node.id := by
      rcases ensureRepairNode_cases hensure with ⟨rfl, rfl⟩ | ⟨existing, hexisting, rfl, rfl⟩ |
        ⟨repair, hwants, hnone, hrepair, hfresh, rfl, rfl⟩
      . exact ⟨pos, h, by simp⟩
      . refine ⟨pos, h, ?_⟩
        intro repairId heq hne
        cases heq
        apply h.before_existing hexisting hne
      . have hget := get_of_bind_eq_some htarget
        have hne := hrepair.ne_goalId h hget
        have hrepairs := hrepair.repairs (h.phased node.id node hget hne) hfresh hstrip
          (hlayer node htarget hwants hnone)
        rcases h.addRepair hget hne hrepairs with ⟨pos', hlayered, hbefore⟩
        refine ⟨pos', hlayered, ?_⟩
        intro repairId' heq _
        cases heq
        rw [← hrepair.id] at hstrip ⊢
        exact ⟨hstrip, hbefore⟩
    rcases hready with ⟨pos', hlayered, hbefore⟩
    refine ⟨pos', ?_⟩
    rcases hresult with heq | ⟨node', hreset, heq⟩
    . rw [heq]
      exact hlayered
    . rw [heq]
      apply hlayered.reset hget₁ hreset hbefore

end Replan

end Workspace
end MemStack
