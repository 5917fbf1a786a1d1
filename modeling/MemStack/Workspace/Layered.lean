import MemStack.Workspace.Planner
import MemStack.Workspace.Barriers

/-!
This module contains why the dependencies of a plan have no cycle: every node has a place in an order of
layers, and whatever edits the plan only adds edges to nodes that come before.
-/

namespace MemStack
namespace Workspace

open Checked

structure PhaseKey where
  key : Nat → Phase → Nat
  mono : ∀ {i : Nat} {p q : Phase}, p.index ≤ q.index → key i p ≤ key i q
  strict : ∀ {i : Nat} {p q : Phase}, 1 < i → p.index < q.index → key i p < key i q

namespace PhaseKey

def byPhase : PhaseKey where
  key _ p := p.index
  mono h := h
  strict _ h := h

def bySprint : PhaseKey where
  key i p := if i ≤ 1 then 0 else p.index
  mono h := by
    split
    . apply le_refl
    . exact h
  strict hi h := by
    rw [if_neg (by omega), if_neg (by omega)]
    exact h

end PhaseKey

def PlanNode.layer (node : PlanNode) (k : PhaseKey) : Nat :=
  k.key node.iterationIndex node.iterationPhase

namespace Plan

variable (plan : Plan) (k : PhaseKey) (pos : String → ℚ)

def depth (id : String) : ℕ ×ₗ ℕ ×ₗ ℚ :=
  toLex (if id = plan.goalId then 0 else 1,
    toLex (((plan.nodes.get id).map (·.layer k)).getD 0, pos id))

def Before (a b : String) : Prop :=
  a ∈ plan.nodes.keys ∧ plan.depth k pos a < plan.depth k pos b

end Plan

structure Layered (k : PhaseKey) (pos : String → ℚ) (plan : Plan) : Prop where
  goal : ∃ goal, plan.nodes.get plan.goalId = some goal ∧ goal.kind = .goal
  parent : ∀ id node, plan.nodes.get id = some node → ∀ p ∈ node.parentId, p ∈ plan.nodes.keys
  stripped : ∀ id ∈ plan.nodes.keys, Text.strip id = id
  phased : ∀ id node, plan.nodes.get id = some node → id ≠ plan.goalId →
    ∃ phase : Phase, node.text "iteration_phase" = some phase.toText
  edges : ∀ id node, plan.nodes.get id = some node → ∀ dep ∈ node.dependsOn, plan.Before k pos dep id
  blocked : ∀ id node, plan.nodes.get id = some node → id ≠ plan.goalId →
    ∀ dep ∈ node.repairBlockingDependencyId, plan.Before k pos dep id
  repairs : ∀ id node, plan.nodes.get id = some node → id ≠ plan.goalId →
    ∀ target, node.text "repair_for_node_id" = some target →
      target ∈ plan.nodes.keys ∧ plan.Before k pos id target

structure SameRole (node node' : PlanNode) : Prop where
  kind : node'.kind = node.kind
  parentId : node'.parentId = node.parentId
  iterationIndex : node'.iterationIndex = node.iterationIndex
  iterationPhase : node'.iterationPhase = node.iterationPhase
  phased : (∃ phase : Phase, node.text "iteration_phase" = some phase.toText) →
    ∃ phase : Phase, node'.text "iteration_phase" = some phase.toText
  repairFor : node'.text "repair_for_node_id" = node.text "repair_for_node_id"
  signature : node'.text "repair_failure_signature" = node.text "repair_failure_signature"

variable {k : PhaseKey} {pos pos' : String → ℚ} {plan plan' : Plan} {node node' : PlanNode}

theorem SameRole.layer (h : SameRole node node') : node'.layer k = node.layer k := by
  unfold PlanNode.layer
  rw [h.iterationIndex, h.iterationPhase]

theorem depth_eq {id : String} (hget : plan.nodes.get id = some node)
    : plan.depth k pos id
        =
      toLex (if id = plan.goalId then 0 else 1, toLex (node.layer k, pos id)) := by
  unfold Plan.depth
  rw [hget, Option.map_some, Option.getD_some]

theorem Layered.valid (h : Layered k pos plan) : Valid plan := by
  refine ⟨?_, h.parent, ?_, ?_⟩
  . rcases h.goal with ⟨goal, hget, hkind⟩
    exact ⟨plan.goalId, goal, hget, hkind⟩
  . intro id node hget dep hdep
    exact (h.edges id node hget dep hdep).1
  . refine ⟨fun id => (plan.nodes.keys.toFinset.filter fun dep =>
      plan.depth k pos dep < plan.depth k pos id).card, ?_⟩
    intro id node hget dep hdep
    have hbefore := h.edges id node hget dep hdep
    apply Finset.card_lt_card
    rw [Finset.ssubset_iff_of_subset]
    . refine ⟨dep, ?_, by simp⟩
      simp [hbefore.1, hbefore.2]
    . intro dep' hdep'
      simp only [Finset.mem_filter] at hdep' ⊢
      exact ⟨hdep'.1, hdep'.2.trans hbefore.2⟩

structure NewRole (k : PhaseKey) (pos : String → ℚ) (plan : Plan) (id : String) (node : PlanNode) : Prop where
  parent : ∀ p ∈ node.parentId, p ∈ plan.nodes.keys
  stripped : Text.strip id = id
  phased : ∃ phase : Phase, node.text "iteration_phase" = some phase.toText
  edges : ∀ dep ∈ node.dependsOn, plan.Before k pos dep id
  blocked : node.repairBlockingDependencyId = none
  repairs : ∀ target, node.text "repair_for_node_id" = some target →
    target ∈ plan.nodes.keys ∧ plan.Before k pos id target

theorem Layered.edit (h : Layered k pos plan) (hgoal : plan'.goalId = plan.goalId)
    (hkeys : ∀ id ∈ plan.nodes.keys, id ∈ plan'.nodes.keys)
    (hpos : ∀ id ∈ plan.nodes.keys, pos' id = pos id)
    (hold : ∀ id node', plan'.nodes.get id = some node' → id ∈ plan.nodes.keys →
      ∃ node, plan.nodes.get id = some node ∧ SameRole node node' ∧
        (∀ dep ∈ node'.dependsOn, plan.Before k pos dep id) ∧
        (id ≠ plan.goalId → ∀ dep ∈ node'.repairBlockingDependencyId, plan.Before k pos dep id))
    (hnew : ∀ id node', plan'.nodes.get id = some node' → id ∉ plan.nodes.keys →
      NewRole k pos' plan' id node')
    : Layered k pos' plan' := by
  have hdepth : ∀ id ∈ plan.nodes.keys, plan'.depth k pos' id = plan.depth k pos id := by
    intro id hid
    rcases Dict.mem_keys.mp (hkeys id hid) with ⟨node', hget'⟩
    rcases hold id node' hget' hid with ⟨node, hget, hsame, _⟩
    unfold Plan.depth
    rw [hgoal, hpos id hid, hget, hget', Option.map_some, Option.map_some, hsame.layer]
  have hbefore : ∀ a b, b ∈ plan.nodes.keys → plan.Before k pos a b → plan'.Before k pos' a b := by
    intro a b hb hab
    refine ⟨hkeys a hab.1, ?_⟩
    rw [hdepth a hab.1, hdepth b hb]
    exact hab.2
  have hgoalKey : plan.goalId ∈ plan.nodes.keys := by
    rcases h.goal with ⟨goal, hget, _⟩
    exact Plan.mem_keys_of_get hget
  refine ⟨?_, ?_, ?_, ?_, ?_, ?_, ?_⟩
  . rcases Dict.mem_keys.mp (hkeys _ hgoalKey) with ⟨goal', hget'⟩
    rcases hold _ goal' hget' hgoalKey with ⟨goal, hget, hsame, _⟩
    rcases h.goal with ⟨goal₀, hget₀, hkind⟩
    rw [hget] at hget₀
    cases hget₀
    rw [hgoal]
    exact ⟨goal', hget', hsame.kind.trans hkind⟩
  . intro id node' hget'
    by_cases hid : id ∈ plan.nodes.keys
    . rcases hold id node' hget' hid with ⟨node, hget, hsame, _⟩
      rw [hsame.parentId]
      intro p hp
      exact hkeys p (h.parent id node hget p hp)
    . exact (hnew id node' hget' hid).parent
  . intro id hid'
    by_cases hid : id ∈ plan.nodes.keys
    . exact h.stripped id hid
    . rcases Dict.mem_keys.mp hid' with ⟨node', hget'⟩
      exact (hnew id node' hget' hid).stripped
  . intro id node' hget' hne
    by_cases hid : id ∈ plan.nodes.keys
    . rcases hold id node' hget' hid with ⟨node, hget, hsame, _⟩
      exact hsame.phased (h.phased id node hget (hgoal ▸ hne))
    . exact (hnew id node' hget' hid).phased
  . intro id node' hget'
    by_cases hid : id ∈ plan.nodes.keys
    . rcases hold id node' hget' hid with ⟨node, hget, _, hdeps, _⟩
      intro dep hdep
      exact hbefore dep id hid (hdeps dep hdep)
    . exact (hnew id node' hget' hid).edges
  . intro id node' hget' hne
    by_cases hid : id ∈ plan.nodes.keys
    . rcases hold id node' hget' hid with ⟨node, hget, _, _, hblocked⟩
      intro dep hdep
      exact hbefore dep id hid (hblocked (hgoal ▸ hne) dep hdep)
    . rw [(hnew id node' hget' hid).blocked]
      intro dep hdep
      cases hdep
  . intro id node' hget' hne target htarget
    by_cases hid : id ∈ plan.nodes.keys
    . rcases hold id node' hget' hid with ⟨node, hget, hsame, _⟩
      rw [hsame.repairFor] at htarget
      have hrepair := h.repairs id node hget (hgoal ▸ hne) target htarget
      exact ⟨hkeys _ hrepair.1, hbefore id target hrepair.1 hrepair.2⟩
    . exact (hnew id node' hget' hid).repairs target htarget

theorem Layered.change (h : Layered k pos plan) (hgoal : plan'.goalId = plan.goalId)
    (hkeys : ∀ id, id ∈ plan'.nodes.keys ↔ id ∈ plan.nodes.keys)
    (hold : ∀ id node', plan'.nodes.get id = some node' →
      ∃ node, plan.nodes.get id = some node ∧ SameRole node node' ∧
        (∀ dep ∈ node'.dependsOn, plan.Before k pos dep id) ∧
        (id ≠ plan.goalId → ∀ dep ∈ node'.repairBlockingDependencyId, plan.Before k pos dep id))
    : Layered k pos plan' := by
  apply h.edit hgoal
  . intro id hid
    exact (hkeys id).mpr hid
  . intro id _
    rfl
  . intro id node' hget' _
    exact hold id node' hget'
  . intro id node' hget' hid
    exact absurd ((hkeys id).mp (Plan.mem_keys_of_get hget')) hid

theorem SameRole.refl (node : PlanNode) : SameRole node node :=
  ⟨rfl, rfl, rfl, rfl, id, rfl, rfl⟩

theorem Layered.setNode (h : Layered k pos plan) (hget : plan.nodes.get node.id = some node)
    (hid : node'.id = node.id) (hrole : SameRole node node')
    (hdeps : ∀ dep ∈ node'.dependsOn, plan.Before k pos dep node.id)
    (hblocked : node.id ≠ plan.goalId →
      ∀ dep ∈ node'.repairBlockingDependencyId, plan.Before k pos dep node.id)
    : Layered k pos (plan.setNode node') := by
  apply h.change Plan.setNode_goalId
  . intro id
    rw [Plan.mem_keys_setNode, hid]
    apply or_iff_right_of_imp
    rintro rfl
    exact Plan.mem_keys_of_get hget
  . intro id node₂ hget₂
    rw [Plan.get_setNode, hid] at hget₂
    split at hget₂
    . next heq =>
      cases hget₂
      rw [heq]
      exact ⟨node, hget, hrole, hdeps, hblocked⟩
    . exact ⟨node₂, hget₂, .refl node₂, h.edges id node₂ hget₂, h.blocked id node₂ hget₂⟩

theorem Layered.updateNode {id : String} {f : PlanNode → PlanNode} (h : Layered k pos plan)
    (hf : ∀ node, (f node).id = node.id) (hrole : ∀ node, SameRole node (f node))
    (hdeps : ∀ node, (f node).dependsOn = node.dependsOn)
    (hblocked : ∀ node, (f node).repairBlockingDependencyId = node.repairBlockingDependencyId)
    : Layered k pos (plan.updateNode id f) := by
  unfold Plan.updateNode
  cases hget : plan.nodes.get id with
  | none => exact h
  | some node =>
    have hid := plan.keyed id node hget
    apply h.setNode (by rw [hid]; exact hget) (hf node) (hrole node)
    . rw [hdeps, hid]
      exact h.edges id node hget
    . rw [hblocked, hid]
      exact h.blocked id node hget

section Repair

theorem iterationPhase_of_text {phase : Phase} (h : node.text "iteration_phase" = some phase.toText)
    : node.iterationPhase = phase := by
  unfold PlanNode.iterationPhase
  rw [h, Option.bind_some, Phase.ofText_toText, Option.getD_some]

theorem text_eq_of_get {key : String} (h : node'.metadata.get key = node.metadata.get key)
    : node'.text key = node.text key := by
  unfold PlanNode.text
  rw [h]

theorem sameRole_repairIterationNode (plan : Plan) (node : PlanNode)
    : SameRole node (repairIterationNode plan node) := by
  have hsame := sameNode_repairIterationNode plan node
  refine ⟨hsame.kind, hsame.parentId, hsame.iterationIndex, hsame.iterationPhase, ?_, ?_, ?_⟩
  . intro hphased
    cases repairIterationNode_cases plan node with
    | inl heq =>
      rw [heq]
      exact hphased
    | inr hchanged =>
      rw [hchanged.2.2]
      refine ⟨node.iterationPhase, ?_⟩
      simp [PlanNode.text, withAll, Dict.get_set, Value.asStr]
  . apply text_eq_of_get
    apply hsame.metadata <;> decide
  . apply text_eq_of_get
    apply hsame.metadata <;> decide

theorem mem_desiredDependencies {ordered : List PlanNode} {dep : String}
    (h : dep ∈ desiredDependencies ordered node)
    : dep ∈ node.dependsOn ∨ dep ∈ node.repairBlockingDependencyId ∨
      ∃ prior ∈ ordered, prior.id = dep ∧ prior.iterationPhase.index < node.iterationPhase.index := by
  unfold desiredDependencies at h
  simp only [Finset.mem_erase, Finset.mem_union, Finset.mem_filter, Option.mem_toFinset,
    List.mem_toFinset, List.mem_filter, mem_phaseBarrierDependencies] at h
  rcases h with ⟨_, (hold | hrepair) | ⟨⟨phase, hphase, hin⟩, _⟩⟩
  . exact .inl hold.1
  . exact .inr (.inl hrepair)
  . unfold phaseNodes at hin
    simp only [List.mem_map, List.mem_filter, decide_eq_true_eq] at hin
    rcases hin with ⟨prior, ⟨hprior, heq⟩, hid⟩
    exact .inr (.inr ⟨prior, hprior, hid, heq ▸ hphase⟩)

theorem Layered.ne_goalId_of_isRunnable (h : Layered k pos plan) {id : String}
    (hget : plan.nodes.get id = some node) (hrun : node.isRunnable)
    : id ≠ plan.goalId := by
  intro heq
  rcases h.goal with ⟨goal, hgoal, hkind⟩
  rw [heq, hgoal] at hget
  cases hget
  simp [PlanNode.isRunnable, hkind] at hrun

theorem before_of_layer_lt {a b : String} (ha : plan.nodes.get a = some node)
    (hb : plan.nodes.get b = some node') (hne : b ≠ plan.goalId) (hlt : node.layer k < node'.layer k)
    : plan.Before k pos a b := by
  refine ⟨Plan.mem_keys_of_get ha, ?_⟩
  unfold Plan.depth
  rw [ha, hb, if_neg hne]
  apply Prod.Lex.toLex_lt_toLex.mpr
  by_cases hgoal : a = plan.goalId
  . left
    rw [if_pos hgoal]
    apply Nat.zero_lt_one
  . right
    refine ⟨if_neg hgoal, ?_⟩
    apply Prod.Lex.toLex_lt_toLex.mpr
    exact .inl hlt

theorem Layered.repair (h : Layered k pos plan)
    : Layered k pos (repairPendingIterationPhaseBarriers plan) := by
  have hgoal : (repairPendingIterationPhaseBarriers plan).goalId = plan.goalId := rfl
  apply h.change hgoal fun _ => mem_keys_mapNodes
  intro id node' hget'
  rw [get_repair, Option.map_eq_some_iff] at hget'
  rcases hget' with ⟨node, hget, rfl⟩
  have hsame := sameNode_repairIterationNode plan node
  have hblocked : (repairIterationNode plan node).repairBlockingDependencyId
      =
    node.repairBlockingDependencyId := by
    unfold PlanNode.repairBlockingDependencyId
    rw [text_eq_of_get (hsame.metadata _ (by decide) (by decide))]
  refine ⟨node, hget, sameRole_repairIterationNode plan node, ?_, ?_⟩
  . cases repairIterationNode_cases plan node with
    | inl heq =>
      rw [heq]
      exact h.edges id node hget
    | inr hchanged =>
      rw [hchanged.2.2]
      have hne := h.ne_goalId_of_isRunnable hget hchanged.2.1
      intro dep hdep
      cases mem_desiredDependencies hdep with
      | inl hold => exact h.edges id node hget dep hold
      | inr hnew =>
        cases hnew with
        | inl hrepair => exact h.blocked id node hget hne dep hrepair
        | inr hbarrier =>
          rcases hbarrier with ⟨prior, hprior, rfl, hphase⟩
          have hmem := mem_iterationNodes.mp ((List.mem_insertionSort _).mp hprior)
          apply before_of_layer_lt hmem.1 hget hne
          unfold PlanNode.layer
          rw [hmem.2.2]
          exact k.strict hchanged.1 hphase
  . rw [hblocked]
    exact h.blocked id node hget

end Repair

end Workspace
end MemStack
