import MemStack.Workspace.Append
import MemStack.Workspace.Replan
import MemStack.Workspace.Started

/-!
This module contains which runs of edits keep a plan valid, and how many repair nodes can carry the same
failure signature.
-/

namespace MemStack
namespace Workspace

open Checked

structure JudgeMetadata where
  nextActionKind : Value
  failedCriteria : Value
  feedbackItems : Value

def PlanNode.withJudgeMetadata (node : PlanNode) (judge : JudgeMetadata) : PlanNode :=
  { node with
    metadata := withAll node.metadata [
      ("last_verification_judge_next_action_kind", judge.nextActionKind),
      ("last_verification_judge_failed_criteria", judge.failedCriteria),
      ("last_verification_feedback_items", judge.feedbackItems)
    ]
  }

inductive PlanEdit where
  | replan (trigger : ReplanTrigger) (repairId : DrawnId) (now : Nat)
  | judge (id : String) (value : JudgeMetadata)
  | append (newId : Nat → DrawnId) (now : Nat) (verdict : IterationReviewVerdict)
      (nextIteration maxIterations : Nat)
  | repairBarriers
  | status (id : String) (value : NodeStatus)

def PlanEdit.apply (plan : Plan) : PlanEdit → Plan
  | .replan trigger repairId now => (LLMGoalPlanner.replan plan trigger repairId.value now).1
  | .judge id value => plan.updateNode id (·.withJudgeMetadata value)
  | .append newId now verdict nextIteration maxIterations =>
    (appendNextIteration (fun n => (newId n).value) now verdict nextIteration maxIterations plan).1
  | .repairBarriers => repairPendingIterationPhaseBarriers plan
  | .status id value => plan.updateNode id (·.withStatus value)

def Plan.edited (plan : Plan) (edits : List PlanEdit) : Plan :=
  edits.foldl PlanEdit.apply plan

def PlanEdit.InCurrentSprint (plan : Plan) : PlanEdit → Prop
  | .replan trigger _ _ =>
    ∀ node, trigger.nodeId.bind plan.nodes.get = some node →
      LLMGoalPlanner.wantsRepairNode plan node trigger →
      LLMGoalPlanner.existingPendingRepairNode plan node = none →
      LLMGoalPlanner.repairIterationIndex plan node = node.iterationIndex
  | _ => True

def RepairsInCurrentSprint : Plan → List PlanEdit → Prop
  | _, [] => True
  | plan, edit :: edits => edit.InCurrentSprint plan ∧ RepairsInCurrentSprint (edit.apply plan) edits

def NoLaterPhase (plan : Plan) : Prop :=
  ∀ node ∈ plan.nodes.values, ∀ dep ∈ node.dependsOn, ∀ node' ∈ plan.nodes.get dep,
    node'.iterationPhase.index ≤ node.iterationPhase.index

instance (plan : Plan) : Decidable (NoLaterPhase plan) :=
  inferInstanceAs (Decidable (∀ node ∈ plan.nodes.values, ∀ dep ∈ node.dependsOn,
    ∀ node' ∈ plan.nodes.get dep, node'.iterationPhase.index ≤ node.iterationPhase.index))

variable {k : PhaseKey} {pos : String → ℚ} {plan plan' : Plan} {node node' : PlanNode}

section Signatures

def carries (plan : Plan) (signature : String) (id : String) : Bool :=
  (plan.nodes.get id).any (·.text "repair_failure_signature" = some signature)

theorem carries_iff {signature id : String}
    : carries plan signature id
        ↔
      ∃ node, plan.nodes.get id = some node ∧
        node.text "repair_failure_signature" = some signature := by
  unfold carries
  rw [Option.any_eq_true]
  simp only [decide_eq_true_eq]

theorem repairSignatureCount_eq (plan : Plan) (signature : String)
    : LLMGoalPlanner.repairSignatureCount plan signature
        =
      (plan.nodes.keys.filter (carries plan signature)).length := by
  unfold LLMGoalPlanner.repairSignatureCount
  rw [← Plan.ids_eq_keys, List.filter_map, List.length_map]
  congr 1
  apply List.filter_congr
  intro node hnode
  unfold carries
  rw [Function.comp_apply, Plan.mem_values.mp hnode]
  rfl

theorem length_filter_carries_le {signature : String} {ids : List String}
    (h : ∀ id, carries plan signature id → id ∈ ids)
    : LLMGoalPlanner.repairSignatureCount plan signature ≤ ids.length := by
  rw [repairSignatureCount_eq]
  have hnodup : (plan.nodes.keys.filter (carries plan signature)).Nodup :=
    (plan.nodup_keys).filter _
  apply (hnodup.subperm _).length_le
  intro id hid
  apply h
  exact (List.mem_filter.mp hid).2

theorem mem_carriers {signature id : String} (h : carries plan signature id)
    : id ∈ plan.nodes.keys.filter (carries plan signature) := by
  rcases carries_iff.mp h with ⟨node, hget, _⟩
  rw [List.mem_filter]
  exact ⟨Plan.mem_keys_of_get hget, h⟩

def SignaturesBounded (plan : Plan) : Prop :=
  ∀ signature, signature ≠ "" → LLMGoalPlanner.repairSignatureCount plan signature ≤ 2

theorem SignaturesBounded.mono (h : SignaturesBounded plan)
    (hcarries : ∀ signature id, carries plan' signature id → carries plan signature id)
    : SignaturesBounded plan' := by
  intro signature hne
  apply le_trans _ (h signature hne)
  rw [repairSignatureCount_eq plan]
  apply length_filter_carries_le
  intro id hid
  apply mem_carriers (hcarries signature id hid)

theorem carries_of_sameRole {signature id : String}
    (h : ∀ node', plan'.nodes.get id = some node' →
      ∃ node, plan.nodes.get id = some node ∧ SameRole node node')
    (hcarries : carries plan' signature id)
    : carries plan signature id := by
  rw [carries_iff] at hcarries ⊢
  rcases hcarries with ⟨node', hget', htext⟩
  rcases h node' hget' with ⟨node, hget, hrole⟩
  exact ⟨node, hget, hrole.signature ▸ htext⟩

theorem count_lt_of_wantsRepairNode {trigger : ReplanTrigger}
    (h : LLMGoalPlanner.wantsRepairNode plan node trigger)
    (hne : LLMGoalPlanner.repairFailureSignature node ≠ "")
    : LLMGoalPlanner.repairSignatureCount plan (LLMGoalPlanner.repairFailureSignature node) < 2 := by
  unfold LLMGoalPlanner.wantsRepairNode at h
  simp only [Bool.and_eq_true, Bool.not_eq_true', Bool.and_eq_false_iff, decide_eq_false_iff_not] at h
  cases h.2 with
  | inl hempty => exact absurd hne hempty
  | inr hlt => apply lt_of_not_ge hlt

theorem SignaturesBounded.addRepair {trigger : ReplanTrigger} {repair : PlanNode} {repairId : String}
    (h : SignaturesBounded plan) (hwants : LLMGoalPlanner.wantsRepairNode plan node trigger)
    (hrepair : RepairNode plan node repair repairId)
    : SignaturesBounded (plan.setNode repair) := by
  intro signature hne
  have hcarries : ∀ id, carries (plan.setNode repair) signature id →
      id = repair.id ∧ signature = LLMGoalPlanner.repairFailureSignature node ∨
      carries plan signature id := by
    intro id hid
    rw [carries_iff] at hid
    rcases hid with ⟨node', hget, htext⟩
    rw [Plan.get_setNode] at hget
    split at hget
    . next heq =>
      cases hget
      rw [hrepair.signature] at htext
      exact .inl ⟨heq, (Option.some.inj htext).symm⟩
    . exact .inr (carries_iff.mpr ⟨node', hget, htext⟩)
  by_cases heq : signature = LLMGoalPlanner.repairFailureSignature node
  . have hlt := count_lt_of_wantsRepairNode hwants (heq ▸ hne)
    rw [← heq, repairSignatureCount_eq] at hlt
    apply le_trans _ hlt
    apply @length_filter_carries_le _ signature (repair.id :: plan.nodes.keys.filter (carries plan signature))
    intro id hid
    rw [List.mem_cons]
    cases hcarries id hid with
    | inl hnew => exact .inl hnew.1
    | inr hold => exact .inr (mem_carriers hold)
  . apply le_trans _ (h signature hne)
    rw [repairSignatureCount_eq plan]
    apply length_filter_carries_le
    intro id hid
    cases hcarries id hid with
    | inl hnew => exact absurd hnew.2 heq
    | inr hold => apply mem_carriers hold

theorem SignaturesBounded.setNode (h : SignaturesBounded plan)
    (hget : plan.nodes.get node.id = some node) (hrole : SameRole node node' ∧ node'.id = node.id)
    : SignaturesBounded (plan.setNode node') := by
  apply h.mono
  intro signature id
  apply carries_of_sameRole
  intro node₂ hget₂
  rw [Plan.get_setNode, hrole.2] at hget₂
  split at hget₂
  . next heq =>
    cases hget₂
    rw [heq]
    exact ⟨node, hget, hrole.1⟩
  . exact ⟨node₂, hget₂, .refl node₂⟩

theorem SignaturesBounded.replan {trigger : ReplanTrigger} {repairId : String} {now : Nat}
    (h : SignaturesBounded plan)
    : SignaturesBounded (LLMGoalPlanner.replan plan trigger repairId now).1 := by
  rcases replan_cases plan trigger repairId now with hsame | ⟨node, plan₁, result, _, hensure, hget₁,
    hresult⟩
  . rw [hsame]
    exact h
  . have hbounded : SignaturesBounded plan₁ := by
      rcases ensureRepairNode_cases hensure with ⟨rfl, _⟩ | ⟨_, _, rfl, _⟩ |
        ⟨repair, hwants, _, hrepair, _, rfl, _⟩
      . exact h
      . exact h
      . apply h.addRepair hwants hrepair
    rcases hresult with heq | ⟨node', hreset, heq⟩
    . rw [heq]
      exact hbounded
    . rw [heq]
      apply hbounded.setNode hget₁ (sameRole_resetNode hreset)

theorem SignaturesBounded.updateNode {id : String} {f : PlanNode → PlanNode} (h : SignaturesBounded plan)
    (hf : ∀ node, (f node).id = node.id) (hrole : ∀ node, SameRole node (f node))
    : SignaturesBounded (plan.updateNode id f) := by
  unfold Plan.updateNode
  cases hget : plan.nodes.get id with
  | none => exact h
  | some node =>
    apply h.setNode _ ⟨hrole node, hf node⟩
    rw [plan.keyed id node hget]
    exact hget

theorem SignaturesBounded.repair (h : SignaturesBounded plan)
    : SignaturesBounded (repairPendingIterationPhaseBarriers plan) := by
  apply h.mono
  intro signature id
  apply carries_of_sameRole
  intro node' hget'
  rw [get_repair, Option.map_eq_some_iff] at hget'
  rcases hget' with ⟨node, hget, rfl⟩
  exact ⟨node, hget, sameRole_repairIterationNode plan node⟩

theorem SignaturesBounded.sprint {newId : Nat → String} {tasks : List IterationNextTask}
    {nextIteration : Nat} (h : SignaturesBounded plan)
    (hsprint : SprintNodes newId tasks nextIteration plan plan')
    : SignaturesBounded plan' := by
  apply h.mono
  intro signature id hcarries
  by_cases hid : id ∈ plan.nodes.keys
  . apply carries_of_sameRole _ hcarries
    intro node' hget'
    rcases hsprint.old id hid with ⟨node, node₂, hget, hget₂, hrole, _⟩
    rw [hget'] at hget₂
    cases hget₂
    exact ⟨node, hget, hrole⟩
  . rcases carries_iff.mp hcarries with ⟨node', hget', htext⟩
    rcases hsprint.new id node' hget' hid with ⟨_, _, _, hplanned, _⟩
    rw [hplanned.signature] at htext
    cases htext

end Signatures

section Runs

theorem sprintNodes_append (newId : Nat → String) (now : Nat) (verdict : IterationReviewVerdict)
    (nextIteration maxIterations : Nat) (plan : Plan)
    : (appendNextIteration newId now verdict nextIteration maxIterations plan).1 = plan ∨
      SprintNodes newId verdict.nextTasks nextIteration plan
        (appendNextIteration newId now verdict nextIteration maxIterations plan).1 := by
  rcases appendNextIteration_cases newId now verdict nextIteration maxIterations plan with
    ⟨hsame, _⟩ | ⟨added, hprefix, hadded⟩ | hall
  . exact .inl hsame
  . exact .inr (hadded.sprintNodes hprefix)
  . exact .inr (appended_of_appendNextIteration hall).sprintNodes

theorem strip_nodeId {newId : Nat → DrawnId} {tasks : List IterationNextTask} {spec : TaskSpec}
    (hspec : spec ∈ taskSpecs (fun n => (newId n).value) tasks)
    : Text.strip spec.nodeId = spec.nodeId := by
  rcases mem_taskSpecs.mp hspec with ⟨i, task, _, rfl⟩
  unfold taskSpec idMap
  dsimp only
  rw [get_byTaskId]
  cases lastWithId tasks.zipIdx task.id with
  | none => apply (newId _).stripped
  | some t => apply (newId _).stripped

theorem sameRole_withStatus (value : NodeStatus) (node : PlanNode)
    : SameRole node (node.withStatus value) :=
  ⟨rfl, rfl, rfl, rfl, id, rfl, rfl⟩

theorem withJudgeMetadata_id (value : JudgeMetadata) (node : PlanNode)
    : (node.withJudgeMetadata value).id = node.id := by
  rfl

theorem get_withJudgeMetadata (value : JudgeMetadata) (node : PlanNode) {key : String}
    (h : ¬ "last_verification".toList <+: key.toList)
    : (node.withJudgeMetadata value).metadata.get key = node.metadata.get key := by
  apply get_withAll_of_notMem
  simp only [List.map_cons, List.map_nil, List.mem_cons, List.not_mem_nil, or_false, not_or]
  refine ⟨?_, ?_, ?_⟩ <;>
  . rintro rfl
    exact h (by decide)

theorem sameRole_withJudgeMetadata (value : JudgeMetadata) (node : PlanNode)
    : SameRole node (node.withJudgeMetadata value) ∧
      (node.withJudgeMetadata value).repairBlockingDependencyId = node.repairBlockingDependencyId := by
  have hindex := @get_withJudgeMetadata value node "iteration_index" (by decide)
  have hphase := @get_withJudgeMetadata value node "iteration_phase" (by decide)
  refine ⟨⟨rfl, rfl, ?_, ?_, ?_, ?_, ?_⟩, ?_⟩
  . unfold PlanNode.iterationIndex
    rw [hindex]
  . unfold PlanNode.iterationPhase
    rw [text_eq_of_get hphase]
    rfl
  . rw [text_eq_of_get hphase]
    exact id
  . apply text_eq_of_get
    apply get_withJudgeMetadata _ _ (by decide)
  . apply text_eq_of_get
    apply get_withJudgeMetadata _ _ (by decide)
  . unfold PlanNode.repairBlockingDependencyId
    rw [text_eq_of_get]
    apply get_withJudgeMetadata _ _ (by decide)

theorem Layered.apply {edit : PlanEdit} (h : Layered k pos plan)
    (hrepair : ∀ trigger repairId now, edit = .replan trigger repairId now → RepairInLayer k plan trigger)
    : ∃ pos', Layered k pos' (edit.apply plan) := by
  cases edit with
  | replan trigger repairId now =>
    apply h.replan repairId.stripped
    apply hrepair _ _ _ rfl
  | judge id value =>
    refine ⟨pos, h.updateNode (fun _ => rfl) (fun node => ?_) (fun _ => rfl) (fun node => ?_)⟩
    . exact (sameRole_withJudgeMetadata value node).1
    . exact (sameRole_withJudgeMetadata value node).2
  | append newId now verdict nextIteration maxIterations =>
    rw [PlanEdit.apply]
    cases sprintNodes_append (fun n => (newId n).value) now verdict nextIteration maxIterations plan with
    | inl hsame =>
      rw [hsame]
      exact ⟨pos, h⟩
    | inr hsprint =>
      apply h.sprint hsprint
      intro spec hspec
      apply strip_nodeId hspec
  | repairBarriers => exact ⟨pos, h.repair⟩
  | status id value =>
    exact ⟨pos, h.updateNode (fun _ => rfl) (sameRole_withStatus value) (fun _ => rfl) (fun _ => rfl)⟩

theorem SignaturesBounded.apply {edit : PlanEdit} (h : SignaturesBounded plan)
    : SignaturesBounded (edit.apply plan) := by
  cases edit with
  | replan trigger repairId now => apply h.replan
  | judge id value =>
    apply h.updateNode (withJudgeMetadata_id value)
    intro node
    apply (sameRole_withJudgeMetadata value node).1
  | append newId now verdict nextIteration maxIterations =>
    rw [PlanEdit.apply]
    cases sprintNodes_append (fun n => (newId n).value) now verdict nextIteration maxIterations plan with
    | inl hsame =>
      rw [hsame]
      exact h
    | inr hsprint => apply h.sprint hsprint
  | repairBarriers => apply h.repair
  | status id value => apply h.updateNode (withStatus_id value) (sameRole_withStatus value)

theorem SignaturesBounded.edited (h : SignaturesBounded plan) (edits : List PlanEdit)
    : SignaturesBounded (plan.edited edits) := by
  induction edits generalizing plan with
  | nil => exact h
  | cons edit edits ih => apply ih h.apply

theorem Layered.edited_byPhase (h : Layered .byPhase pos plan) (edits : List PlanEdit)
    : ∃ pos', Layered .byPhase pos' (plan.edited edits) := by
  induction edits generalizing plan pos with
  | nil => exact ⟨pos, h⟩
  | cons edit edits ih =>
    have hstep : ∃ pos', Layered .byPhase pos' (edit.apply plan) := by
      apply h.apply
      intro trigger _ _ _ node _ _ _
      rfl
    rcases hstep with ⟨pos', hstep⟩
    apply ih hstep

theorem Layered.edited_bySprint {edits : List PlanEdit} (h : Layered .bySprint pos plan)
    (hsprint : RepairsInCurrentSprint plan edits)
    : ∃ pos', Layered .bySprint pos' (plan.edited edits) := by
  induction edits generalizing plan pos with
  | nil => exact ⟨pos, h⟩
  | cons edit edits ih =>
    have hstep : ∃ pos', Layered .bySprint pos' (edit.apply plan) := by
      apply h.apply
      rintro trigger repairId now rfl node htarget hwants hnone
      have hindex := hsprint.1 node htarget hwants hnone
      rw [hindex]
      rfl
    rcases hstep with ⟨pos', hstep⟩
    apply ih hstep hsprint.2

end Runs

section Claim

variable {planId : String} {newId : Nat → DrawnId} {now : Nat} {goal : GoalSpec}
  {conversationContext : Option String} {decomposition : Decomposition}

theorem Started.signaturesBounded (h : Started plan pos) : SignaturesBounded plan := by
  intro signature _
  apply le_trans _ (by decide : 1 ≤ 2)
  apply @length_filter_carries_le _ signature [plan.goalId]
  intro id hid
  rcases carries_iff.mp hid with ⟨node, hget, htext⟩
  rw [List.mem_singleton]
  by_contra hne
  rw [(h.task id node hget hne).signature] at htext
  cases htext

theorem edited_valid (h : Started plan pos) {edits : List PlanEdit}
    (hedits : NoLaterPhase plan ∨ RepairsInCurrentSprint plan edits)
    : (plan.edited edits).validate = [] := by
  rw [Plan.validate_eq_nil_iff]
  cases hedits with
  | inl hphase =>
    have hlayered : Layered .byPhase pos plan := by
      apply h.layered
      intro id node hget dep hdep node' hget'
      apply hphase node _ dep hdep node' hget'
      rw [Dict.mem_values]
      exact ⟨id, hget⟩
    rcases hlayered.edited_byPhase edits with ⟨pos', hedited⟩
    apply hedited.valid
  | inr hsprint =>
    have hlayered : Layered .bySprint pos plan := by
      apply h.layered
      intro id node _ dep _ node' _
      apply le_refl
    rcases hlayered.edited_bySprint hsprint with ⟨pos', hedited⟩
    apply hedited.valid

theorem planned_stays_valid
    (h : LLMGoalPlanner.plan planId (fun n => (newId n).value) now goal conversationContext decomposition
      = .ok plan)
    (edits : List PlanEdit)
    : (NoLaterPhase plan ∨ RepairsInCurrentSprint plan edits → (plan.edited edits).validate = []) ∧
      ∀ signature, signature ≠ "" →
        LLMGoalPlanner.repairSignatureCount (plan.edited edits) signature ≤ 2 := by
  rcases started_plan h with ⟨pos, hstarted⟩
  refine ⟨edited_valid hstarted, ?_⟩
  apply hstarted.signaturesBounded.edited edits

end Claim

section Example

def drawnId (n : Nat) : DrawnId where
  value := String.ofList ('n' :: List.replicate n 'i')
  stripped := by
    apply Text.strip_eq_self
    intro c hc
    rw [List.mem_cons, List.mem_replicate] at hc
    rcases hc with rfl | ⟨_, rfl⟩ <;> decide

def subtasksFor (dependencies : List String) : List SubTask :=
  ["a", "b", "c", "d", "e", "f"].map (fun id => { id, description := id }) ++
    [{ id := "g", description := "g", dependencies }]

def plannedFor (dependencies : List String) : Except String Plan :=
  LLMGoalPlanner.plan "plan" (fun n => (drawnId n).value) 0 { workspaceId := "ws", title := "Ship" } none
    (.subtasks [] (subtasksFor dependencies))

def planFor (dependencies : List String) : Plan :=
  match plannedFor dependencies with
  | .ok plan => plan
  | .error _ => goalPlan

def wantsRepair : JudgeMetadata where
  nextActionKind := .str "create_repair_node"
  failedCriteria := .null
  feedbackItems := .null

def repairOf (node repair : Nat) : List PlanEdit :=
  [
    .judge (drawnId node).value wantsRepair,
    .replan { kind := "verification_failed", nodeId := some (drawnId node).value } (drawnId repair) 0
  ]

def lateRepairs : List PlanEdit :=
  .append (fun n => drawnId (n + 10)) 0 (sprintVerdict ["implement"]) 2 8 ::
    (repairOf 7 20 ++ repairOf 6 21 ++ [.repairBarriers])

theorem planned_stays_valid_repaired
    : plannedFor ["a"] = .ok (planFor ["a"]) ∧
      ((planFor ["a"]).edited lateRepairs).validate = [] ∧
      ∀ signature, signature ≠ "" →
        LLMGoalPlanner.repairSignatureCount ((planFor ["a"]).edited lateRepairs) signature ≤ 2 := by
  have hplan : plannedFor ["a"] = .ok (planFor ["a"]) := rfl
  have hstays := planned_stays_valid hplan lateRepairs
  refine ⟨hplan, hstays.1 ?_, hstays.2⟩
  left
  decide

theorem late_repairs_make_cycle
    : plannedFor ["f"] = .ok (planFor ["f"]) ∧ ((planFor ["f"]).edited lateRepairs).validate ≠ [] := by
  refine ⟨rfl, ?_⟩
  rw [Ne, Plan.validate_eq_nil_iff]
  intro h
  rcases h.ranked with ⟨rank, hrank⟩
  have hresearch : rank (drawnId 6).value < rank (drawnId 20).value := hrank _ _ rfl _ (by decide)
  have hreview : rank (drawnId 20).value < rank (drawnId 21).value := hrank _ _ rfl _ (by decide)
  have hblocked : rank (drawnId 21).value < rank (drawnId 6).value := hrank _ _ rfl _ (by decide)
  omega

end Example

end Workspace
end MemStack
