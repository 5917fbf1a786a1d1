import MemStack.Workspace.Lemmas

/-!
This module contains which sprints keep the barriers between their phases, whatever becomes of the
status of the nodes and however often the barriers are repaired.
-/

namespace MemStack
namespace Workspace

structure NodeStatus where
  intent : TaskIntent
  execution : TaskExecution
  currentAttemptId : Option String
  deriving DecidableEq, Repr

def PlanNode.withStatus (node : PlanNode) (status : NodeStatus) : PlanNode :=
  { node with
    intent := status.intent
    execution := status.execution
    currentAttemptId := status.currentAttemptId
  }

theorem withStatus_id (status : NodeStatus) (node : PlanNode) : (node.withStatus status).id = node.id := by
  rfl

namespace Plan

def updateNode (plan : Plan) (id : String) (f : PlanNode → PlanNode) : Plan :=
  match plan.nodes.get id with
  | some node => plan.setNode (f node)
  | none => plan

theorem get_updateNode {plan : Plan} {id : String} {f : PlanNode → PlanNode}
    (hf : ∀ node, (f node).id = node.id) (id' : String)
    : (plan.updateNode id f).nodes.get id'
        =
      (plan.nodes.get id').map fun node => if id' = id then f node else node := by
  unfold updateNode
  cases hget : plan.nodes.get id with
  | none =>
    by_cases heq : id' = id
    . subst heq
      simp [hget]
    . simp [heq]
  | some node =>
    have hid : (f node).id = id := (hf node).trans (plan.keyed id node hget)
    dsimp only
    rw [get_setNode, hid]
    by_cases heq : id' = id
    . subst heq
      simp [hget]
    . simp [heq]

end Plan

inductive Change where
  | repairBarriers
  | status (id : String) (value : NodeStatus)

def Change.apply (plan : Plan) : Change → Plan
  | .repairBarriers => repairPendingIterationPhaseBarriers plan
  | .status id value => plan.updateNode id (·.withStatus value)

def Plan.after (plan : Plan) (changes : List Change) : Plan :=
  changes.foldl Change.apply plan

section Sprint

variable (newId : Nat → String) (tasks : List IterationNextTask)

def InPhaseOrder : Prop :=
  (tasks.zipIdx.map fun t => (nextIterationTaskPhase t.1 (t.2 + 1)).index).Pairwise (· ≤ ·)

instance : Decidable (InPhaseOrder tasks) :=
  inferInstanceAs (Decidable (List.Pairwise _ _))

structure BarriersHold (plan : Plan) : Prop where
  edges : ∀ spec ∈ taskSpecs newId tasks, ∀ prior ∈ taskSpecs newId tasks,
    prior.phase.index < spec.phase.index →
    ∃ node, plan.nodes.get spec.nodeId = some node ∧ prior.nodeId ∈ node.dependsOn
  ready : ∀ spec ∈ taskSpecs newId tasks, ∀ prior ∈ taskSpecs newId tasks,
    prior.phase.index < spec.phase.index →
    ∀ node ∈ plan.readyNodes, node.id = spec.nodeId →
    ∃ node', plan.nodes.get prior.nodeId = some node' ∧ node'.intent = .done

end Sprint

variable {newId : Nat → String} {tasks : List IterationNextTask} {plan plan' : Plan}
  {nextIteration now : Nat} {spec prior : TaskSpec} {node : PlanNode}

theorem inPhaseOrder_iff (newId : Nat → String)
    : InPhaseOrder tasks
        ↔
      ∀ spec ∈ taskSpecs newId tasks, ∀ prior ∈ taskSpecs newId tasks,
        prior.phase.index < spec.phase.index → prior.sequence < spec.sequence := by
  unfold InPhaseOrder
  rw [List.pairwise_iff_getElem]
  simp only [List.length_map, List.length_zipIdx, List.getElem_map, List.getElem_zipIdx, mem_taskSpecs]
  constructor
  . intro h spec hspec prior hprior hphase
    rcases hspec with ⟨i, task, hi, rfl⟩
    rcases hprior with ⟨j, task', hj, rfl⟩
    rcases List.getElem?_eq_some_iff.mp hi with ⟨hlti, rfl⟩
    rcases List.getElem?_eq_some_iff.mp hj with ⟨hltj, rfl⟩
    by_contra hge
    simp only [taskSpec] at hphase hge
    cases Nat.lt_or_ge i j with
    | inl hij =>
      have hle := h i j hlti hltj hij
      simp only [Nat.zero_add] at hle
      omega
    | inr hij =>
      have hsame : i = j := by omega
      subst hsame
      omega
  . intro h i j hi hj hij
    by_contra hlt
    have hseq := h (taskSpec newId tasks i tasks[i]) ⟨i, _, List.getElem?_eq_getElem hi, rfl⟩
      (taskSpec newId tasks j tasks[j]) ⟨j, _, List.getElem?_eq_getElem hj, rfl⟩
      (by simpa [taskSpec] using hlt)
    simp only [taskSpec] at hseq
    omega

theorem eq_of_sequence_eq (hspec : spec ∈ taskSpecs newId tasks) (hprior : prior ∈ taskSpecs newId tasks)
    (heq : spec.sequence = prior.sequence)
    : spec = prior := by
  rcases mem_taskSpecs.mp hspec with ⟨i, task, hi, rfl⟩
  rcases mem_taskSpecs.mp hprior with ⟨j, task', hj, rfl⟩
  have hsame : i = j := Nat.succ_injective heq
  subst hsame
  rw [hi] at hj
  cases hj
  rfl

theorem get_of_mem_leafTasks
    : node ∈ plan.leafTasks → plan.nodes.get node.id = some node := by
  intro h
  apply Plan.mem_values.mp
  exact List.mem_of_mem_filter h

theorem mem_doneIds {id : String}
    : id ∈ plan.doneIds ↔ ∃ node, plan.nodes.get id = some node ∧ node.intent = .done := by
  unfold Plan.doneIds
  simp only [List.mem_map, List.mem_filter, decide_eq_true_eq, Plan.mem_values]
  constructor
  . intro h
    rcases h with ⟨node, ⟨hget, hdone⟩, rfl⟩
    exact ⟨node, hget, hdone⟩
  . intro h
    rcases h with ⟨node, hget, hdone⟩
    have hid := plan.keyed id node hget
    exact ⟨node, ⟨by rw [hid]; exact hget, hdone⟩, hid⟩

theorem barriersHold_of_edges
    (h : ∀ spec ∈ taskSpecs newId tasks, ∀ prior ∈ taskSpecs newId tasks,
      prior.phase.index < spec.phase.index →
      ∃ node, plan.nodes.get spec.nodeId = some node ∧ prior.nodeId ∈ node.dependsOn)
    : BarriersHold newId tasks plan := by
  refine ⟨h, ?_⟩
  intro spec hspec prior hprior hphase node hnode hid
  rcases h spec hspec prior hprior hphase with ⟨node', hget, hdep⟩
  unfold Plan.readyNodes at hnode
  rw [List.mem_filter] at hnode
  have hget' := get_of_mem_leafTasks hnode.1
  rw [hid, hget] at hget'
  cases hget'
  have hready := hnode.2
  unfold PlanNode.isReady at hready
  simp only [decide_eq_true_eq] at hready
  rw [← mem_doneIds]
  apply hready.2 prior.nodeId hdep

structure SprintNode (nextIteration : Nat) (spec : TaskSpec) (node : PlanNode) : Prop where
  isRunnable : node.isRunnable
  iterationIndex : node.iterationIndex = max 1 nextIteration
  sequence : node.sequence = spec.sequence

theorem SprintNode.of_sameNode {node' : PlanNode} (h : SprintNode nextIteration spec node)
    (hsame : SameNode node node')
    : SprintNode nextIteration spec node' := by
  refine ⟨?_, ?_, ?_⟩
  . rw [hsame.isRunnable]
    exact h.isRunnable
  . rw [hsame.iterationIndex]
    exact h.iterationIndex
  . rw [hsame.sequence]
    exact h.sequence

def Kept (newId : Nat → String) (tasks : List IterationNextTask) (nextIteration : Nat) (plan : Plan)
    : Prop :=
  ∀ spec ∈ taskSpecs newId tasks, ∃ node, plan.nodes.get spec.nodeId = some node ∧
    SprintNode nextIteration spec node ∧
    ∀ prior ∈ taskSpecs newId tasks, prior.phase.index < spec.phase.index →
      prior.nodeId ∈ node.dependsOn

theorem Kept.barriersHold (h : Kept newId tasks nextIteration plan) : BarriersHold newId tasks plan := by
  apply barriersHold_of_edges
  intro spec hspec prior hprior hphase
  rcases h spec hspec with ⟨node, hget, _, hdeps⟩
  exact ⟨node, hget, hdeps prior hprior hphase⟩

theorem sameNode_dependsOn {deps : Finset String} (h : node.id ∉ deps)
    : SameNode node { node with dependsOn := deps, id_notMem := h } := by
  exact ⟨rfl, rfl, rfl, rfl, rfl, rfl, rfl, rfl, rfl, fun _ _ _ => rfl, rfl⟩

theorem sprintNode_iterationNode (hspec : spec ∈ taskSpecs newId tasks)
    : SprintNode nextIteration spec (iterationNode plan nextIteration now spec) := by
  refine ⟨rfl, ?_, sequence_iterationNode hspec⟩
  cases Nat.eq_zero_or_pos nextIteration with
  | inl hzero =>
    subst hzero
    simp [PlanNode.iterationIndex, positiveInt, iterationNode, withAll, plannerNodeMetadata,
      Dict.get_set, Value.asInt]
  | inr hpos =>
    rw [iterationIndex_iterationNode hpos]
    omega

theorem kept_of_appended {updates : Metadata → List (String × Value)}
    (h : Appended newId now tasks nextIteration updates plan plan')
    : Kept newId tasks nextIteration plan' := by
  intro spec hspec
  rcases h.new spec hspec with ⟨hself, hget⟩
  refine ⟨_, hget, (sprintNode_iterationNode hspec).of_sameNode (sameNode_dependsOn hself), ?_⟩
  intro prior hprior hphase
  apply mem_taskDependencies_of_phase hprior hphase

theorem kept_repair (horder : nextIteration ≤ 1 ∨ InPhaseOrder tasks)
    (h : Kept newId tasks nextIteration plan)
    : Kept newId tasks nextIteration (repairPendingIterationPhaseBarriers plan) := by
  intro spec hspec
  rcases h spec hspec with ⟨node, hget, hnode, hdeps⟩
  refine ⟨repairIterationNode plan node, ?_, hnode.of_sameNode (sameNode_repairIterationNode _ _), ?_⟩
  . rw [get_repair, hget]
    rfl
  intro prior hprior hphase
  have hdep := hdeps prior hprior hphase
  cases repairIterationNode_cases plan node with
  | inl hsame =>
    rw [hsame]
    exact hdep
  | inr hchanged =>
    rw [hchanged.2.2]
    have hindex := hchanged.1
    rw [hnode.iterationIndex] at hindex
    cases horder with
    | inl hle => omega
    | inr horder =>
      rcases h prior hprior with ⟨node', hget', hnode', _⟩
      have hid := plan.keyed _ node hget
      have hid' := plan.keyed _ node' hget'
      have hmem : node ∈ iterationNodes plan node.iterationIndex :=
        mem_iterationNodes.mpr ⟨by rw [hid]; exact hget, hnode.isRunnable, rfl⟩
      have hmem' : node' ∈ iterationNodes plan node.iterationIndex := by
        apply mem_iterationNodes.mpr
        refine ⟨by rw [hid']; exact hget', hnode'.isRunnable, ?_⟩
        rw [hnode.iterationIndex, hnode'.iterationIndex]
      have hbefore : comesBefore
          (orderedIterationNodes (iterationNodes plan node.iterationIndex)) node prior.nodeId := by
        rw [← hid', comesBefore_iff (nodup_iterationNodes _) hmem' hmem]
        apply Prod.Lex.toLex_lt_toLex.mpr
        left
        rw [hnode.sequence, hnode'.sequence]
        exact (inPhaseOrder_iff newId).mp horder spec hspec prior hprior hphase
      unfold desiredDependencies
      rw [Finset.mem_erase]
      refine ⟨fun heq => node.id_notMem (heq ▸ hdep), ?_⟩
      apply Finset.mem_union_left
      apply Finset.mem_union_left
      rw [Finset.mem_filter]
      exact ⟨hdep, .inr hbefore⟩

theorem kept_withStatus {id : String} {status : NodeStatus} (h : Kept newId tasks nextIteration plan)
    : Kept newId tasks nextIteration (plan.updateNode id (·.withStatus status)) := by
  intro spec hspec
  rcases h spec hspec with ⟨node, hget, hnode, hdeps⟩
  rw [Plan.get_updateNode (withStatus_id status), hget]
  refine ⟨_, rfl, ?_⟩
  split
  . exact ⟨⟨hnode.isRunnable, hnode.iterationIndex, hnode.sequence⟩, hdeps⟩
  . exact ⟨hnode, hdeps⟩

theorem kept_after (horder : nextIteration ≤ 1 ∨ InPhaseOrder tasks)
    (h : Kept newId tasks nextIteration plan) (changes : List Change)
    : Kept newId tasks nextIteration (plan.after changes) := by
  induction changes generalizing plan with
  | nil => exact h
  | cons change changes ih =>
    apply ih
    cases change with
    | repairBarriers => exact kept_repair horder h
    | status id value => exact kept_withStatus h

theorem dependsOn_repairedNode {ordered : List PlanNode} (htodo : node.intent = .todo)
    (hattempt : ¬ node.hasAttempt)
    : (repairedNode ordered node).dependsOn = desiredDependencies ordered node := by
  unfold repairedNode
  dsimp only
  rw [if_neg]
  . split
    . next h => exact h.1.symm
    . rfl
  . simp [htodo, hattempt]

theorem notMem_desiredDependencies {ordered : List PlanNode} {dep : String}
    (hmem : dep ∈ ordered.map (·.id)) (hbefore : ¬ comesBefore ordered node dep)
    (hrepair : node.repairBlockingDependencyId = none)
    : dep ∉ desiredDependencies ordered node := by
  unfold desiredDependencies
  simp only [Finset.mem_erase, Finset.mem_union, Finset.mem_filter, hrepair, List.mem_toFinset,
    List.mem_filter, Option.toFinset_none, Finset.notMem_empty, or_false]
  intro h
  cases h.2 with
  | inl hold =>
    cases hold.2 with
    | inl hout => exact hout hmem
    | inr hin => exact hbefore hin
  | inr hbarrier => exact hbefore hbarrier.2

theorem repairBlockingDependencyId_iterationNode
    : (iterationNode plan nextIteration now spec).repairBlockingDependencyId = none := by
  simp [PlanNode.repairBlockingDependencyId, PlanNode.text, iterationNode, withAll,
    plannerNodeMetadata, Dict.get_set]

theorem two_le_length {α : Type} {l : List α} {a b : α} (ha : a ∈ l) (hb : b ∈ l) (h : a ≠ b)
    : 2 ≤ l.length := by
  match l with
  | [] => cases ha
  | [c] => exact absurd ((List.mem_singleton.mp ha).trans (List.mem_singleton.mp hb).symm) h
  | _ :: _ :: l =>
    simp only [List.length_cons]
    omega

theorem SprintNode.mem_iterationNodes {id : String} (h : SprintNode nextIteration spec node)
    (hget : plan.nodes.get id = some node)
    : node ∈ iterationNodes plan (max 1 nextIteration) := by
  rw [Workspace.mem_iterationNodes, plan.keyed id node hget]
  exact ⟨hget, h.isRunnable, h.iterationIndex⟩

theorem SprintNode.orderKey_lt {node' : PlanNode} (h : SprintNode nextIteration spec node)
    (h' : SprintNode nextIteration prior node') (hseq : spec.sequence < prior.sequence)
    : node.orderKey < node'.orderKey := by
  apply Prod.Lex.toLex_lt_toLex.mpr
  left
  rw [h.sequence, h'.sequence]
  exact hseq

theorem edge_lost {updates : Metadata → List (String × Value)}
    (h : Appended newId now tasks nextIteration updates plan plan') (hnext : 1 < nextIteration)
    (hspec : spec ∈ taskSpecs newId tasks) (hprior : prior ∈ taskSpecs newId tasks)
    (hseq : spec.sequence < prior.sequence)
    : ∃ node, (repairPendingIterationPhaseBarriers plan').nodes.get spec.nodeId = some node ∧
      prior.nodeId ∉ node.dependsOn := by
  have hkept := kept_of_appended h
  rcases hkept spec hspec with ⟨node, hget, hnode, _⟩
  rcases hkept prior hprior with ⟨node', hget', hnode', _⟩
  have hmem := hnode.mem_iterationNodes hget
  have hmem' := hnode'.mem_iterationNodes hget'
  have hkey := hnode.orderKey_lt hnode' hseq
  have hlength : 2 ≤ (iterationNodes plan' (max 1 nextIteration)).length := by
    apply two_le_length hmem hmem'
    intro heq
    exact absurd (heq ▸ hkey) (lt_irrefl _)
  have hnew : node.intent = .todo ∧ ¬ node.hasAttempt ∧ node.repairBlockingDependencyId = none := by
    rcases h.new spec hspec with ⟨hself, hnew⟩
    rw [hget] at hnew
    cases hnew
    exact ⟨rfl, Bool.false_ne_true, @repairBlockingDependencyId_iterationNode plan nextIteration now spec⟩
  refine ⟨repairIterationNode plan' node, ?_, ?_⟩
  . rw [get_repair, hget]
    rfl
  . unfold repairIterationNode
    dsimp only
    rw [hnode.iterationIndex, if_pos ⟨hnode.isRunnable, by omega, hlength⟩,
      dependsOn_repairedNode hnew.1 hnew.2.1]
    apply notMem_desiredDependencies _ _ hnew.2.2
    . rw [← plan'.keyed _ node' hget']
      apply List.mem_map_of_mem
      exact (List.mem_insertionSort _).mpr hmem'
    . rw [← plan'.keyed _ node' hget', comesBefore_iff (nodup_iterationNodes _) hmem' hmem]
      exact not_lt_of_gt hkey

theorem not_barriersHold_repair {updates : Metadata → List (String × Value)}
    (h : Appended newId now tasks nextIteration updates plan plan') (hnext : 1 < nextIteration)
    (horder : ¬ InPhaseOrder tasks)
    : ¬ BarriersHold newId tasks (plan'.after [.repairBarriers]) := by
  rw [inPhaseOrder_iff newId] at horder
  push Not at horder
  rcases horder with ⟨spec, hspec, prior, hprior, hphase, hle⟩
  have hseq : spec.sequence < prior.sequence := by
    apply lt_of_le_of_ne hle
    intro heq
    have hsame := eq_of_sequence_eq hspec hprior heq
    rw [hsame] at hphase
    exact lt_irrefl _ hphase
  intro hold
  rcases edge_lost h hnext hspec hprior hseq with ⟨node, hget, hlost⟩
  rcases hold.edges spec hspec prior hprior hphase with ⟨node', hget', hdep⟩
  have hsame : some node = some node' := hget.symm.trans hget'
  cases hsame
  exact hlost hdep

theorem barriersHold_iff {verdict : IterationReviewVerdict} {maxIterations : Nat}
    (h : appendNextIteration newId now verdict nextIteration maxIterations plan = (plan', none))
    : (∀ changes, BarriersHold newId verdict.nextTasks (plan'.after changes))
        ↔
      nextIteration ≤ 1 ∨ InPhaseOrder verdict.nextTasks := by
  have happended := appended_of_appendNextIteration h
  constructor
  . intro hall
    by_contra hnot
    rw [not_or, not_le] at hnot
    apply not_barriersHold_repair happended hnot.1 hnot.2
    apply hall
  . intro horder changes
    apply Kept.barriersHold
    apply kept_after horder (kept_of_appended happended)

def goalPlan : Plan where
  id := "plan"
  workspaceId := "ws"
  goalId := "goal"
  nodes := Dict.empty.set "goal"
    { id := "goal", planId := "plan", kind := .goal, title := "Ship the board" }
  keyed id node h := by
    rw [Dict.get_set] at h
    split at h
    . next heq =>
      cases h
      exact heq.symm
    . cases h

def sprintTask (phase : String) : IterationNextTask where
  id := phase
  description := phase
  phase := some phase

def sprintVerdict (phases : List String) : IterationReviewVerdict where
  verdict := .continueNextIteration
  confidence := 9 / 10
  summary := "Continue"
  nextTasks := phases.map sprintTask

def nodeName (n : Nat) : String :=
  s!"node-{n}"

def secondSprint (phases : List String) : Edited :=
  appendNextIteration nodeName 1 (sprintVerdict phases) 2 8 goalPlan

theorem secondSprint_eq {phases : List String} (h : (secondSprint phases).2 = none)
    : appendNextIteration nodeName 1 (sprintVerdict phases) 2 8 goalPlan
        =
      ((secondSprint phases).1, none) := by
  rw [← h]
  rfl

theorem barriersHold_implement_test
    : (secondSprint ["implement", "test"]).2 = none ∧
      ∀ changes, BarriersHold nodeName (sprintVerdict ["implement", "test"]).nextTasks
        ((secondSprint ["implement", "test"]).1.after changes) := by
  refine ⟨rfl, ?_⟩
  apply (barriersHold_iff (secondSprint_eq rfl)).mpr
  right
  decide

theorem test_offered_before_implement
    : (secondSprint ["test", "implement"]).2 = none ∧
      ¬ BarriersHold nodeName (sprintVerdict ["test", "implement"]).nextTasks
        ((secondSprint ["test", "implement"]).1.after [.repairBarriers]) ∧
      ((secondSprint ["test", "implement"]).1.after [.repairBarriers]).readyNodes.map
        (·.iterationPhase) = [.test, .implement] := by
  refine ⟨rfl, ?_, rfl⟩
  apply not_barriersHold_repair (appended_of_appendNextIteration (secondSprint_eq rfl)) (by decide)
  decide

end Workspace
end MemStack
