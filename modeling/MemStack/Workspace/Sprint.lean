import MemStack.Workspace.Plan

/-!
This module contains how the supervisor plans the next sprint and how it repairs the barriers between
the phases of a sprint (`workspace_plan/supervisor.py`). Identifiers are drawn from a supply. Metadata
that is taken from the text of a task, and what the review says about findings, confidence and history,
is left out.
-/

namespace MemStack
namespace Workspace

open Checked

abbrev Edited := Plan × Option String

namespace Edited

def andThen (edited : Edited) (f : Plan → Edited) : Edited :=
  match edited.2 with
  | some _ => edited
  | none => f edited.1

def ofExcept (plan : Plan) : Except String Plan → Edited
  | .ok plan' => (plan', none)
  | .error e => (plan, some e)

end Edited

def editAll {β : Type} (f : Plan → β → Except String Plan) : List β → Plan → Edited
  | [], plan => (plan, none)
  | b :: bs, plan => (Edited.ofExcept plan (f plan b)).andThen (editAll f bs)

def withAll (metadata : Metadata) (updates : List (String × Value)) : Metadata :=
  updates.foldl (fun metadata e => metadata.set e.1 e.2) metadata

def Phase.scrumArtifact : Phase → String
  | .research => "product_discovery"
  | .plan => "sprint_backlog"
  | .implement => "increment"
  | .test => "verification"
  | .deploy => "release_candidate"
  | .review => "feedback"

namespace PlanNode

def postInit (node : PlanNode) : Except String PlanNode := do
  ensure (Text.strip node.title ≠ "") "PlanNode.title cannot be empty"
  return node

def withDependsOn (node : PlanNode) (deps : Finset String) : Except String PlanNode :=
  if h : node.id ∉ deps then
    .ok { node with dependsOn := deps, id_notMem := h }
  else
    .error "PlanNode.depends_on cannot contain self"

def isRunnable (node : PlanNode) : Bool :=
  node.kind = .task ∨ node.kind = .verify

def repairBlockingDependencyId (node : PlanNode) : Option String :=
  ((node.text "blocked_by_repair_node_id").map Text.strip).filter (· ≠ "")

end PlanNode

def plannerNodeMetadata (sequence : Nat) : List (String × Value) :=
  let phase := iterationPhaseForSequence (some sequence)
  [
    ("acceptance_source", .str "planner_structural_v1"),
    ("iteration_index", .int 1),
    ("iteration_phase", .str phase.toText),
    ("iteration_loop", .str "scrum_feedback_loop_v1"),
    ("scrum_artifact", .str phase.scrumArtifact)
  ]

structure IterationNextTask where
  id : String
  description : String
  targetSubagent : Option String := none
  dependencies : List String := []
  priority : Int := 0
  phase : Option String := none
  deriving DecidableEq, Repr

inductive IterationReviewDecision where
  | completeGoal
  | continueNextIteration
  | needsHumanReview
  deriving DecidableEq, Repr

structure IterationReviewVerdict where
  verdict : IterationReviewDecision
  confidence : ℚ
  summary : String
  nextSprintGoal : String := ""
  feedbackItems : List String := []
  nextTasks : List IterationNextTask := []

def nextIterationTaskPhase (task : IterationNextTask) (sequence : Nat) : Phase :=
  (task.phase.bind Phase.ofText).getD (iterationPhaseForSequence (some sequence))

def byTaskId {α : Type} (f : Nat → IterationNextTask → α) (tasks : List IterationNextTask)
    : Dict String α :=
  tasks.zipIdx.foldl (fun d t => if t.1.id = "" then d else d.set t.1.id (f t.2 t.1)) .empty

structure TaskSpec where
  sequence : Nat
  task : IterationNextTask
  nodeId : String
  phase : Phase

section Append

variable (newId : Nat → String) (tasks : List IterationNextTask)

def idMap : Dict String String :=
  byTaskId (fun i _ => newId i) tasks

def sequenceByTaskId : Dict String Nat :=
  byTaskId (fun i _ => i + 1) tasks

def phaseByTaskId : Dict String Phase :=
  byTaskId (fun i task => nextIterationTaskPhase task (i + 1)) tasks

def taskSpec (i : Nat) (task : IterationNextTask) : TaskSpec where
  sequence := i + 1
  task := task
  nodeId := ((idMap newId tasks).get task.id).getD (newId (tasks.length + i))
  phase := nextIterationTaskPhase task (i + 1)

def taskSpecs : List TaskSpec :=
  tasks.zipIdx.map fun t => taskSpec newId tasks t.2 t.1

def phaseBarrierDependencies (phase : Phase) (nodesByPhase : Phase → List String) : List String :=
  (Phase.all.take phase.index).flatMap nodesByPhase

def nodesByPhase (phase : Phase) : List String :=
  ((taskSpecs newId tasks).filter (·.phase = phase)).map (·.nodeId)

def explicitDependencies (spec : TaskSpec) : List String :=
  spec.task.dependencies.filterMap fun dep =>
    ((idMap newId tasks).get dep).filter fun nodeId =>
      nodeId ≠ spec.nodeId ∧
      ((sequenceByTaskId tasks).get dep).getD (spec.sequence + 1) < spec.sequence ∧
      (((phaseByTaskId tasks).get dep).getD .research).index ≤ spec.phase.index

def taskDependencies (spec : TaskSpec) : Finset String :=
  (explicitDependencies newId tasks spec ++
    phaseBarrierDependencies spec.phase (nodesByPhase newId tasks)).toFinset

end Append

def iterationNode (plan : Plan) (nextIteration now : Nat) (spec : TaskSpec) : PlanNode where
  id := spec.nodeId
  planId := plan.id
  parentId := some plan.goalId
  kind := .task
  title :=
    let title := String.ofList (spec.task.description.toList.take 120)
    if title = "" then s!"Iteration {nextIteration} task {spec.sequence}" else title
  description := spec.task.description
  featureCheckpoint := some { sequence := spec.sequence }
  priority := spec.task.priority.toNat
  metadata := withAll .empty (plannerNodeMetadata spec.sequence ++ [
    ("iteration_index", .int nextIteration),
    ("iteration_phase", .str spec.phase.toText),
    ("iteration_loop", .str "scrum_feedback_loop_v1"),
    ("scrum_artifact", .str spec.phase.scrumArtifact)
  ])
  createdAt := now

def addNextIterationNode (nextIteration now : Nat) (plan : Plan) (spec : TaskSpec)
    : Except String Plan := do
  let node ← (iterationNode plan nextIteration now spec).postInit
  plan.addNode node

def setDependencies (deps : TaskSpec → Finset String) (plan : Plan) (spec : TaskSpec)
    : Except String Plan :=
  match plan.nodes.get spec.nodeId with
  | none => .error spec.nodeId
  | some node => do
    let node ← node.withDependsOn (deps spec)
    plan.replaceNode node

def loopOf (entries : List (String × Value)) : Metadata :=
  withAll .empty entries

def goalIterationLoopMetadata (goal : PlanNode) : Metadata :=
  loopOf (((goal.metadata.get "iteration_loop").bind Value.asDict).getD [])

def replaceGoalLoopMetadata (plan : Plan) (status : PlanStatus) (updates : List (String × Value))
    : Except String Plan := do
  let goal ← plan.goalNode
  let loop := withAll (goalIterationLoopMetadata goal) updates
  let goal := { goal with metadata := goal.metadata.set "iteration_loop" (.dict loop.entries) }
  let plan ← plan.replaceNode goal
  return { plan with status }

def intList (value : Option Value) : List Int :=
  ((value.bind Value.asList).getD []).filterMap fun item =>
    match item.asInt with
    | some n => some n
    | none => (item.asStr.bind digits).map Int.ofNat

def appendInt (value : Option Value) (item : Int) : Value :=
  let items := intList value
  .list ((if item ∈ items then items else items ++ [item]).map .int)

def nextSprintUpdates (loop : Metadata) (verdict : IterationReviewVerdict)
    (nextIteration maxIterations : Nat) : List (String × Value) :=
  [
    ("mode", .str "auto"),
    ("current_iteration", .int nextIteration),
    ("max_iterations", .int maxIterations),
    ("loop_status", .str "active"),
    ("last_review_summary", .str verdict.summary),
    ("current_sprint_goal", .str verdict.nextSprintGoal),
    ("next_sprint_goal", .str verdict.nextSprintGoal),
    ("stop_reason", .str ""),
    ("feedback_items", .list (verdict.feedbackItems.map .str)),
    ("completed_iterations", appendInt (loop.get "completed_iterations") (nextIteration - 1)),
    ("reviewed_iterations", appendInt (loop.get "reviewed_iterations") (nextIteration - 1))
  ]

def appendNextIteration (newId : Nat → String) (now : Nat) (verdict : IterationReviewVerdict)
    (nextIteration maxIterations : Nat) (plan : Plan) : Edited :=
  match plan.goalNode with
  | .error e => (plan, some e)
  | .ok goal =>
    let loop := goalIterationLoopMetadata goal
    let specs := taskSpecs newId verdict.nextTasks
    ((editAll (addNextIterationNode nextIteration now) specs plan).andThen
      (editAll (setDependencies (taskDependencies newId verdict.nextTasks)) specs)).andThen
      fun plan => Edited.ofExcept plan (replaceGoalLoopMetadata plan .active
        (nextSprintUpdates loop verdict nextIteration maxIterations))

section Barriers

variable (plan : Plan)

def runnableNodes : List PlanNode :=
  plan.nodes.values.filter (·.isRunnable)

def iterationNodes (iterationIndex : Nat) : List PlanNode :=
  (runnableNodes plan).filter (·.iterationIndex = iterationIndex)

def PlanNode.orderKey (node : PlanNode) : ℕ ×ₗ ℕ ×ₗ String :=
  toLex (node.sequence, toLex (node.createdAt, node.id))

def orderedIterationNodes (nodes : List PlanNode) : List PlanNode :=
  nodes.insertionSort fun a b => a.orderKey ≤ b.orderKey

section Ordered

variable (ordered : List PlanNode) (node : PlanNode)

def sequenceByNode (id : String) : Option Nat :=
  (ordered.findIdx? (·.id = id)).map (· + 1)

def comesBefore (dep : String) : Bool :=
  let nodeSequence := (sequenceByNode ordered node.id).getD 0
  (sequenceByNode ordered dep).getD (nodeSequence + 1) < nodeSequence

def phaseNodes (phase : Phase) : List String :=
  (ordered.filter (·.iterationPhase = phase)).map (·.id)

def desiredDependencies : Finset String :=
  (node.dependsOn.filter (fun dep => dep ∉ ordered.map (·.id) ∨ comesBefore ordered node dep) ∪
    node.repairBlockingDependencyId.toFinset ∪
    ((phaseBarrierDependencies node.iterationPhase (phaseNodes ordered)).filter
      (comesBefore ordered node)).toFinset).erase node.id

def repairedNode : PlanNode :=
  let phase := node.iterationPhase
  if node.intent ≠ .todo ∨ node.hasAttempt then
    node
  else if desiredDependencies ordered node = node.dependsOn ∧
      node.text "iteration_phase" = some phase.toText then
    node
  else
    { node with
      dependsOn := desiredDependencies ordered node
      metadata := withAll node.metadata [
        ("iteration_phase", .str phase.toText),
        ("scrum_artifact", .str phase.scrumArtifact)
      ]
      id_notMem := Finset.notMem_erase _ _
    }

end Ordered

def repairIterationNode (node : PlanNode) : PlanNode :=
  let nodes := iterationNodes plan node.iterationIndex
  if node.isRunnable ∧ 1 < node.iterationIndex ∧ 2 ≤ nodes.length then
    repairedNode (orderedIterationNodes nodes) node
  else
    node

theorem repairIterationNode_id (node : PlanNode) : (repairIterationNode plan node).id = node.id := by
  unfold repairIterationNode repairedNode
  dsimp only
  split
  . split
    . rfl
    . split <;> rfl
  . rfl

def Plan.mapNodes (f : PlanNode → PlanNode) (hf : ∀ node, (f node).id = node.id) : Plan where
  id := plan.id
  workspaceId := plan.workspaceId
  goalId := plan.goalId
  nodes := plan.nodes.mapValues f
  status := plan.status
  keyed id node h := by
    rw [Dict.get_mapValues, Option.map_eq_some_iff] at h
    rcases h with ⟨node', hget, rfl⟩
    rw [hf]
    apply plan.keyed id node' hget

def repairPendingIterationPhaseBarriers : Plan :=
  plan.mapNodes (repairIterationNode plan) (repairIterationNode_id plan)

end Barriers

end Workspace
end MemStack
