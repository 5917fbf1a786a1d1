import MemStack.Workspace.Sprint

/-!
This module contains how a goal becomes a plan and how a node is planned again after its verification
failed (`workspace_plan/planner.py`). What the decomposer answers is an input. Of the metadata of a
repair node only the part that is read later is kept.
-/

namespace MemStack
namespace Workspace

open Checked

namespace Value

def truthy : Value → Bool
  | .null => false
  | .bool b => b
  | .int n => n ≠ 0
  | .str s => s ≠ ""
  | .list items => !items.isEmpty
  | .dict entries => !entries.isEmpty

-- `repr` of a string, for characters of ASCII.
def quote (s : String) : String :=
  let codes := s.toList.map Char.toNat
  let delimiter := if 0x27 ∈ codes ∧ 0x22 ∉ codes then 0x22 else 0x27
  let escape (n : Nat) : String :=
    if n = delimiter ∨ n = 0x5C then "\\" ++ String.singleton (Char.ofNat n)
    else if n = 0x0A then "\\n"
    else if n = 0x0D then "\\r"
    else if n = 0x09 then "\\t"
    else if n < 0x20 ∨ n = 0x7F then
      "\\x" ++ String.ofList [Nat.digitChar (n / 16), Nat.digitChar (n % 16)]
    else String.singleton (Char.ofNat n)
  let border := String.singleton (Char.ofNat delimiter)
  border ++ String.join (codes.map escape) ++ border

mutual

def repr : Value → String
  | .null => "None"
  | .bool b => if b then "True" else "False"
  | .int n => toString n
  | .str s => quote s
  | .list items => "[" ++ ", ".intercalate (reprItems items) ++ "]"
  | .dict entries => "\x7b" ++ ", ".intercalate (reprEntries entries) ++ "\x7d"

def reprItems : List Value → List String
  | [] => []
  | item :: items => item.repr :: reprItems items

def reprEntries : List (String × Value) → List String
  | [] => []
  | entry :: entries => reprEntry entry :: reprEntries entries

def reprEntry : String × Value → String
  | (key, value) => quote key ++ ": " ++ value.repr

end

-- `str` of a value.
def text : Value → String
  | .str s => s
  | value => value.repr

end Value

structure GoalSpec where
  workspaceId : String
  title : String
  description : String := ""
  deriving DecidableEq, Repr

structure SubTask where
  id : String
  description : String
  dependencies : List String := []
  priority : Int := 0
  deriving DecidableEq, Repr

inductive Decomposition where
  | suspended (metadata : List (String × Value))
  | subtasks (metadata : List (String × Value)) (subtasks : List SubTask)

structure ReplanTrigger where
  kind : String
  nodeId : Option String := none
  detail : String := ""
  deriving DecidableEq, Repr

namespace LLMGoalPlanner

def softwareIterationContractActive (conversationContext : Option String) : Bool :=
  Text.contains (conversationContext.getD "") "Software workspace planning contract:"

def initialGoalMetadata (goal : GoalSpec) (conversationContext : Option String) : Metadata :=
  if softwareIterationContractActive conversationContext then
    withAll .empty [("iteration_loop", .dict [
      ("mode", .str "auto"),
      ("current_iteration", .int 1),
      ("loop_status", .str "active"),
      ("current_sprint_goal", .str goal.title)
    ])]
  else
    .empty

def goalPlanningMetadata (metadata : List (String × Value)) : List (String × Value) :=
  metadata.filter fun e =>
    e.1 = "decomposition_source" ∧ e.2.truthy ∨ e.1 = "planning_contract" ∧ e.2.asDict.isSome

def suspendedMetadata (metadata : List (String × Value)) : Metadata :=
  withAll .empty ([
    ("planning_status", .str "suspended"),
    ("planner_contract_missing", .bool true)
  ] ++ metadata)

section Plan

variable (planId : String) (newId : Nat → String) (now : Nat) (goal : GoalSpec)
  (conversationContext : Option String)

def goalNode : PlanNode where
  id := newId 0
  planId := planId
  kind := .goal
  title := goal.title
  description := goal.description
  metadata := initialGoalMetadata goal conversationContext
  createdAt := now

def emptyPlan : Plan where
  id := planId
  workspaceId := goal.workspaceId
  goalId := newId 0
  status := .active

def taskNode (id : String) (sequence : Nat) (title description : String) (priority : Int) : PlanNode where
  id := id
  planId := planId
  parentId := some (newId 0)
  kind := .task
  title := title
  description := description
  featureCheckpoint := some { sequence }
  priority := priority.toNat
  metadata := withAll .empty (plannerNodeMetadata sequence)
  createdAt := now

def idMap (subtasks : List SubTask) : Dict String String :=
  subtasks.zipIdx.foldl (fun ids t => ids.set t.1.id (newId (t.2 + 1))) .empty

def nodeIdOf (subtasks : List SubTask) (subtask : SubTask) : String :=
  ((idMap newId subtasks).get subtask.id).getD ""

def subtaskNode (subtasks : List SubTask) (i : Nat) (subtask : SubTask) : PlanNode :=
  let title := Text.take 120 subtask.description
  taskNode planId newId now (nodeIdOf newId subtasks subtask) (i + 1)
    (if title = "" then s!"Task {subtask.id}" else title) subtask.description subtask.priority

def subtaskDependencies (subtasks : List SubTask) (subtask : SubTask) : Finset String :=
  (subtask.dependencies.filterMap (idMap newId subtasks).get).toFinset

def addSubtask (subtasks : List SubTask) (plan : Plan) (t : SubTask × Nat) : Except String Plan := do
  let node ← (subtaskNode planId newId now subtasks t.2 t.1).postInit
  let node ← node.withDependsOn (subtaskDependencies newId subtasks t.1)
  plan.addNode node

def addSubtasks (subtasks : List SubTask) : List (SubTask × Nat) → Plan → Except String Plan
  | [], plan => .ok plan
  | t :: ts, plan => do
    let plan ← addSubtask planId newId now subtasks plan t
    addSubtasks subtasks ts plan

def withPlanningMetadata (plan : Plan) (goalNode : PlanNode) (metadata : List (String × Value))
    : Except String Plan :=
  if metadata = [] then
    .ok plan
  else
    plan.replaceNode { goalNode with
      metadata := withAll goalNode.metadata (goalPlanningMetadata metadata)
    }

def plan (decomposition : Decomposition) : Except String Plan := do
  let goalNode ← (goalNode planId newId now goal conversationContext).postInit
  let plan ← (emptyPlan planId newId goal).addNode goalNode
  match decomposition with
  | .suspended metadata =>
    let plan ← plan.replaceNode { goalNode with
      intent := .blocked
      execution := .idle
      metadata := suspendedMetadata metadata
    }
    return { plan with status := .suspended }
  | .subtasks metadata subtasks =>
    let plan ← withPlanningMetadata plan goalNode metadata
    match subtasks with
    | [] =>
      let node ← (taskNode planId newId now (newId 1) 1 goal.title goal.description 0).postInit
      plan.addNode node
    | _ => addSubtasks planId newId now subtasks subtasks.zipIdx plan

end Plan

section Replan

variable (plan : Plan) (node : PlanNode)

def verificationFeedbackItems : List (List (String × Value)) :=
  (((node.metadata.get "last_verification_feedback_items").bind Value.asList).getD []).filterMap
    Value.asDict

def feedbackItemIsSandboxDockerRuntimeGap (item : List (String × Value)) : Bool :=
  let markers := ["failure_signature", "summary", "recommended_action"].filterMap (lookup item) ++
    (((lookup item "evidence_refs").bind Value.asList).getD []).filter fun ref => ref.asStr.isSome
  let normalized := "\n".intercalate ((markers.filter Value.truthy).map fun m => Text.lower m.text)
  Text.contains normalized "docker-runtime-unavailable-sandbox" ||
    (Text.contains normalized "docker runtime" && Text.contains normalized "sandbox" &&
      ["not available", "unavailable", "absent", "no socket", "permanent", "cannot be executed"].any
        (Text.contains normalized))

def fieldIn (item : List (String × Value)) (key : String) (values : List String) : Bool :=
  ((lookup item key).bind Value.asStr).any (· ∈ values)

def feedbackRequestsUpstreamPlanCorrection : Bool :=
  (verificationFeedbackItems node).any fun item =>
    !feedbackItemIsSandboxDockerRuntimeGap item &&
    fieldIn item "target_layer" ["planner", "reviewer", "verifier_policy"] &&
    fieldIn item "recommended_action" ["obsolete_node", "revise_plan_node", "accept_with_disposition"]

def repairFailureSignature : String :=
  let signatures := (verificationFeedbackItems node).filterMap fun item =>
    (((lookup item "failure_signature").bind Value.asStr).map Text.strip).filter (· ≠ "")
  match signatures with
  | signature :: _ => signature
  | [] =>
    let kind := (node.metadata.get "last_verification_judge_next_action_kind").filter Value.truthy
    let action := Text.strip ((kind.map Value.text).getD "")
    match ((node.metadata.get "last_verification_judge_failed_criteria").bind Value.asList).getD [] with
    | [] => ""
    | failed =>
      let criteria := ((failed.take 6).filter Value.truthy).map Value.text
      action ++ ":" ++ ",".intercalate criteria

def repairSignatureCount (signature : String) : Nat :=
  (plan.nodes.values.filter (·.text "repair_failure_signature" = some signature)).length

def existingPendingRepairNode : Option PlanNode :=
  plan.nodes.values.find? fun candidate =>
    candidate.text "repair_for_node_id" = some node.id ∧ candidate.intent ≠ .done

def repairIterationIndex : Nat :=
  let loop := ((plan.nodes.get plan.goalId).map goalIterationLoopMetadata).getD .empty
  (positiveInt (loop.get "current_iteration")).getD node.iterationIndex

def repairIterationPhase : Phase :=
  ((node.text "iteration_phase").bind fun phase =>
    Phase.ofText (Text.lower (Text.strip phase))).getD .implement

def repairTitlePrefix : String :=
  "Repair verification blockers for "

def repairSubject : Nat → List String → PlanNode → PlanNode
  | 0, _, current => current
  | fuel + 1, seen, current =>
    match current.text "repair_for_node_id" with
    | none => current
    | some parentId =>
      if parentId ∈ seen then
        current
      else
        match plan.nodes.get parentId with
        | none => current
        | some parent => repairSubject fuel (parentId :: seen) parent

def stripRepairPrefix : Nat → String → String
  | 0, title => title
  | fuel + 1, title =>
    if repairTitlePrefix.toList.isPrefixOf title.toList then
      stripRepairPrefix fuel
        (Text.strip (String.ofList (title.toList.drop repairTitlePrefix.toList.length)))
    else
      title

def repairSubjectTitle : String :=
  let current := repairSubject plan (plan.nodes.keys.length + 1) [] node
  let title := stripRepairPrefix current.title.toList.length (Text.strip current.title)
  if title = "" then current.id else title

def repairTitle : String :=
  Text.take 120 (repairTitlePrefix ++ repairSubjectTitle plan node)

def nextRepairSequence : Nat :=
  (plan.nodes.values.filterMap fun node => node.featureCheckpoint.map (·.sequence)).foldl max 0 + 1

def repairMetadata : Metadata :=
  withAll .empty (plannerNodeMetadata (nextRepairSequence plan) ++ [
    ("iteration_index", .int (repairIterationIndex plan node)),
    ("iteration_phase", .str (repairIterationPhase node).toText),
    ("scrum_artifact", .str (repairIterationPhase node).scrumArtifact),
    ("repair_for_node_id", .str node.id),
    ("repair_failure_signature", .str (repairFailureSignature node))
  ])

def repairNode (repairId : String) (now : Nat) : Except String PlanNode :=
  match node.parentId with
  | none => .error "task node must have a parent_id"
  | some parentId => do
    let repair : PlanNode := {
      id := repairId
      planId := plan.id
      parentId := some parentId
      kind := .task
      title := repairTitle plan node
      featureCheckpoint := some { sequence := nextRepairSequence plan }
      priority := max node.priority 1
      metadata := repairMetadata plan node
      createdAt := now
    }
    let repair ← repair.postInit
    repair.withDependsOn node.dependsOn

def wantsRepairNode (trigger : ReplanTrigger) : Bool :=
  trigger.kind = "verification_failed" &&
  node.text "last_verification_judge_next_action_kind" = some "create_repair_node" &&
  !feedbackRequestsUpstreamPlanCorrection node &&
  !(repairFailureSignature node ≠ "" && 2 ≤ repairSignatureCount plan (repairFailureSignature node))

def ensureRepairNodeForVerificationFailure (trigger : ReplanTrigger) (repairId : String) (now : Nat)
    : Except String (Plan × Option String) :=
  if wantsRepairNode plan node trigger then
    match existingPendingRepairNode plan node with
    | some existing => .ok (plan, some existing.id)
    | none => do
      let repair ← repairNode plan node repairId now
      let plan ← plan.addNode repair
      return (plan, some repairId)
  else
    .ok (plan, none)

def blockedByRepair (trigger : ReplanTrigger) (repairId : String) : List (String × Value) :=
  [
    ("blocked_by_repair_node_id", .str repairId),
    ("replan_source", .str "verification_judge_create_repair_node"),
    ("replan_trigger", .str trigger.kind)
  ]

def resetNode (trigger : ReplanTrigger) (repairId : Option String) : Except String PlanNode :=
  let reset := { node with intent := .todo, execution := .idle, currentAttemptId := none }
  match repairId with
  | none => .ok reset
  | some repairId =>
    { reset with metadata := withAll node.metadata (blockedByRepair trigger repairId) }.withDependsOn
      (insert repairId node.dependsOn)

def replan (trigger : ReplanTrigger) (repairId : String) (now : Nat) : Edited :=
  match trigger.nodeId.bind plan.nodes.get with
  | none => (plan, none)
  | some node =>
    match ensureRepairNodeForVerificationFailure plan node trigger repairId now with
    | .error e => (plan, some e)
    | .ok (plan, repairId) => Edited.ofExcept plan do
      let node ← resetNode node trigger repairId
      plan.replaceNode node

end Replan

end LLMGoalPlanner

end Workspace
end MemStack
