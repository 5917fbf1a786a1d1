import MemStack.Util.Dict
import MemStack.Util.Kahn
import MemStack.Util.Text
import MemStack.Util.Checked

/-!
This module contains the plans of a workspace (`domain/model/workspace_plan`): nodes that depend on each
other, the schedule frontier and the structural checks. Of a node's feature checkpoint only the sequence
is kept. Structured inputs and outputs, acceptance criteria, capabilities, effort, progress and the times
of updates are left out.
-/

namespace MemStack
namespace Workspace

open Checked

inductive Value where
  | null
  | bool (b : Bool)
  | int (n : Int)
  | str (s : String)
  | list (items : List Value)
  | dict (entries : List (String × Value))

namespace Value

-- `isinstance(value, int)`, which a boolean meets as well.
def asInt : Value → Option Int
  | .int n => some n
  | .bool b => some (if b then 1 else 0)
  | _ => none

def asStr : Value → Option String
  | .str s => some s
  | _ => none

def asList : Value → Option (List Value)
  | .list items => some items
  | _ => none

def asDict : Value → Option (List (String × Value))
  | .dict entries => some entries
  | _ => none

end Value

abbrev Metadata := Dict String Value

def lookup (entries : List (String × Value)) (key : String) : Option Value :=
  (entries.find? (·.1 = key)).map Prod.snd

-- `int(value)` if `value.isdigit()`, for digits of ASCII.
def digits (s : String) : Option Nat :=
  if s ≠ "" ∧ s.toList.all Char.isDigit then
    some (s.toList.foldl (fun n c => 10 * n + (c.toNat - '0'.toNat)) 0)
  else
    none

def positiveInt (value : Option Value) : Option Nat :=
  match value.bind Value.asInt with
  | some n => if 0 < n then some n.toNat else none
  | none => ((value.bind Value.asStr).bind digits).filter (0 < ·)

inductive Phase where
  | research
  | plan
  | implement
  | test
  | deploy
  | review
  deriving DecidableEq, Repr

namespace Phase

def all : List Phase :=
  [.research, .plan, .implement, .test, .deploy, .review]

def index : Phase → Nat
  | .research => 0
  | .plan => 1
  | .implement => 2
  | .test => 3
  | .deploy => 4
  | .review => 5

def toText : Phase → String
  | .research => "research"
  | .plan => "plan"
  | .implement => "implement"
  | .test => "test"
  | .deploy => "deploy"
  | .review => "review"

def ofText (s : String) : Option Phase :=
  all.find? (·.toText = s)

@[simp]
theorem ofText_toText (phase : Phase) : ofText phase.toText = some phase := by
  cases phase <;> decide

end Phase

def iterationPhaseForSequence (sequence : Option Nat) : Phase :=
  match sequence with
  | none | some 0 => .plan
  | some (n + 1) => (Phase.all[n % 6]?).getD .plan

inductive PlanNodeKind where
  | goal
  | milestone
  | task
  | verify
  deriving DecidableEq, Repr

inductive TaskIntent where
  | todo
  | inProgress
  | blocked
  | done
  deriving DecidableEq, Repr

inductive TaskExecution where
  | idle
  | dispatched
  | running
  | reported
  | verifying
  deriving DecidableEq, Repr

def allowedIntentNext : TaskIntent → List TaskIntent
  | .todo => [.inProgress, .blocked]
  | .inProgress => [.done, .blocked, .todo]
  | .blocked => [.todo, .inProgress]
  | .done => []

def allowedExecutionNext : TaskExecution → List TaskExecution
  | .idle => [.dispatched]
  | .dispatched => [.running, .idle, .reported]
  | .running => [.reported, .idle]
  | .reported => [.verifying, .idle]
  | .verifying => [.idle]

structure FeatureCheckpoint where
  sequence : Nat
  deriving DecidableEq, Repr

theorem goal_iff_root : PlanNodeKind.goal = .goal ↔ (none : Option String) = none := by
  simp

theorem task_iff_child (parentId : String) : PlanNodeKind.task = .goal ↔ some parentId = none := by
  simp

structure PlanNode where
  id : String
  planId : String
  parentId : Option String := none
  kind : PlanNodeKind := .task
  title : String
  description : String := ""
  dependsOn : Finset String := ∅
  featureCheckpoint : Option FeatureCheckpoint := none
  priority : Nat := 0
  intent : TaskIntent := .todo
  execution : TaskExecution := .idle
  assigneeAgentId : Option String := none
  currentAttemptId : Option String := none
  metadata : Metadata := .empty
  createdAt : Nat := 0
  goal_iff : kind = .goal ↔ parentId = none := by first | exact goal_iff_root | exact task_iff_child _ | simp
  id_notMem : id ∉ dependsOn := by first | exact Finset.notMem_empty _ | simp

namespace PlanNode

variable (node : PlanNode)

def isReady (completedIds : List String) : Bool :=
  node.intent = .todo ∧ ∀ dep ∈ node.dependsOn, dep ∈ completedIds

-- The node has an attempt, `bool(node.current_attempt_id)`.
def hasAttempt : Bool :=
  node.currentAttemptId.any (· ≠ "")

def text (key : String) : Option String :=
  (node.metadata.get key).bind Value.asStr

def iterationIndex : Nat :=
  (positiveInt (node.metadata.get "iteration_index")).getD 1

def iterationPhase : Phase :=
  ((node.text "iteration_phase").bind Phase.ofText).getD
    (iterationPhaseForSequence (some ((node.featureCheckpoint.map (·.sequence)).getD 0)))

def sequence : Nat :=
  match node.featureCheckpoint.filter (0 < ·.sequence) with
  | some checkpoint => checkpoint.sequence
  | none =>
    match (node.metadata.get "sequence").bind Value.asInt with
    | some n => if 0 < n then n.toNat else 999999
    | none => (((node.text "sequence").bind digits).map (max 1)).getD 999999

end PlanNode

inductive PlanStatus where
  | draft
  | active
  | suspended
  | completed
  | abandoned
  deriving DecidableEq, Repr

theorem keyed_empty (id : String) (node : PlanNode) (h : (Dict.empty : Dict String PlanNode).get id = some node)
    : node.id = id := by
  simp at h

structure Plan where
  id : String
  workspaceId : String
  goalId : String
  nodes : Dict String PlanNode := .empty
  status : PlanStatus := .draft
  keyed : ∀ id node, nodes.get id = some node → node.id = id := by first | exact keyed_empty | simp

namespace Plan

variable (plan : Plan)

def findGoal : Option PlanNode :=
  plan.nodes.values.find? (·.kind = .goal)

def setNode (node : PlanNode) : Plan where
  id := plan.id
  workspaceId := plan.workspaceId
  goalId := plan.goalId
  nodes := plan.nodes.set node.id node
  status := plan.status
  keyed id node' h := by
    rw [Dict.get_set] at h
    split at h
    . next heq =>
      cases h
      exact heq.symm
    . apply plan.keyed id node' h

def missingDeps (node : PlanNode) : Finset String :=
  node.dependsOn.filter (· ∉ plan.nodes.keys)

def addNode (node : PlanNode) : Except String Plan := do
  let parent := node.parentId.getD "None"
  let dep := ((plan.missingDeps node).sort (· ≤ ·)).headD ""
  ensure (node.id ∉ plan.nodes.keys) s!"duplicate node id: {node.id}"
  ensure (node.planId = plan.id)
    s!"node.plan_id={node.planId} does not belong to this plan {plan.id}"
  if node.kind = .goal then
    ensure (∀ goal ∈ plan.findGoal, goal.id = node.id) "plan already has a goal node"
    ensure (node.id = plan.goalId) "goal node id must equal plan.goal_id"
  else
    ensure (∃ parentId ∈ node.parentId, parentId ∈ plan.nodes.keys)
      s!"parent_id {parent} not found in plan {plan.id}"
  ensure (plan.missingDeps node = ∅) s!"dep {dep} not found in plan {plan.id}"
  return plan.setNode node

def replaceNode (node : PlanNode) : Except String Plan := do
  ensure (node.id ∈ plan.nodes.keys) s!"node {node.id} not found in plan {plan.id}"
  return plan.setNode node

def goalNode : Except String PlanNode :=
  match plan.nodes.get plan.goalId with
  | some node => .ok node
  | none => .error s!"plan {plan.id} has no goal node"

def childrenOf (id : String) : List PlanNode :=
  plan.nodes.values.filter (·.parentId = some id)

def leafTasks : List PlanNode :=
  plan.nodes.values.filter fun node =>
    plan.childrenOf node.id = [] ∧ (node.kind = .task ∨ node.kind = .verify)

def doneIds : List String :=
  (plan.nodes.values.filter (·.intent = .done)).map (·.id)

def readyNodes : List PlanNode :=
  plan.leafTasks.filter (·.isReady plan.doneIds)

def priorityOf (id : String) : Nat :=
  ((plan.nodes.get id).map (·.priority)).getD 0

def dependents (id : String) : List String :=
  (plan.nodes.values.filter (id ∈ ·.dependsOn)).map (·.id)

def inDegree (id : String) : Int :=
  match plan.nodes.get id with
  | some node => (node.dependsOn.filter (· ∈ plan.nodes.keys)).card
  | none => 0

def topologicalOrder : Except String (List String) := do
  let visited := Kahn.run
    (fun queue => queue.insertionSort fun a b => plan.priorityOf b ≤ plan.priorityOf a)
    plan.nodes.keys plan.dependents plan.inDegree
  ensure (visited.order.length = plan.nodes.keys.length)
    s!"plan {plan.id} has a cycle in depends_on"
  return visited.order

def nodeErrors (node : PlanNode) : List String :=
  (match node.parentId with
    | some parentId =>
      if parentId ∈ plan.nodes.keys then [] else [s!"node {node.id}: parent {parentId} missing"]
    | none => []) ++
  ((plan.missingDeps node).sort (· ≤ ·)).map fun dep => s!"node {node.id}: dep {dep} missing"

def cycleErrors : List String :=
  match plan.topologicalOrder with
  | .ok _ => []
  | .error e => [e]

def validate : List String :=
  (if plan.findGoal.isNone then ["missing goal node"] else []) ++ plan.cycleErrors ++
  plan.nodes.values.flatMap plan.nodeErrors

end Plan

end Workspace
end MemStack
