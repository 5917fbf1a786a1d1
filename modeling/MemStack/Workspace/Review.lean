import MemStack.Workspace.Acyclic

/-!
This module contains how the answer of the iteration reviewer is read (`workspace_plan/iteration_review.py`)
and what the supervisor does when all nodes of a plan are done. The plan is held in memory, so what an
edit did before it raised stays. What the reviewer answers is an input, and its confidence is the number
that is read from it.
-/

namespace MemStack
namespace Workspace

open Checked

namespace Review

-- `value or default`.
def orElse (value : Option Value) (default : String) : String :=
  ((value.filter Value.truthy).map Value.text).getD default

-- `int(text)`.
def parseInt (text : String) : Except String Int :=
  let (negative, digits) := match (Text.strip text).toList with
    | '-' :: cs => (true, cs)
    | '+' :: cs => (false, cs)
    | cs => (false, cs)
  let groups := digits.splitOn '_'
  if groups.all fun group => !group.isEmpty && group.all Char.isDigit then
    let n := (groups.flatten.foldl (fun n c => 10 * n + (c.toNat - '0'.toNat)) 0 : Nat)
    .ok (if negative then -n else n)
  else
    .error s!"invalid literal for int() with base 10: {text}"

def priorityOf (value : Option Value) : Except String Int :=
  match value.filter Value.truthy with
  | none => .ok 0
  | some (.str text) => do
    let n ← parseInt text
    return max 0 n
  | some value =>
    match value.asInt with
    | some n => .ok (max 0 n)
    | none => .error "int() argument must be a string, a bytes-like object or a real number"

def stringTuple (value : Option Value) (limit : Nat) : List String :=
  let items := match value with
    | some (.str text) => [text]
    | some (.list items) => items.map Value.text
    | _ => []
  (((items.map Text.strip).filter (· ≠ "")).reverse.dedup.reverse).take limit

def optionalStr (value : Option Value) : Option String :=
  (value.bind Value.asStr).filter (Text.strip · ≠ "")

def taskId (index : Nat) (item : List (String × Value)) : String :=
  let id := Text.strip (orElse (lookup item "id") s!"t{index}")
  if id = "" then s!"t{index}" else id

def parseNextTask (index : Nat) (item : List (String × Value)) : Except String (Option IterationNextTask) :=
  let description := Text.strip (orElse (lookup item "description") "")
  let phase := Text.strip (orElse (lookup item "phase") "")
  if description = "" then
    .ok none
  else do
    let priority ← priorityOf (lookup item "priority")
    return some {
      id := taskId index item
      description := description
      targetSubagent := optionalStr (lookup item "target_subagent")
      dependencies := stringTuple (lookup item "dependencies") 8
      priority := priority
      phase := (Phase.ofText phase).map Phase.toText
    }

def parseItems : List (Value × Nat) → Except String (List IterationNextTask)
  | [] => .ok []
  | (item, i) :: items =>
    match item.asDict with
    | none => parseItems items
    | some item => do
      let task ← parseNextTask (i + 1) item
      let tasks ← parseItems items
      return task.toList ++ tasks

def parseNextTasks (value : Option Value) (maxNextTasks : Nat) : Except String (List IterationNextTask) :=
  match value.bind Value.asList with
  | none => .ok []
  | some items => parseItems (items.take maxNextTasks).zipIdx

structure Payload where
  verdict : String
  confidence : ℚ
  summary : String := ""
  nextSprintGoal : String := ""
  feedbackItems : Option Value := none
  nextTasks : Option Value := none

def needsHumanReview (summary : String) : IterationReviewVerdict where
  verdict := .needsHumanReview
  confidence := 0
  summary := summary

def minReviewConfidence : ℚ :=
  5404319552844595 / 9007199254740992

def decisionOf : String → Option IterationReviewDecision
  | "complete_goal" => some .completeGoal
  | "continue_next_iteration" => some .continueNextIteration
  | "needs_human_review" => some .needsHumanReview
  | _ => none

def orText (text default : String) : String :=
  if text = "" then default else text

def parseReviewResponse (payload : Payload) (maxNextTasks : Nat) : Except String IterationReviewVerdict :=
  match decisionOf payload.verdict with
  | none => .ok (needsHumanReview "iteration review returned an invalid verdict")
  | some verdict =>
    let summary := Text.strip payload.summary
    if payload.confidence < minReviewConfidence then
      .ok (needsHumanReview (orText summary "iteration review confidence was too low"))
    else do
      let tasks ← parseNextTasks payload.nextTasks maxNextTasks
      if verdict = .continueNextIteration ∧ tasks = [] then
        return needsHumanReview "iteration review requested continuation without next tasks"
      else
        return {
          verdict := verdict
          confidence := payload.confidence
          summary := orText summary payload.verdict
          nextSprintGoal := Text.strip payload.nextSprintGoal
          feedbackItems := stringTuple payload.feedbackItems 8
          nextTasks := tasks
        }

end Review

structure LoopConfig where
  enabled : Bool
  configuredMax : Int
  hasReviewer : Bool
  maxNextTasks : Nat

def maxIterations (config : LoopConfig) (loop : Metadata) : Nat :=
  max (max 1 config.configuredMax.toNat) ((positiveInt (loop.get "max_iterations")).getD 0)

def maxIteration (nodes : List PlanNode) : Nat :=
  match nodes with
  | [] => 1
  | _ => (nodes.map (·.iterationIndex)).foldl max 0

def hasIterationNodes (plan : Plan) (iterationIndex : Nat) : Bool :=
  (runnableNodes plan).any (·.iterationIndex = iterationIndex)

structure Completion where
  plan : Plan
  error : Option String := none
  reviewed : Option Nat := none

def loopUpdates (current limit : Nat) (status : String) : List (String × Value) :=
  [
    ("mode", .str "auto"),
    ("current_iteration", .int current),
    ("max_iterations", .int limit),
    ("loop_status", .str status)
  ]

def reviewUpdates (loop : Metadata) (verdict : IterationReviewVerdict) (current : Nat)
    : List (String × Value) :=
  [
    ("last_review_summary", .str verdict.summary),
    ("reviewed_iterations", appendInt (loop.get "reviewed_iterations") current)
  ]

def clampTasks (verdict : IterationReviewVerdict) (maxNextTasks : Nat) : IterationReviewVerdict :=
  { verdict with nextTasks := verdict.nextTasks.take maxNextTasks }

section Completed

variable (config : LoopConfig) (answer : Except String Review.Payload) (newId : Nat → String) (now : Nat)
  (plan : Plan)

def endLoop (reviewed : Option Nat) (status : PlanStatus) (updates : List (String × Value)) : Completion :=
  let edited := Edited.ofExcept plan (replaceGoalLoopMetadata plan status updates)
  { plan := edited.1, error := edited.2, reviewed }

def afterReview (loop : Metadata) (limit current : Nat) (verdict : IterationReviewVerdict) : Completion :=
  if verdict.verdict = .completeGoal then
    endLoop plan (some current) .completed (loopUpdates current limit "completed" ++ [
      ("stop_reason", .str ""),
      ("completed_iterations", appendInt (loop.get "completed_iterations") current)
    ] ++ reviewUpdates loop verdict current)
  else if verdict.verdict = .needsHumanReview ∨ verdict.confidence < Review.minReviewConfidence ∨
      verdict.nextTasks = [] then
    let reason := Review.orText verdict.summary "iteration review requires human review"
    endLoop plan (some current) .suspended (loopUpdates current limit "suspended" ++ [
      ("stop_reason", .str reason),
      ("feedback_items", .list (verdict.feedbackItems.map .str))
    ] ++ reviewUpdates loop verdict current)
  else
    let edited := appendNextIteration newId now verdict (current + 1) limit plan
    { plan := edited.1, error := edited.2, reviewed := some current }

def handleCompletedProgress : Completion :=
  let current := maxIteration (runnableNodes plan)
  if !config.enabled then
    { plan := { plan with status := .completed } }
  else
    match plan.goalNode with
    | .error e => { plan, error := some e }
    | .ok goal =>
      let loop := goalIterationLoopMetadata goal
      let limit := maxIterations config loop
      if !config.hasReviewer then
        if (loop.get "mode").bind Value.asStr = some "auto" then
          endLoop plan none .suspended (loopUpdates current limit "suspended" ++
            [("stop_reason", .str "iteration review agent is unavailable")])
        else
          { plan := { plan with status := .completed } }
      else if runnableNodes plan = [] then
        { plan := { plan with status := .completed } }
      else if hasIterationNodes plan (current + 1) then
        endLoop plan none .active (loopUpdates (current + 1) limit "active" ++ [("stop_reason", .str "")])
      else if (loop.get "loop_status").bind Value.asStr = some "paused" then
        endLoop plan none .suspended (loopUpdates current limit "paused" ++
          [("stop_reason", .str (Review.orElse (loop.get "stop_reason") "auto-loop paused"))])
      else if limit ≤ current then
        endLoop plan none .suspended (loopUpdates current limit "suspended" ++
          [("stop_reason", .str s!"max iterations reached: {limit}")])
      else if (current : Int) ∈ intList (loop.get "reviewed_iterations") then
        endLoop plan none .suspended (loopUpdates current limit "suspended" ++
          [("stop_reason", .str "iteration already reviewed without a next sprint")])
      else
        match answer.bind fun payload => Review.parseReviewResponse payload config.maxNextTasks with
        | .error e => { plan, error := some e, reviewed := some current }
        | .ok verdict =>
          afterReview newId now plan loop limit current (clampTasks verdict config.maxNextTasks)

end Completed

def isComplete (plan : Plan) : Bool :=
  runnableNodes plan ≠ [] ∧ ∀ node ∈ runnableNodes plan, node.intent = .done

def PlanEdit.isAppend : PlanEdit → Bool
  | .append .. => true
  | _ => false

structure Tick where
  edits : List PlanEdit
  answer : Except String Review.Payload
  newId : Nat → DrawnId
  now : Nat
  raises : Bool
  noAppend : ∀ edit ∈ edits, ¬ edit.isAppend

def Tick.run (config : LoopConfig) (tick : Tick) (plan : Plan) : Completion :=
  if plan.status = .active ∨ plan.status = .draft then
    let plan := plan.edited tick.edits
    if !tick.raises && isComplete plan then
      handleCompletedProgress config tick.answer (fun n => (tick.newId n).value) tick.now plan
    else
      { plan }
  else
    { plan }

end Workspace
end MemStack
