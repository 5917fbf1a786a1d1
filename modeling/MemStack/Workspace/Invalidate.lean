import MemStack.Util.OnePass
import MemStack.Workspace.DispatchReports
import MemStack.Workspace.Planner

/-!
This module contains the step of a supervisor tick that resets nodes whose dependencies regressed
(`supervisor.py`, `_invalidate_nodes_with_unmet_dependencies`). The refs of an attempt stand for what is
read of the feature checkpoint of a node.
-/

namespace MemStack
namespace Workspace

structure AttemptRefs where
  commitRef : Option String := none
  worktreePath : Option String := none
  deriving DecidableEq, Repr

abbrev Refs :=
  Dict String AttemptRefs

def TaskIntent.toText : TaskIntent → String
  | .todo => "todo"
  | .inProgress => "in_progress"
  | .blocked => "blocked"
  | .done => "done"

def TaskExecution.toText : TaskExecution → String
  | .idle => "idle"
  | .dispatched => "dispatched"
  | .running => "running"
  | .reported => "reported"
  | .verifying => "verifying"

namespace Supervisor

open OnePass

def metadataText (value : Option Value) : Option String :=
  (value.bind Value.asStr).filter (Text.strip · ≠ "")

def commitRefsMatch (left right : Option String) : Bool :=
  match left.filter (· ≠ ""), right.filter (· ≠ "") with
  | some left, some right =>
    let left := Text.strip left
    let right := Text.strip right
    left = right ||
      (7 ≤ min left.length right.length &&
        (right.toList.isPrefixOf left.toList || left.toList.isPrefixOf right.toList))
  | _, _ => false

def terminalDependencyDispositionMarkers : List String :=
  ["stale", "obsolete", "superseded", "duplicate", "structurally satisfied", "structurally_satisfied",
    "redundant"]

def marked (text : String) : Bool :=
  terminalDependencyDispositionMarkers.any (Text.contains text)

-- `" ".join(str(value).lower() for value in entries.values())`.
def joinedValues (entries : List (String × Value)) : String :=
  " ".intercalate (entries.map fun e => Text.lower e.2.text)

def dispositionIsTerminal (metadata : Metadata) : Bool :=
  ((metadata.get "last_supervisor_decision_event_payload").bind Value.asDict).any (fun payload =>
    ["superseded_by_task_id", "superseded_by_node_id", "disposed_node_id", "redundant_verification_goal"].any
      (fun key => (lookup payload key).isSome) ||
    marked (joinedValues payload)) ||
  ((metadata.get "last_supervisor_decision_feedback_items").bind Value.asList).any (fun items =>
    (items.filterMap Value.asDict).any fun item => marked (joinedValues item)) ||
  (metadataText (metadata.get "last_supervisor_decision_rationale")).any (fun rationale =>
    marked (Text.lower rationale))

section Node

variable (refs : Refs) (node : PlanNode)

def metadataTextOf (key : String) : Option String :=
  metadataText (node.metadata.get key)

def dispositionSatisfiesDependency : Bool :=
  node.intent = .done && node.execution = .idle &&
    metadataTextOf node "verification_feedback_disposition" = some "supervisor_agent_disposed_node" &&
    metadataTextOf node "last_supervisor_decision_action" = some "dispose_node" &&
    metadataTextOf node "last_verification_judge_next_action_kind" ≠ some "retry_same_node" &&
    dispositionIsTerminal node.metadata

def refsOf : AttemptRefs :=
  (refs.get node.id).getD {}

def verifiedCommitRef : Option String :=
  (metadataTextOf node "verified_commit_ref").or <|
    (metadataTextOf node "worktree_integration_commit_ref").or <|
      (refsOf refs node).commitRef.filter (Text.strip · ≠ "")

def attemptWorktreePath : Option String :=
  (metadataTextOf node "worktree_integration_worktree_path").or <|
    (metadataTextOf node "active_execution_root").or <|
      (metadataTextOf node "worktree_path").or <|
        (refsOf refs node).worktreePath.filter (Text.strip · ≠ "")

def looksLikeAttemptWorktree (path : Option String) : Bool :=
  path.any (Text.contains · "/.memstack/worktrees/")

def pipelineGateStatus : String :=
  let value := ((node.metadata.get "pipeline_status").filter Value.truthy).or
    (node.metadata.get "pipeline_gate_status")
  ((value.bind Value.asStr).map fun s => Text.lower (Text.strip s)).getD ""

def pipelinePublishedCommit (commitRef : String) : Bool :=
  pipelineGateStatus node = "success" && metadataTextOf node "source_publish_status" = some "published" &&
    commitRefsMatch (metadataTextOf node "source_publish_commit_ref") (some commitRef)

def dependencyDispatchCommitRef : Option String :=
  let dirty := metadataTextOf node "worktree_integration_status" = some "blocked_dirty_main"
  (if dirty then metadataTextOf node "verified_commit_ref" else none).or <|
    (metadataTextOf node "source_publish_commit_ref").or <|
      (metadataTextOf node "worktree_integration_commit_ref").or <|
        (metadataTextOf node "verified_commit_ref").or <|
          (refsOf refs node).commitRef.filter (Text.strip · ≠ "")

def integrationLostCommit : Bool :=
  metadataTextOf node "worktree_integration_status" = some "failed" &&
    (node.metadata.get "terminal_attempt_status").bind Value.asStr = some "accepted" &&
    (match node.metadata.get "worktree_integration_dirty_signature" with
      | none | some .null => true
      | _ => false) &&
    Text.contains (Text.lower ((metadataTextOf node "worktree_integration_summary").getD ""))
      "commit_ref not found in attempt worktree"

def dependencyCommitNeedsIntegration : Bool :=
  if dispositionSatisfiesDependency node then
    false
  else
    match verifiedCommitRef refs node with
    | none => false
    | some commitRef =>
      looksLikeAttemptWorktree (attemptWorktreePath refs node) && !integrationLostCommit node &&
        !pipelinePublishedCommit node commitRef &&
        !(metadataTextOf node "worktree_integration_status").any
          (· ∈ ["merged", "already_merged", "skipped"])

def isIteration (phase artifact : String) : Bool :=
  metadataTextOf node "iteration_phase" = some phase && metadataTextOf node "scrum_artifact" = some artifact

def nodeIsIterationPlanBacklog : Bool :=
  isIteration node "plan" "sprint_backlog"

def nodeIsIterationIncrement : Bool :=
  isIteration node "implement" "increment"

def nodeIsIterationTestVerification : Bool :=
  isIteration node "test" "verification"

def nodeIsIterationReviewFeedback : Bool :=
  isIteration node "review" "feedback"

def nodeIsIterationReleaseCandidate : Bool :=
  isIteration node "deploy" "release_candidate"

def nodesRepairSameOriginal (dependency : PlanNode) : Bool :=
  (metadataTextOf node "repair_for_node_id").any
    (metadataTextOf dependency "repair_for_node_id" = some ·)

def repairDependencyCanSeedDownstreamWorktree (dependency : PlanNode) : Bool :=
  metadataTextOf dependency "worktree_integration_status" = some "blocked_dirty_main" &&
    (dependencyDispatchCommitRef refs dependency).isSome &&
    (node.repairBlockingDependencyId = some dependency.id || (metadataTextOf node "repair_for_node_id").isSome ||
      nodeIsIterationPlanBacklog node || nodeIsIterationIncrement node ||
      nodeIsIterationTestVerification node || nodeIsIterationReviewFeedback node ||
      nodeIsIterationReleaseCandidate node || nodesRepairSameOriginal node dependency)

def dependencyIds : Finset String :=
  node.dependsOn ∪ node.repairBlockingDependencyId.toFinset

end Node

def blocks (plan : Plan) (refs : Refs) (node : PlanNode) (depId : String) : Bool :=
  match plan.nodes.get depId with
  | none => true
  | some dependency =>
    dependency.intent ≠ .done ||
      (dependencyCommitNeedsIntegration refs dependency && !dispositionSatisfiesDependency dependency &&
        !repairDependencyCanSeedDownstreamWorktree refs node dependency)

-- What sorting the dependencies needs.
local instance isTrans_le : IsTrans String (· ≤ ·) :=
  inferInstance

local instance antisymm_le : Std.Antisymm (fun a b : String => a ≤ b) :=
  inferInstance

def dependencyBlockingIds (plan : Plan) (refs : Refs) (node : PlanNode) : List String :=
  ((dependencyIds node).sort (· ≤ ·)).filter (blocks plan refs node)

def untouched (node : PlanNode) : Bool :=
  node.intent = .todo && node.execution = .idle && !node.hasAttempt

def invalidatedNode (now : String) (missing : List String) (node : PlanNode) : PlanNode :=
  { node with
    intent := .todo
    execution := .idle
    assigneeAgentId := none
    currentAttemptId := none
    metadata := withAll (clearStaleAttemptMetadata node.metadata) [
      ("dependency_invalidated_at", .str now),
      ("dependency_invalidated_missing_ids", .list (missing.map .str)),
      ("dependency_invalidated_reason", .str "dependencies_not_done_or_not_integrated"),
      ("dependency_invalidated_previous_attempt_id", (node.currentAttemptId.map .str).getD .null),
      ("dependency_invalidated_previous_intent", .str node.intent.toText),
      ("dependency_invalidated_previous_execution", .str node.execution.toText)
    ] }

structure Pass where
  plan : Plan
  refs : Refs
  invalidated : List PlanNode

def Pass.visit (now : String) (s : Pass) (node : PlanNode) : Pass :=
  if !node.isRunnable || node.dependsOn = ∅ then
    s
  else
    let missing := dependencyBlockingIds s.plan s.refs node
    if missing = [] || untouched node then
      s
    else
      let updated := invalidatedNode now missing node
      -- the node was taken from the plan, so that replacing it is not refused
      { plan := s.plan.setNode updated
        refs := if node.id ∈ s.refs.keys then s.refs.set node.id {} else s.refs
        invalidated := s.invalidated ++ [updated] }

def invalidateNodesWithUnmetDependencies (now : String) (plan : Plan) (refs : Refs) : Pass :=
  plan.nodes.values.foldl (Pass.visit now) { plan, refs, invalidated := [] }

section Stale

variable (plan : Plan) (refs : Refs)

def Candidate (node : PlanNode) : Prop :=
  node.isRunnable ∧ node.dependsOn ≠ ∅ ∧ ¬ untouched node

def StaleItself (id : String) : Prop :=
  ∃ node, plan.nodes.get id = some node ∧ Candidate node
    ∧ ∃ dep ∈ dependencyIds node, blocks plan refs node dep

def WaitsFor (id dep : String) : Prop :=
  ∃ node, plan.nodes.get id = some node ∧ Candidate node ∧ dep ∈ dependencyIds node

-- A node is stale where one of its dependencies is not ready, or is a stale node inserted before it.
def StaleIn (ids : List String) (id : String) : Prop :=
  Reached (StaleItself plan refs) (WaitsFor plan) ids id

def Stale (id : String) : Prop :=
  StaleIn plan refs plan.nodes.keys id

end Stale

-- No node that is under way or done has a dependency that is not ready.
def Propagated (plan : Plan) (refs : Refs) : Prop :=
  ∀ node ∈ plan.nodes.values, node.isRunnable → ¬ untouched node → dependencyBlockingIds plan refs node = []

-- The order of the nodes lets the step see every stale dependency: a node that waits for a stale node
-- inserted after it is stale without it, and one that only waits for a repair waits for a ready one.
structure StaleInOrder (plan : Plan) (refs : Refs) : Prop where
  later : ∀ node ∈ plan.nodes.values, Candidate node
    → ∀ before after, plan.nodes.keys = before ++ node.id :: after → ∀ dep ∈ after,
      dep ∈ dependencyIds node → Stale plan refs dep → Stale plan refs node.id
  repair : ∀ node ∈ plan.nodes.values, node.isRunnable → ¬ untouched node → node.dependsOn = ∅
    → ∀ dep ∈ dependencyIds node, ¬ blocks plan refs node dep ∧ ¬ Stale plan refs dep

section Lemmas

variable {plan : Plan} {refs : Refs} {now : String} {ids : List String} {s : Pass} {node : PlanNode}

theorem dependencyBlockingIds_eq_nil
    : dependencyBlockingIds plan refs node = [] ↔ ∀ dep ∈ dependencyIds node, ¬ blocks plan refs node dep := by
  unfold dependencyBlockingIds
  rw [List.filter_eq_nil_iff]
  simp only [Finset.mem_sort]

theorem untouched_invalidatedNode {missing : List String} : untouched (invalidatedNode now missing node) := by
  rfl

-- The nodes `ids` have been visited.
structure Visited (plan : Plan) (refs : Refs) (now : String) (ids : List String) (s : Pass) : Prop where
  kept : ∀ id, ¬ StaleIn plan refs ids id → s.plan.nodes.get id = plan.nodes.get id
  refsKept : ∀ id, ¬ StaleIn plan refs ids id → s.refs.get id = refs.get id
  reset : ∀ id, StaleIn plan refs ids id → ∃ node missing, plan.nodes.get id = some node
    ∧ s.plan.nodes.get id = some (invalidatedNode now missing node)

theorem Visited.blocks_iff (h : Visited plan refs now ids s) {dep : String}
    : blocks s.plan s.refs node dep ↔ blocks plan refs node dep ∨ StaleIn plan refs ids dep := by
  by_cases hstale : StaleIn plan refs ids dep
  . obtain ⟨dependency, missing, _, hget⟩ := h.reset dep hstale
    unfold blocks
    rw [hget]
    simp [hstale, invalidatedNode]
  . have hkept := h.kept dep hstale
    simp only [hstale, or_false]
    unfold blocks
    rw [hkept]
    cases hget : plan.nodes.get dep with
    | none => rfl
    | some dependency =>
      have hid : dependency.id = dep := plan.keyed dep dependency hget
      have hrefs : refsOf s.refs dependency = refsOf refs dependency := by
        unfold refsOf
        rw [hid, h.refsKept dep hstale]
      simp only [dependencyCommitNeedsIntegration, verifiedCommitRef, attemptWorktreePath,
        repairDependencyCanSeedDownstreamWorktree, dependencyDispatchCommitRef, hrefs]

theorem Visited.visit (h : Visited plan refs now ids s) (hget : plan.nodes.get node.id = some node)
    (hnodup : (ids ++ [node.id]).Nodup)
    : Visited plan refs now (ids ++ [node.id]) (s.visit now node) := by
  have hstale (id : String) : StaleIn plan refs (ids ++ [node.id]) id
      ↔ StaleIn plan refs ids id
        ∨ id = node.id ∧ Candidate node ∧ ∃ dep ∈ dependencyIds node, blocks s.plan s.refs node dep := by
    unfold StaleIn
    rw [reached_concat hnodup]
    apply or_congr_right
    apply and_congr_right
    intro _
    simp only [h.blocks_iff, StaleItself, WaitsFor, StaleIn, hget, Option.some.injEq, exists_eq_left']
    constructor
    . rintro (⟨hcandidate, dep, hdep, hblocks⟩ | ⟨dep, hreached, hcandidate, hdep⟩)
      . exact ⟨hcandidate, dep, hdep, .inl hblocks⟩
      . exact ⟨hcandidate, dep, hdep, .inr hreached⟩
    . rintro ⟨hcandidate, dep, hdep, hblocks | hreached⟩
      . exact .inl ⟨hcandidate, dep, hdep, hblocks⟩
      . exact .inr ⟨dep, hreached, hcandidate, hdep⟩
  by_cases hhit : Candidate node ∧ ∃ dep ∈ dependencyIds node, blocks s.plan s.refs node dep
  . have hmissing : dependencyBlockingIds s.plan s.refs node ≠ [] := by
      rw [Ne, dependencyBlockingIds_eq_nil]
      push Not
      exact hhit.2
    have hvisit : s.visit now node =
        { plan := s.plan.setNode (invalidatedNode now (dependencyBlockingIds s.plan s.refs node) node)
          refs := if node.id ∈ s.refs.keys then s.refs.set node.id {} else s.refs
          invalidated := s.invalidated
            ++ [invalidatedNode now (dependencyBlockingIds s.plan s.refs node) node] } := by
      obtain ⟨⟨hrunnable, hdeps, htouched⟩, _⟩ := hhit
      unfold Pass.visit
      rw [if_neg (by simp [hrunnable, hdeps])]
      dsimp only
      rw [if_neg (by simp [hmissing, htouched])]
    have hset (id : String)
        : (s.plan.setNode (invalidatedNode now (dependencyBlockingIds s.plan s.refs node) node)).nodes.get id
          = if id = node.id then
              some (invalidatedNode now (dependencyBlockingIds s.plan s.refs node) node)
            else
              s.plan.nodes.get id :=
      Plan.get_setNode id
    rw [hvisit]
    refine ⟨?_, ?_, ?_⟩
    . intro id hnot
      rw [hstale] at hnot
      have hne : id ≠ node.id := fun heq => hnot (.inr ⟨heq, hhit⟩)
      rw [hset, if_neg hne]
      exact h.kept id fun hreached => hnot (.inl hreached)
    . intro id hnot
      rw [hstale] at hnot
      have hne : id ≠ node.id := fun heq => hnot (.inr ⟨heq, hhit⟩)
      rw [← h.refsKept id fun hreached => hnot (.inl hreached)]
      dsimp only
      split
      . rw [Dict.get_set, if_neg hne]
      . rfl
    . intro id hreached
      by_cases heq : id = node.id
      . refine ⟨node, dependencyBlockingIds s.plan s.refs node, ?_, ?_⟩
        . rw [heq, hget]
        . rw [hset, if_pos heq]
      . rw [hstale, or_iff_left fun hand => heq hand.1] at hreached
        obtain ⟨node', missing, hnode', hreset⟩ := h.reset id hreached
        refine ⟨node', missing, hnode', ?_⟩
        rw [hset, if_neg heq, hreset]
  . have hvisit : s.visit now node = s := by
      unfold Pass.visit
      split
      . rfl
      . next hcandidate =>
        simp only [Bool.or_eq_true, Bool.not_eq_true', decide_eq_true_eq, not_or, Bool.not_eq_false] at hcandidate
        dsimp only
        rw [if_pos]
        rw [Bool.or_eq_true, decide_eq_true_eq]
        by_contra hneither
        rw [not_or] at hneither
        apply hhit
        refine ⟨⟨hcandidate.1, hcandidate.2, hneither.2⟩, ?_⟩
        have hmissing := hneither.1
        rw [dependencyBlockingIds_eq_nil] at hmissing
        push Not at hmissing
        exact hmissing
    rw [hvisit]
    have hsame (id : String) : StaleIn plan refs (ids ++ [node.id]) id ↔ StaleIn plan refs ids id := by
      rw [hstale, or_iff_left fun hand => hhit hand.2]
    refine ⟨?_, ?_, ?_⟩
    . intro id hnot
      rw [hsame] at hnot
      exact h.kept id hnot
    . intro id hnot
      rw [hsame] at hnot
      exact h.refsKept id hnot
    . intro id hreached
      rw [hsame] at hreached
      exact h.reset id hreached

/--
The step resets the stale nodes, and no others.
-/
theorem visited_all (now : String) (plan : Plan) (refs : Refs)
    : Visited plan refs now plan.nodes.keys (invalidateNodesWithUnmetDependencies now plan refs) := by
  have hprefix (entries rest : List (String × PlanNode)) (hsplit : plan.nodes.entries = entries ++ rest)
      : Visited plan refs now (entries.map Prod.fst)
          ((entries.map Prod.snd).foldl (Pass.visit now) { plan, refs, invalidated := [] }) := by
    induction entries using List.reverseRecOn generalizing rest with
    | nil =>
      have hnone (id : String) : ¬ StaleIn plan refs [] id := by
        intro hreached
        cases hreached.mem
      refine ⟨fun _ _ => rfl, fun _ _ => rfl, fun id hreached => absurd hreached (hnone id)⟩
    | append_singleton entries entry ih =>
      have hmem : entry ∈ plan.nodes.entries := by
        rw [hsplit]
        simp
      have hget : plan.nodes.get entry.1 = some entry.2 := Dict.get_eq_some.mpr hmem
      have hid : entry.2.id = entry.1 := plan.keyed entry.1 entry.2 hget
      rw [← hid] at hget
      rw [List.map_append, List.map_append, List.foldl_append, List.map_singleton, List.map_singleton, ← hid]
      rw [List.append_assoc] at hsplit
      apply (ih _ hsplit).visit hget
      have hnodup := plan.nodes.nodup
      rw [hsplit, List.map_append, List.map_append, List.map_singleton, ← List.append_assoc] at hnodup
      rw [hid]
      exact (List.nodup_append.mp hnodup).1
  exact hprefix plan.nodes.entries [] (List.append_nil _).symm

theorem stale_candidate {id : String} (h : Stale plan refs id) (hget : plan.nodes.get id = some node)
    : Candidate node := by
  cases h with
  | own _ hitself =>
    obtain ⟨node', hget', hcandidate, _⟩ := hitself
    rw [hget, Option.some.injEq] at hget'
    rw [hget']
    exact hcandidate
  | step _ _ hwaits _ =>
    obtain ⟨node', hget', hcandidate, _⟩ := hwaits
    rw [hget, Option.some.injEq] at hget'
    rw [hget']
    exact hcandidate

theorem propagated_iff_kept
    : Propagated (invalidateNodesWithUnmetDependencies now plan refs).plan
        (invalidateNodesWithUnmetDependencies now plan refs).refs
      ↔ ∀ node ∈ plan.nodes.values, node.isRunnable → ¬ untouched node → ¬ Stale plan refs node.id
          → ∀ dep ∈ dependencyIds node, ¬ blocks plan refs node dep ∧ ¬ Stale plan refs dep := by
  have hvisited := visited_all now plan refs
  unfold Propagated
  simp only [dependencyBlockingIds_eq_nil, hvisited.blocks_iff, not_or]
  constructor
  . intro h node hnode hrunnable htouched hstale
    have hget := Plan.mem_values.mp hnode
    rw [← hvisited.kept node.id hstale] at hget
    exact h node (Dict.mem_values.mpr ⟨_, hget⟩) hrunnable htouched
  . intro h node hnode hrunnable htouched
    obtain ⟨id, hget⟩ := Dict.mem_values.mp hnode
    by_cases hstale : Stale plan refs id
    . obtain ⟨node', missing, _, hreset⟩ := hvisited.reset id hstale
      rw [hget, Option.some.injEq] at hreset
      rw [hreset] at htouched
      exact absurd untouched_invalidatedNode htouched
    . rw [hvisited.kept id hstale] at hget
      rw [← plan.keyed id node hget] at hstale
      exact h node (Dict.mem_values.mpr ⟨_, hget⟩) hrunnable htouched hstale

end Lemmas

/--
One step propagates a regression to everything that depends on it exactly where the nodes are in an order
in which it comes by them.
-/
theorem propagated_iff (now : String) (plan : Plan) (refs : Refs)
    : Propagated (invalidateNodesWithUnmetDependencies now plan refs).plan
        (invalidateNodesWithUnmetDependencies now plan refs).refs
      ↔ StaleInOrder plan refs := by
  rw [propagated_iff_kept]
  constructor
  . intro h
    refine ⟨?_, ?_⟩
    . intro node hnode hcandidate before after _ dep _ hdep hstale
      by_contra hnot
      exact (h node hnode hcandidate.1 hcandidate.2.2 hnot dep hdep).2 hstale
    . intro node hnode hrunnable htouched hempty
      apply h node hnode hrunnable htouched
      intro hstale
      exact (stale_candidate hstale (Plan.mem_values.mp hnode)).2.1 hempty
  . intro h node hnode hrunnable htouched hnot dep hdep
    by_cases hempty : node.dependsOn = ∅
    . exact h.repair node hnode hrunnable htouched hempty dep hdep
    . have hcandidate : Candidate node := ⟨hrunnable, hempty, htouched⟩
      have hget := Plan.mem_values.mp hnode
      have hmem : node.id ∈ plan.nodes.keys := Plan.mem_keys_of_get hget
      constructor
      . intro hblocks
        exact hnot (.own hmem ⟨node, hget, hcandidate, dep, hdep, hblocks⟩)
      . intro hstale
        obtain ⟨before, after, hsplit⟩ := List.append_of_mem hmem
        have hplace := hstale.mem
        rw [hsplit, List.mem_append, List.mem_cons] at hplace
        obtain hbefore | rfl | hafter := hplace
        . exact hnot (.step hsplit hbefore ⟨node, hget, hcandidate, hdep⟩ hstale)
        . exact hnot hstale
        . exact hnot (h.later node hnode hcandidate before after hsplit dep hafter hdep hstale)

section Example

def taskWith (id : String) (intent : TaskIntent) (dependsOn : Finset String) (h : id ∉ dependsOn) : PlanNode where
  id := id
  planId := "plan"
  parentId := some "goal"
  title := id
  intent := intent
  dependsOn := dependsOn
  id_notMem := h

def repairedPlan : Plan :=
  (((({ id := "plan", workspaceId := "ws", goalId := "goal" } : Plan).setNode
      { id := "goal", planId := "plan", kind := .goal, title := "Ship" }).setNode
      (taskWith "release" .done {"build"} (by decide))).setNode
      (taskWith "build" .done {"repair"} (by decide))).setNode
      (taskWith "repair" .todo ∅ (by decide))

/--
The release is still done after the step, although the build that it depends on is to do again.
-/
theorem release_not_propagated
    : (∃ rank : String → Nat,
        ∀ node ∈ repairedPlan.nodes.values, ∀ dep ∈ node.dependsOn, rank dep < rank node.id)
      ∧ ¬ Propagated (invalidateNodesWithUnmetDependencies "now" repairedPlan .empty).plan
          (invalidateNodesWithUnmetDependencies "now" repairedPlan .empty).refs := by
  constructor
  . refine ⟨fun id => if id = "release" then 2 else if id = "build" then 1 else 0, ?_⟩
    decide
  . intro h
    let after := invalidateNodesWithUnmetDependencies "now" repairedPlan .empty
    have hfound : after.plan.nodes.values.any (fun node => node.isRunnable && !untouched node
        && decide ("build" ∈ dependencyIds node) && blocks after.plan after.refs node "build") := by
      decide +kernel
    rw [List.any_eq_true] at hfound
    obtain ⟨node, hnode, hbuild⟩ := hfound
    simp only [Bool.and_eq_true, Bool.not_eq_true', decide_eq_true_eq] at hbuild
    obtain ⟨⟨⟨hrunnable, htouched⟩, hdep⟩, hblocks⟩ := hbuild
    have hready := h node hnode hrunnable (by rw [htouched]; simp)
    rw [dependencyBlockingIds_eq_nil] at hready
    exact hready "build" hdep hblocks

end Example

end Supervisor

end Workspace
end MemStack
