import MemStack.Util.Machine
import MemStack.Workspace.Valid

/-!
This module contains the step of a supervisor tick that dispatches workers (`supervisor.py`) together
with the reports of the workers (`WorkspaceOrchestrator.mark_worker_reported`), which other tasks deliver
while the tick waits for its dispatcher. Both work on one plan object. The commit from which a node starts
and the times of updates are left out.
-/

namespace MemStack
namespace Workspace

open Machine

structure Allocation where
  nodeId : String
  agentId : String

def staleAttemptMetadataKeys : List String :=
  ["candidate_artifacts", "candidate_verifications", "deploy_mode", "deployment_status", "evidence_refs",
    "execution_verifications", "external_id", "external_provider", "external_url",
    "last_verification_summary", "last_verification_passed", "last_verification_hard_fail",
    "last_verification_attempt_id", "last_verification_ran_at", "last_verification_judge_confidence",
    "last_verification_judge_failed_criteria", "last_verification_judge_next_action_kind",
    "last_verification_judge_rationale", "last_verification_judge_repair_brief",
    "last_verification_judge_required_next_action", "last_verification_judge_verdict",
    "last_verification_feedback_items", "last_worker_report_attempt_id", "last_worker_report_artifacts",
    "last_worker_report_summary", "last_worker_report_type", "last_worker_report_verifications",
    "verification_feedback_disposition", "obsolete_by_verifier_feedback", "obsolete_feedback_items",
    "current_repair_turn", "dependency_invalidated_at", "dependency_invalidated_missing_ids",
    "dependency_invalidated_reason", "dependency_invalidated_previous_attempt_id",
    "dependency_invalidated_previous_intent", "dependency_invalidated_previous_execution",
    "pipeline_finished_at", "pipeline_request_count", "pipeline_requested_at",
    "verification_evidence_refs", "verified_commit_ref", "verified_git_diff_summary",
    "verified_test_commands", "reported_attempt_reconciled_at", "reported_attempt_status",
    "retry_last_reason", "source_publish_branch", "source_publish_commit_ref", "source_publish_provider",
    "source_publish_reason", "source_publish_source_commit_ref", "source_publish_status",
    "source_publish_token_env", "terminal_attempt_status", "terminal_attempt_reconciled_at",
    "terminal_attempt_superseded_attempt_id", "terminal_attempt_superseded_reason",
    "terminal_attempt_superseded_status", "pipeline_status", "pipeline_gate_status", "pipeline_run_id",
    "pipeline_evidence_refs", "pipeline_last_summary", "worktree_integration_attempt_id",
    "worktree_integration_commit_ref", "worktree_integration_dirty_signature",
    "worktree_integration_ran_at", "worktree_integration_status", "worktree_integration_summary",
    "worktree_integration_worktree_path"]

def clearStaleAttemptMetadata (metadata : Metadata) : Metadata :=
  metadata.eraseAll staleAttemptMetadataKeys

namespace PlanNode

variable (node : PlanNode)

def metadataForAttempt (attemptId : String) : Metadata :=
  let metadata := clearStaleAttemptMetadata node.metadata
  match (node.metadata.get "current_repair_turn").bind Value.asDict with
  | none => metadata
  | some repairTurn =>
    if (lookup repairTurn "attempt_id").bind Value.asStr = some attemptId then
      let metadata := metadata.set "current_repair_turn" (.dict repairTurn)
      match (node.metadata.get "same_conversation_repair_turn_count").filter fun count =>
          count.asInt.any (0 < ·) with
      | some repairCount => metadata.set "same_conversation_repair_turn_count" repairCount
      | none => metadata
    else
      metadata

def dispatchedWithFreshAttempt (assigneeAgentId attemptId : String) : PlanNode :=
  { node with
    intent := .inProgress
    execution := .dispatched
    assigneeAgentId := some assigneeAgentId
    currentAttemptId := some attemptId
    metadata := node.metadataForAttempt attemptId }

def reported (attemptId : Option String) : PlanNode :=
  { node with
    execution := .reported
    currentAttemptId := attemptId }

def mayDispatch : Bool :=
  .inProgress ∈ allowedIntentNext node.intent ∧ .dispatched ∈ allowedExecutionNext node.execution

end PlanNode

-- `attempt_id or None`.
def truthyId (attemptId : Option String) : Option String :=
  attemptId.filter (· ≠ "")

namespace Plan

variable (plan : Plan)

def markWorkerReported (nodeId : String) (attemptId : Option String) : Plan :=
  match plan.nodes.get nodeId with
  | none => plan
  | some node =>
    -- A stale attempt is ignored.
    if (truthyId attemptId).any (node.currentAttemptId ≠ some ·) then plan
    else if .reported ∈ allowedExecutionNext node.execution then
      plan.setNode (node.reported ((truthyId attemptId).or node.currentAttemptId))
    else
      plan

end Plan

inductive DispatchPlace where
  | dispatching (alloc : Allocation) (node : PlanNode) (launched : Option String) (rest : List Allocation)
  | finished

def DispatchPlace.isFinished : DispatchPlace → Bool
  | .finished => true
  | .dispatching .. => false

def DispatchPlace.next (plan : Plan) : List Allocation → DispatchPlace
  | [] => .finished
  | alloc :: rest =>
    match plan.nodes.get alloc.nodeId with
    | some node => .dispatching alloc node none rest
    | none => DispatchPlace.next plan rest

-- `launched` lists the attempts of the workers that the dispatcher has launched, with their nodes.
structure DispatchTick where
  plan : Plan
  place : DispatchPlace
  launched : List (String × String)

namespace DispatchTick

def start (plan : Plan) (allocations : List Allocation) : DispatchTick where
  plan := plan
  place := .next plan allocations
  launched := []

-- What the dispatcher does while the tick waits for it, and the reports of workers. A dispatcher that
-- has launched a worker returns the attempt or raises.
inductive Request where
  | launch (attemptId : String)
  | dispatcherReturns
  | dispatcherRaises
  | report (nodeId : String) (attemptId : Option String)

def launch (s : DispatchTick) (attemptId : String) : DispatchTick :=
  match s.place with
  | .dispatching alloc node none rest =>
    if attemptId = "" then s
    else ⟨s.plan, .dispatching alloc node (some attemptId) rest, (alloc.nodeId, attemptId) :: s.launched⟩
  | _ => s

def dispatcherReturns (s : DispatchTick) : DispatchTick :=
  match s.place with
  | .dispatching alloc node (some attemptId) rest =>
    if node.mayDispatch then
      let plan := s.plan.setNode (node.dispatchedWithFreshAttempt alloc.agentId attemptId)
      ⟨plan, .next plan rest, s.launched⟩
    else
      ⟨s.plan, .next s.plan rest, s.launched⟩
  | .dispatching _ _ none rest => ⟨s.plan, .next s.plan rest, s.launched⟩
  | .finished => s

def dispatcherRaises (s : DispatchTick) : DispatchTick :=
  match s.place with
  | .dispatching _ _ _ rest => ⟨s.plan, .next s.plan rest, s.launched⟩
  | .finished => s

def report (s : DispatchTick) (nodeId : String) (attemptId : Option String) : DispatchTick :=
  ⟨s.plan.markWorkerReported nodeId attemptId, s.place, s.launched⟩

def step (s : DispatchTick) : Request → DispatchTick × Unit
  | .launch attemptId => (s.launch attemptId, ())
  | .dispatcherReturns => (s.dispatcherReturns, ())
  | .dispatcherRaises => (s.dispatcherRaises, ())
  | .report nodeId attemptId => (s.report nodeId attemptId, ())

abbrev Entry := Machine.Entry DispatchTick Request Unit

end DispatchTick

namespace Plan

-- The node is `REPORTED` with the attempt.
def Reported (plan : Plan) (nodeId attemptId : String) : Prop :=
  ∃ node, plan.nodes.get nodeId = some node ∧ node.execution = .reported ∧
    node.currentAttemptId = some attemptId

def Carries (plan : Plan) (nodeId attemptId : String) : Prop :=
  ∃ node, plan.nodes.get nodeId = some node ∧ node.currentAttemptId = some attemptId ∧
    (node.execution = .dispatched ∨ node.execution = .running ∨ node.execution = .reported)

end Plan

namespace DispatchTick

def Entry.Reports (e : Entry) (nodeId attemptId : String) : Prop :=
  e.request = .report nodeId (some attemptId) ∧ (nodeId, attemptId) ∈ e.before.launched

def Entry.FindsCarried (e : Entry) (nodeId attemptId : String) : Prop :=
  ∃ reportedId, e.request = .report nodeId reportedId ∧ (∀ id ∈ truthyId reportedId, id = attemptId) ∧
    e.before.plan.Carries nodeId attemptId

end DispatchTick

theorem idle_of_mayDispatch {node : PlanNode} (h : node.mayDispatch = true) : node.execution = .idle := by
  unfold PlanNode.mayDispatch at h
  rw [decide_eq_true_eq] at h
  cases hexecution : node.execution with
  | idle => rfl
  | _ =>
    rw [hexecution] at h
    exact absurd h.2 (by decide)

namespace Plan

variable {plan : Plan} {nodeId id attemptId : String} {reportedId : Option String}

theorem get_setNode_of_ne {node : PlanNode} (h : id ≠ node.id)
    : (plan.setNode node).nodes.get id = plan.nodes.get id := by
  rw [get_setNode, if_neg h]

theorem markWorkerReported_cases (plan : Plan) (nodeId : String) (reportedId : Option String)
    : plan.markWorkerReported nodeId reportedId = plan ∨
        ∃ node, plan.nodes.get nodeId = some node ∧ (∀ id ∈ truthyId reportedId, node.currentAttemptId = some id) ∧
          (node.execution = .dispatched ∨ node.execution = .running) ∧
          plan.markWorkerReported nodeId reportedId = plan.setNode (node.reported node.currentAttemptId) := by
  unfold markWorkerReported
  cases hget : plan.nodes.get nodeId with
  | none => exact .inl rfl
  | some node =>
    dsimp only
    split
    . exact .inl rfl
    . next hstale =>
      have hsame : ∀ id ∈ truthyId reportedId, node.currentAttemptId = some id := by
        intro id hid
        by_contra hne
        apply hstale
        rw [Option.any_eq_true]
        exact ⟨id, hid, by simpa using hne⟩
      split
      . next hallowed =>
        right
        refine ⟨node, rfl, hsame, ?_, ?_⟩
        . cases hexecution : node.execution with
          | dispatched => exact .inl rfl
          | running => exact .inr rfl
          | _ =>
            rw [hexecution] at hallowed
            exact absurd hallowed (by decide)
        . cases hid : truthyId reportedId with
          | none => rfl
          | some id =>
            rw [hsame id hid]
            rfl
      . exact .inl rfl

theorem reported_of_carries (h : plan.Carries nodeId attemptId) (hid : ∀ id ∈ truthyId reportedId, id = attemptId)
    : (plan.markWorkerReported nodeId reportedId).Reported nodeId attemptId := by
  obtain ⟨node, hget, hattempt, hexecution⟩ := h
  have hfresh : ((truthyId reportedId).any (node.currentAttemptId ≠ some ·)) = false := by
    rw [Option.any_eq_false]
    intro id hreported
    rw [hattempt, hid id hreported]
    simp
  have hkept : ((truthyId reportedId).or node.currentAttemptId) = some attemptId := by
    cases hreported : truthyId reportedId with
    | none => exact hattempt
    | some id => rw [hid id hreported, Option.some_or]
  unfold markWorkerReported
  rw [hget]
  dsimp only
  rw [hfresh, if_neg Bool.false_ne_true]
  have hkey : nodeId = node.id := (plan.keyed nodeId node hget).symm
  rcases hexecution with hexecution | hexecution | hexecution
  . rw [if_pos (by rw [hexecution]; decide)]
    exact ⟨node.reported _, by rw [get_setNode]; exact if_pos hkey, rfl, hkept⟩
  . rw [if_pos (by rw [hexecution]; decide)]
    exact ⟨node.reported _, by rw [get_setNode]; exact if_pos hkey, rfl, hkept⟩
  . rw [if_neg (by rw [hexecution]; decide)]
    exact ⟨node, hget, hexecution, hattempt⟩

theorem Reported.carries (h : plan.Reported nodeId attemptId) : plan.Carries nodeId attemptId := by
  obtain ⟨node, hget, hexecution, hattempt⟩ := h
  exact ⟨node, hget, hattempt, .inr (.inr hexecution)⟩

theorem Reported.markWorkerReported (h : plan.Reported nodeId attemptId) (id : String) (reportedId : Option String)
    : (plan.markWorkerReported id reportedId).Reported nodeId attemptId := by
  rcases markWorkerReported_cases plan id reportedId with hsame | ⟨node, hget, -, hexecution, hmoved⟩
  . rw [hsame]
    exact h
  . obtain ⟨node', hget', hexecution', hattempt⟩ := h
    have hne : nodeId ≠ id := by
      intro heq
      rw [heq, hget, Option.some.injEq] at hget'
      rw [hget', hexecution'] at hexecution
      simp at hexecution
    rw [hmoved]
    refine ⟨node', ?_, hexecution', hattempt⟩
    rw [get_setNode_of_ne]
    . exact hget'
    . show nodeId ≠ node.id
      rw [plan.keyed id node hget]
      exact hne

theorem carries_of_reported (hbefore : ¬plan.Reported nodeId attemptId)
    (hafter : (plan.markWorkerReported id reportedId).Reported nodeId attemptId)
    : id = nodeId ∧ (∀ id ∈ truthyId reportedId, id = attemptId) ∧ plan.Carries nodeId attemptId := by
  rcases markWorkerReported_cases plan id reportedId with hsame | ⟨node, hget, hids, hexecution, hmoved⟩
  . rw [hsame] at hafter
    exact absurd hafter hbefore
  . have hkey : node.id = id := plan.keyed id node hget
    rw [hmoved] at hafter
    obtain ⟨node', hget', hexecution', hattempt⟩ := hafter
    rw [get_setNode] at hget'
    split at hget'
    . next heq =>
      have heq : nodeId = id := Eq.trans heq hkey
      have hattempt : node.currentAttemptId = some attemptId := by
        rw [← Option.some.inj hget'] at hattempt
        exact hattempt
      refine ⟨heq.symm, ?_, node, ?_, hattempt, ?_⟩
      . intro id hid
        exact Option.some.inj ((hids id hid).symm.trans hattempt)
      . rw [heq]
        exact hget
      . rcases hexecution with hexecution | hexecution
        . exact .inl hexecution
        . exact .inr (.inl hexecution)
    . exact absurd ⟨node', hget', hexecution', hattempt⟩ hbefore

end Plan

namespace DispatchTick

variable {s : DispatchTick} {plan : Plan} {nodeId attemptId : String}

def Waiting (s : DispatchTick) : Prop :=
  ∀ alloc node launched rest, s.place = .dispatching alloc node launched rest →
    node.id = alloc.nodeId ∧ (node.execution = .idle → s.plan.nodes.get alloc.nodeId = some node)

theorem waiting_next (plan : Plan) (allocations : List Allocation) (launched : List (String × String))
    : Waiting ⟨plan, .next plan allocations, launched⟩ := by
  induction allocations with
  | nil =>
    intro alloc node launched rest h
    cases h
  | cons alloc rest ih =>
    cases hget : plan.nodes.get alloc.nodeId with
    | none =>
      have hnext : DispatchPlace.next plan (alloc :: rest) = DispatchPlace.next plan rest := by
        rw [DispatchPlace.next, hget]
      rw [hnext]
      exact ih
    | some node =>
      have hnext : DispatchPlace.next plan (alloc :: rest) = .dispatching alloc node none rest := by
        rw [DispatchPlace.next, hget]
      rw [hnext]
      intro alloc' node' launched' rest' h
      cases h
      exact ⟨plan.keyed _ _ hget, fun _ => hget⟩

theorem waiting_launch (h : s.Waiting) (attemptId : String) : (s.launch attemptId).Waiting := by
  unfold launch
  split
  . next alloc node rest hplace =>
    split
    . exact h
    . intro alloc' node' launched' rest' hplace'
      cases hplace'
      exact h alloc node none rest hplace
  . exact h

theorem waiting_dispatcherReturns (h : s.Waiting) : s.dispatcherReturns.Waiting := by
  unfold dispatcherReturns
  split
  . split
    . apply waiting_next
    . apply waiting_next
  . apply waiting_next
  . exact h

theorem waiting_dispatcherRaises (h : s.Waiting) : s.dispatcherRaises.Waiting := by
  unfold dispatcherRaises
  split
  . apply waiting_next
  . exact h

theorem waiting_report (h : s.Waiting) (nodeId : String) (reportedId : Option String)
    : (s.report nodeId reportedId).Waiting := by
  intro alloc node launched rest hplace
  obtain ⟨hkey, hidle⟩ := h alloc node launched rest hplace
  refine ⟨hkey, ?_⟩
  intro hexecution
  have hget := hidle hexecution
  show (s.plan.markWorkerReported nodeId reportedId).nodes.get alloc.nodeId = some node
  rcases s.plan.markWorkerReported_cases nodeId reportedId with hsame | ⟨node', hget', -, hexecution', hmoved⟩
  . rw [hsame]
    exact hget
  . rw [hmoved, Plan.get_setNode_of_ne]
    . exact hget
    . show alloc.nodeId ≠ node'.id
      rw [s.plan.keyed nodeId node' hget']
      intro heq
      rw [← heq, hget, Option.some.injEq] at hget'
      rw [← hget', hexecution] at hexecution'
      simp at hexecution'

theorem waiting_step (s : DispatchTick) (request : Request) (h : s.Waiting) : (s.step request).1.Waiting := by
  cases request with
  | launch attemptId => exact waiting_launch h attemptId
  | dispatcherReturns => exact waiting_dispatcherReturns h
  | dispatcherRaises => exact waiting_dispatcherRaises h
  | report nodeId attemptId => exact waiting_report h nodeId attemptId

theorem dispatcherReturns_plan (s : DispatchTick)
    : s.dispatcherReturns.plan = s.plan ∨
        ∃ alloc node attemptId rest, s.place = .dispatching alloc node (some attemptId) rest ∧
          node.mayDispatch = true ∧
          s.dispatcherReturns.plan = s.plan.setNode (node.dispatchedWithFreshAttempt alloc.agentId attemptId) := by
  unfold dispatcherReturns
  split
  . next alloc node attemptId rest hplace =>
    split
    . next hmay => exact .inr ⟨alloc, node, attemptId, rest, hplace, hmay, rfl⟩
    . exact .inl rfl
  . exact .inl rfl
  . exact .inl rfl

theorem launch_plan (s : DispatchTick) (attemptId : String) : (s.launch attemptId).plan = s.plan := by
  unfold launch
  split
  . split <;> rfl
  . rfl

theorem dispatcherRaises_plan (s : DispatchTick) : s.dispatcherRaises.plan = s.plan := by
  unfold dispatcherRaises
  split <;> rfl

theorem reported_dispatcherReturns (h : s.Waiting)
    : s.dispatcherReturns.plan.Reported nodeId attemptId ↔ s.plan.Reported nodeId attemptId := by
  rcases dispatcherReturns_plan s with hsame | ⟨alloc, node, launchedId, rest, hplace, hmay, hset⟩
  . rw [hsame]
  . have hidle : node.execution = .idle := idle_of_mayDispatch hmay
    obtain ⟨hkey, hwaits⟩ := h alloc node _ rest hplace
    have hget := hwaits hidle
    rw [hset]
    unfold Plan.Reported
    rw [Plan.get_setNode]
    show (∃ node', (if nodeId = node.id then _ else _) = some node' ∧ _) ↔ _
    split
    . next heq =>
      rw [heq, hkey, hget]
      constructor
      . rintro ⟨node', hnode', hexecution, -⟩
        rw [← Option.some.inj hnode'] at hexecution
        cases hexecution
      . rintro ⟨node', hnode', hexecution, -⟩
        rw [← Option.some.inj hnode', hidle] at hexecution
        cases hexecution
    . rfl

theorem reported_step (s : DispatchTick) (request : Request) (h : s.Waiting)
    (hreported : s.plan.Reported nodeId attemptId) : (s.step request).1.plan.Reported nodeId attemptId := by
  cases request with
  | launch launchedId =>
    show (s.launch launchedId).plan.Reported nodeId attemptId
    rw [launch_plan]
    exact hreported
  | dispatcherReturns => exact (reported_dispatcherReturns h).mpr hreported
  | dispatcherRaises =>
    show s.dispatcherRaises.plan.Reported nodeId attemptId
    rw [dispatcherRaises_plan]
    exact hreported
  | report id reportedId => exact hreported.markWorkerReported id reportedId

theorem findsCarried_of_turn {e : Entry} (he : e = entry step e.before e.request) (h : e.before.Waiting)
    (hbefore : ¬e.before.plan.Reported nodeId attemptId) (hafter : e.after.plan.Reported nodeId attemptId)
    : e.FindsCarried nodeId attemptId := by
  have hstep : e.after = (e.before.step e.request).1 := congrArg Machine.Entry.after he
  rw [hstep] at hafter
  cases hrequest : e.request with
  | launch launchedId =>
    rw [hrequest] at hafter
    replace hafter : (e.before.launch launchedId).plan.Reported nodeId attemptId := hafter
    rw [launch_plan] at hafter
    exact absurd hafter hbefore
  | dispatcherReturns =>
    rw [hrequest] at hafter
    exact absurd ((reported_dispatcherReturns h).mp hafter) hbefore
  | dispatcherRaises =>
    rw [hrequest] at hafter
    replace hafter : e.before.dispatcherRaises.plan.Reported nodeId attemptId := hafter
    rw [dispatcherRaises_plan] at hafter
    exact absurd hafter hbefore
  | report id reportedId =>
    rw [hrequest] at hafter
    obtain ⟨heq, hids, hcarries⟩ := Plan.carries_of_reported hbefore hafter
    exact ⟨reportedId, by rw [hrequest, heq], hids, hcarries⟩

theorem reported_of_findsCarried {e : Entry} (he : e = entry step e.before e.request)
    (h : e.FindsCarried nodeId attemptId) : e.after.plan.Reported nodeId attemptId := by
  obtain ⟨reportedId, hrequest, hids, hcarries⟩ := h
  rw [he, hrequest]
  exact Plan.reported_of_carries hcarries hids

theorem findsCarried_of_reports {e : Entry} (h : e.Reports nodeId attemptId)
    (hreported : e.before.plan.Reported nodeId attemptId) : e.FindsCarried nodeId attemptId := by
  refine ⟨some attemptId, h.1, ?_, hreported.carries⟩
  intro id hid
  exact (Option.some.inj (Option.mem_filter_iff.mp hid).1).symm

/--
However the reports fall between the tick's awaits, the reports of all workers that the dispatcher has
launched are kept if and only if of each such worker some report finds its attempt recorded.
-/
theorem reports_kept_iff (plan : Plan) (allocations : List Allocation) (requests : List Request)
    : (∀ e ∈ transcript step (start plan allocations) requests, ∀ nodeId attemptId,
          Entry.Reports e nodeId attemptId →
            (final step (start plan allocations) requests).plan.Reported nodeId attemptId)
        ↔
      (∀ e ∈ transcript step (start plan allocations) requests, ∀ nodeId attemptId,
          Entry.Reports e nodeId attemptId →
            ∃ e' ∈ transcript step (start plan allocations) requests, Entry.FindsCarried e' nodeId attemptId) := by
  have hstart : (start plan allocations).Waiting := waiting_next plan allocations []
  constructor
  . intro h e he nodeId attemptId hreports
    have hend := h e he nodeId attemptId hreports
    by_cases hfirst : (start plan allocations).plan.Reported nodeId attemptId
    . have hbefore : e.before.plan.Reported nodeId attemptId :=
        kept_before (R := fun s => s.plan.Reported nodeId attemptId) waiting_step reported_step hstart hfirst he
      exact ⟨e, he, findsCarried_of_reports hreports hbefore⟩
    . obtain ⟨e', he', hbefore, hafter⟩ :=
        exists_turn (R := fun s : DispatchTick => s.plan.Reported nodeId attemptId) hfirst hend
      have hwaiting : e'.before.Waiting := inv_before waiting_step hstart he'
      exact ⟨e', he', findsCarried_of_turn (eq_entry_of_mem he') hwaiting hbefore hafter⟩
  . intro h e he nodeId attemptId hreports
    obtain ⟨e', he', hfinds⟩ := h e he nodeId attemptId hreports
    exact kept_of_after (R := fun s => s.plan.Reported nodeId attemptId) waiting_step reported_step hstart he'
      (reported_of_findsCarried (eq_entry_of_mem he') hfinds)

def readyPlan : Plan :=
  let goal : PlanNode := { id := "goal", planId := "plan", kind := .goal, title := "Ship" }
  let implement : PlanNode :=
    { id := "implement", planId := "plan", parentId := some "goal", title := "Implement" }
  let plan : Plan := { id := "plan", workspaceId := "workspace", goalId := "goal" }
  (plan.setNode goal).setNode implement

def earlyReport : List Request :=
  [.launch "attempt", .report "implement" (some "attempt"), .dispatcherReturns]

/--
The worker reports before the dispatcher returns, and its node stays `DISPATCHED`.
-/
theorem early_report_lost
    : (final step (start readyPlan [⟨"implement", "worker"⟩]) earlyReport).place.isFinished = true ∧
        ¬∀ e ∈ transcript step (start readyPlan [⟨"implement", "worker"⟩]) earlyReport, ∀ nodeId attemptId,
          Entry.Reports e nodeId attemptId →
            (final step (start readyPlan [⟨"implement", "worker"⟩]) earlyReport).plan.Reported nodeId attemptId := by
  refine ⟨by decide +kernel, ?_⟩
  intro h
  have hmem : entry step ((start readyPlan [⟨"implement", "worker"⟩]).launch "attempt")
      (.report "implement" (some "attempt")) ∈
        transcript step (start readyPlan [⟨"implement", "worker"⟩]) earlyReport :=
    List.mem_cons_of_mem _ List.mem_cons_self
  have hreported := h _ hmem "implement" "attempt" ⟨rfl, by decide +kernel⟩
  obtain ⟨node, hget, hexecution, -⟩ := hreported
  have hnode : ((final step (start readyPlan [⟨"implement", "worker"⟩]) earlyReport).plan.nodes.get "implement").map
      PlanNode.execution = some .dispatched := by
    decide +kernel
  rw [hget, Option.map_some, hexecution] at hnode
  cases hnode

end DispatchTick

end Workspace
end MemStack
