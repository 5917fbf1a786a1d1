import MemStack.Workspace.PipelineFeedback

/-!
This module contains the pipeline gate of a supervisor tick (`supervisor.py`): what the tick does with a
reported node once its attempt was verified. A branch that neither accepts the node nor asks or waits for its
pipeline is only named. A number that is not an integer is left out of the metadata, and the checkpoint, the
handoff package and the progress of the node are left out.
-/

namespace MemStack
namespace Workspace

inductive DecisionAction where
  | acceptNode
  | requestPipeline
  | waitPipeline
  | retrySameNode
  | createRepairNode
  | markBlockedHuman
  | disposeNode
  | replanNode
  | noop
  deriving DecidableEq, Repr

def DecisionAction.toText : DecisionAction → String
  | .acceptNode => "accept_node"
  | .requestPipeline => "request_pipeline"
  | .waitPipeline => "wait_pipeline"
  | .retrySameNode => "retry_same_node"
  | .createRepairNode => "create_repair_node"
  | .markBlockedHuman => "mark_blocked_human"
  | .disposeNode => "dispose_node"
  | .replanNode => "replan_node"
  | .noop => "noop"

structure DecisionResult where
  action : DecisionAction
  rationale : String
  feedbackItems : List (List (String × Value)) := []
  eventPayload : List (String × Value) := []

namespace Supervisor

section Artifacts

-- `list(dict.fromkeys(refs))`.
def inOrder (refs : List String) : List String :=
  refs.reverse.dedup.reverse

variable (artifacts : Metadata)

def refsUnder (keys : List String) : List String :=
  keys.flatMap fun key => stringList (artifacts.get key)

def artifactEvidenceRefs : List String :=
  inOrder <| refsUnder artifacts
    ["candidate_artifacts", "last_worker_report_artifacts", "execution_artifacts", "evidence_refs",
      "candidate_verifications", "last_worker_report_verifications", "execution_verifications",
      "verification_evidence_refs"]

def pipelineRefsForVerification (refs : List String) : List String :=
  let pipelineRefs := refsUnder artifacts ["pipeline_evidence_refs"]
  if pipelineRefs ≠ [] then
    inOrder pipelineRefs
  else
    inOrder (refs ++ refsUnder artifacts ["evidence_refs", "execution_verifications", "verification_evidence_refs"])

end Artifacts

def reportEvidenceRefs (report : VerificationReport) : List String :=
  inOrder <| report.results.flatMap fun result => (result.evidence.map (·.ref)).filter (· ≠ "")

def pipelineStatusFromRefs (refs : List String) : Option String × Option String :=
  let status :=
    if "ci_pipeline:passed" ∈ refs then some "success"
    else if "ci_pipeline:failed" ∈ refs then some "failed"
    else none
  let visit (found : Option String × Option String) (ref : String) : Option String × Option String :=
    if startsWith ref "pipeline_run:success:" then
      (some "success", some (withoutPrefix "pipeline_run:success:" ref))
    else if startsWith ref "pipeline_run:failed:" then
      (some "failed", some (withoutPrefix "pipeline_run:failed:" ref))
    else
      found
  refs.foldl visit (status, none)

section Gate

variable (node : PlanNode)

def nodeRequiresPipelineGate : Bool :=
  node.kind ≠ .goal &&
    match node.metadata.get "pipeline_required" with
    | some (.bool required) => required
    | _ => false

def pipelineUnderWay : Bool :=
  pipelineGateStatus node ∈ ["requested", "running"]

def nodeHasPipelineSuccess (artifacts : Metadata) : Bool :=
  let contradicted := ((artifacts.get "pipeline_status").bind Value.asStr).any fun status =>
    Text.lower (Text.strip status) ∉ ["", "success"]
  let status := (pipelineStatusFromRefs (pipelineRefsForVerification artifacts [])).1
  let candidateCommit :=
    ((firstPrefixedValue (artifactEvidenceRefs artifacts) "commit_ref:").filter (· ≠ "")).or
      (metadataTextOf node "verified_commit_ref")
  let publishedCommit := metadataTextOf node "source_publish_commit_ref"
  !contradicted && status ≠ some "failed" && pipelineGateStatus node = "success" &&
    !(candidateCommit.isSome && publishedCommit.isSome && !commitRefsMatch publishedCommit candidateCommit)

def shouldRequestPipelineAfterVerification (artifacts : Metadata) : Bool :=
  if !nodeRequiresPipelineGate node then false
  else if nodeHasPipelineSuccess node artifacts then false
  else !pipelineUnderWay node

def shouldRequestPipelineFromReport (isAlnum : Char → Bool) (report : VerificationReport) : Bool :=
  if pipelineUnderWay node then false
  else if report.failedRequired = [] then nodeRequiresPipelineGate node
  else failuresRequestPipeline isAlnum report

end Gate

def decisionRequestsPlatformPipeline (decision : DecisionResult) (report : VerificationReport) : Bool :=
  if decision.action = .requestPipeline then
    true
  else if decision.action ≠ .retrySameNode then
    false
  else
    let failures := pipelineFailures report
    let markers := some (.str decision.rationale) :: decision.feedbackItems.flatMap fun item =>
      itemMarkers item ["target_layer", "feedback_kind", "recommended_action", "summary", "failure_signature"]
    let text := joinedMarkers markers
    (pipelineFailuresAreMissingEvidence failures || pipelineFailuresAreRuntimeRetryable failures) &&
      !report.failedRequired.any (fun result =>
        result.criterion.kind = .custom && judgeFeedbackHasProductCodeRetry result.criterion.spec) &&
      isPipelineFailureMarker text &&
      mentions text ["platform harness", "source_publish", "source publish", "source-publish",
        "memstack-source-publish", "fast-forward", "fast forward", "publish the", "publish commit",
        "re-trigger drone", "retrigger drone", "trigger drone", "harness-native ci"]

section Written

variable (node : PlanNode) (report : VerificationReport)

def judgeResultMetadata : List (String × Value) :=
  match report.results.find? fun result => (specText result "judge_verdict").any (· ≠ "") with
  | none => []
  | some result =>
    let spec := result.criterion.spec
    let text (key : String) : Option Value :=
      ((specText result key).filter (Text.strip · ≠ "")).map .str
    [("last_verification_judge_verdict", spec.get "judge_verdict"),
      ("last_verification_judge_rationale", some (.str result.message)),
      ("last_verification_judge_next_action_kind", text "next_action_kind"),
      ("last_verification_judge_failed_criteria", ((spec.get "failed_criteria").bind Value.asList).map
        fun items => .list ((items.filter Value.truthy).map fun item => .str item.text)),
      ("last_verification_judge_required_next_action", text "required_next_action"),
      ("last_verification_judge_repair_brief", ((spec.get "repair_brief").bind Value.asDict).bind
        fun brief => if brief = [] then none else some (.dict brief)),
      ("last_verification_feedback_items", (feedbackItems result).map
        fun items => .list ((mappings items).map .dict))].filterMap
      fun entry => entry.2.map (entry.1, ·)

def copiedArtifacts (artifacts : Metadata) : List (String × Value) :=
  (["candidate_artifacts", "last_worker_report_artifacts", "execution_artifacts", "pipeline_evidence_refs",
      "candidate_verifications", "last_worker_report_verifications", "execution_verifications"].filter
    fun key => stringList (artifacts.get key) ≠ []).map
    fun key => (key, .list ((stringList (artifacts.get key)).map .str))

def textEntry (key : String) (value : Option String) : List (String × Value) :=
  match value.filter (· ≠ "") with
  | none => []
  | some text => [(key, .str text)]

def nodeWithVerificationEvidence (artifacts : Metadata) : PlanNode :=
  let refs := inOrder (reportEvidenceRefs report ++ artifactEvidenceRefs artifacts)
  let testCommands := inOrder ((refs.filter (startsWith · "test_run:")).map (withoutPrefix "test_run:"))
  let (status, runId) := pipelineStatusFromRefs (pipelineRefsForVerification artifacts refs)
  let ran : List (String × Value) := [
    ("last_verification_summary", .str report.summary),
    ("last_verification_passed", .bool report.passed),
    ("last_verification_hard_fail", .bool report.hardFail),
    ("last_verification_ran_at", .str report.ranAt)
  ]
  { node with
    metadata := withAll ((withAll node.metadata ran).erase "retry_verification_only") <|
      judgeResultMetadata report ++
      textEntry "last_verification_attempt_id" report.attemptId ++
      [("verification_evidence_refs", .list (refs.map .str))] ++
      textEntry "verified_commit_ref" (lastPrefixedValue refs "commit_ref:") ++
      textEntry "verified_git_diff_summary" (lastPrefixedValue refs "git_diff_summary:") ++
      (if testCommands = [] then [] else [("verified_test_commands", .list (testCommands.map .str))]) ++
      textEntry "pipeline_status" status ++
      textEntry "pipeline_gate_status" status ++
      textEntry "pipeline_run_id" runId ++
      copiedArtifacts artifacts }

def pipelineProvider : Value :=
  ((node.metadata.get "pipeline_provider").filter Value.truthy).getD (.str "sandbox_native")

def nodeWithPipelineRequest (isAlnum : Char → Bool) (now : String) : PlanNode :=
  let source := platformPipelineKnownGoodCommitRefFromReport isAlnum report
  { node with
    intent := .inProgress
    execution := .idle
    metadata := withAll node.metadata <|
      [("pipeline_required", .bool true),
        ("pipeline_provider", pipelineProvider node),
        ("pipeline_status", .str "requested"),
        ("pipeline_gate_status", .str "requested"),
        ("pipeline_request_count",
          .int ((((node.metadata.get "pipeline_request_count").bind Value.asInt).filter (0 < ·)).getD 0 + 1)),
        ("pipeline_requested_at", .str now),
        ("last_verification_summary", .str report.summary),
        ("last_verification_passed", .bool false),
        ("last_verification_hard_fail", .bool false)] ++
      textEntry "last_verification_attempt_id" report.attemptId ++
      textEntry "verified_commit_ref" source ++
      textEntry "source_publish_source_commit_ref" source ++
      match source with
      | none => []
      | some commit =>
        [("verification_evidence_refs", .list <| (inOrder <|
          stringList (node.metadata.get "verification_evidence_refs") ++ ["commit_ref:" ++ commit]).map .str)] }

def nodeWithPendingPipelineGate (artifacts : Metadata) : PlanNode :=
  let evidenced := nodeWithVerificationEvidence node report artifacts
  let kept (key : String) : Value :=
    ((evidenced.metadata.get key).filter Value.truthy).getD (.str "requested")
  { evidenced with
    intent := .inProgress
    execution := .reported
    metadata := withAll evidenced.metadata <|
      [("pipeline_required", .bool true),
        ("pipeline_provider", pipelineProvider evidenced),
        ("pipeline_status", kept "pipeline_status"),
        ("pipeline_gate_status", kept "pipeline_gate_status"),
        ("last_verification_summary", .str report.summary),
        ("last_verification_passed", .bool false),
        ("last_verification_hard_fail", .bool false)] ++
      textEntry "last_verification_attempt_id" report.attemptId }

def nodeWithSupervisorDecisionDisposition (decision : DecisionResult) (artifacts : Metadata) : PlanNode :=
  let evidenced := nodeWithVerificationEvidence node report artifacts
  { evidenced with
    metadata := withAll evidenced.metadata <|
      [("last_supervisor_decision_action", .str decision.action.toText),
        ("last_supervisor_decision_rationale", .str decision.rationale)] ++
      (if decision.feedbackItems = [] then []
        else [("last_supervisor_decision_feedback_items", .list (decision.feedbackItems.map .dict))]) ++
      (if decision.eventPayload = [] then []
        else [("last_supervisor_decision_event_payload", .dict decision.eventPayload)]) }

end Written

inductive Outcome where
  | accepted (node : PlanNode)
  | pipelineRequested (node : PlanNode)
  | waiting (node : PlanNode)
  | retried
  | replanned
  | disposed
  | blocked
  | untouched
  -- the branches of a report that did not pass
  | failed

section Verified

variable (isAlnum : Char → Bool) (provider : Option (Except String DecisionResult)) (node : PlanNode)
variable (report : VerificationReport) (artifacts : Metadata) (now : String)

def decisionOf : Except String DecisionResult → DecisionResult
  | .ok decision => decision
  | .error exc => {
      action := .retrySameNode
      rationale := "supervisor decision provider failed; retrying same node"
      feedbackItems := [[
        ("target_layer", .str "runtime"),
        ("recommended_action", .str "retry_infra"),
        ("summary", .str exc),
        ("failure_signature", .str "workspace_supervisor_decision_failed")
      ]]
    }

def supervisorDecisionAllowsHumanBlock (decision : DecisionResult) : Bool :=
  let stripped (item : List (String × Value)) (key : String) : String :=
    (((lookup item key).filter Value.truthy).map fun value => Text.strip value.text).getD ""
  (match lookup decision.eventPayload "human_required" with
    | some (.bool required) => required
    | _ => false) ||
    decision.feedbackItems.any fun item =>
      stripped item "target_layer" = "human" || stripped item "recommended_action" = "escalate_human" ||
        stripped item "next_action" = "human_required"

def requested : Outcome :=
  .pipelineRequested <|
    nodeWithPipelineRequest (nodeWithVerificationEvidence node report artifacts) report isAlnum now

def applyAgentSupervisorDecision (decision : DecisionResult) : Outcome :=
  if decision.action ∈ [.acceptNode, .createRepairNode, .markBlockedHuman, .replanNode, .retrySameNode] &&
      (shouldRequestPipelineFromReport node isAlnum report || decisionRequestsPlatformPipeline decision report) then
    requested isAlnum node report artifacts now
  else
    match decision.action with
    | .noop => .untouched
    | .acceptNode => .accepted {
        nodeWithSupervisorDecisionDisposition node report decision artifacts with
        intent := .done
        execution := .idle }
    | .requestPipeline => requested isAlnum node report artifacts now
    | .waitPipeline => .waiting (nodeWithPendingPipelineGate node report artifacts)
    | .retrySameNode => .retried
    | .createRepairNode => .replanned
    | .replanNode => .replanned
    | .disposeNode => .disposed
    | .markBlockedHuman => if supervisorDecisionAllowsHumanBlock decision then .blocked else .retried

def verified : Outcome :=
  match provider with
  | some answer => applyAgentSupervisorDecision isAlnum node report artifacts now (decisionOf answer)
  | none =>
    if report.passed then
      if shouldRequestPipelineAfterVerification node artifacts then
        requested isAlnum node report artifacts now
      else
        .accepted { nodeWithVerificationEvidence node report artifacts with
          intent := .done
          execution := .idle }
    else
      .failed

end Verified

def Outcome.MovesToDone : Outcome → Prop
  | .accepted after => after.intent = .done ∧ after.execution = .idle
  | _ => False

section Kept

variable (isAlnum : Char → Bool) (provider : Option (Except String DecisionResult)) (node : PlanNode)
variable (report : VerificationReport) (artifacts : Metadata) (now : String)

def DoneOnlyOnSuccess : Prop :=
  (verified isAlnum provider node report artifacts now).MovesToDone →
    pipelineGateStatus node = "success" ∧ ¬pipelineUnderWay node ∧ nodeHasPipelineSuccess node artifacts

def ReportAsks : Prop :=
  ¬pipelineUnderWay node ∧ if report.passed then node.kind ≠ .goal else failuresRequestPipeline isAlnum report

def GateClosed : Prop :=
  match provider with
  | none => report.passed → node.kind ≠ .goal ∧ ¬pipelineUnderWay node
  | some answer => (decisionOf answer).action = .acceptNode → ReportAsks isAlnum node report

end Kept

section Lemmas

variable {isAlnum : Char → Bool} {provider : Option (Except String DecisionResult)} {node : PlanNode}
variable {report : VerificationReport} {artifacts : Metadata} {now : String}

theorem requires_iff (hrequired : node.metadata.get "pipeline_required" = some (.bool true))
    : nodeRequiresPipelineGate node ↔ node.kind ≠ .goal := by
  simp [nodeRequiresPipelineGate, hrequired]

theorem gate_of_success (h : nodeHasPipelineSuccess node artifacts)
    : pipelineGateStatus node = "success" ∧ ¬pipelineUnderWay node := by
  simp only [nodeHasPipelineSuccess, Bool.and_eq_true, decide_eq_true_eq] at h
  have hgate := h.1.2
  refine ⟨hgate, ?_⟩
  rw [pipelineUnderWay, hgate]
  decide

theorem shouldRequestPipelineFromReport_iff
    (hrequired : node.metadata.get "pipeline_required" = some (.bool true))
    : shouldRequestPipelineFromReport node isAlnum report ↔ ReportAsks isAlnum node report := by
  unfold shouldRequestPipelineFromReport ReportAsks
  by_cases hunder : pipelineUnderWay node
  . simp [hunder]
  . by_cases hpassed : report.passed
    . have hnil := report.failedRequired_eq_nil.mpr hpassed
      simp [hunder, hpassed, hnil, ← requires_iff hrequired]
    . have hfails := mt report.failedRequired_eq_nil.mp hpassed
      simp [hunder, hpassed, hfails]

theorem not_movesToDone_requested : ¬(requested isAlnum node report artifacts now).MovesToDone := by
  simp [requested, Outcome.MovesToDone]

theorem decision_movesToDone_iff (decision : DecisionResult)
    : (applyAgentSupervisorDecision isAlnum node report artifacts now decision).MovesToDone
        ↔ decision.action = .acceptNode ∧ ¬shouldRequestPipelineFromReport node isAlnum report := by
  unfold applyAgentSupervisorDecision
  split
  case isTrue h =>
    simp only [not_movesToDone_requested, false_iff, not_and, not_not]
    intro haccept
    simpa [haccept, decisionRequestsPlatformPipeline] using h
  case isFalse h =>
    cases haction : decision.action with
    | acceptNode =>
      simp only [haction, decisionRequestsPlatformPipeline] at h
      simpa [Outcome.MovesToDone] using h
    | requestPipeline => simp [not_movesToDone_requested]
    | markBlockedHuman =>
      by_cases hblock : supervisorDecisionAllowsHumanBlock decision
      all_goals simp [hblock, Outcome.MovesToDone]
    | waitPipeline => simp [Outcome.MovesToDone]
    | retrySameNode => simp [Outcome.MovesToDone]
    | createRepairNode => simp [Outcome.MovesToDone]
    | disposeNode => simp [Outcome.MovesToDone]
    | replanNode => simp [Outcome.MovesToDone]
    | noop => simp [Outcome.MovesToDone]

theorem report_movesToDone_iff
    : (verified isAlnum none node report artifacts now).MovesToDone
        ↔ report.passed ∧ ¬shouldRequestPipelineAfterVerification node artifacts := by
  unfold verified
  by_cases hpassed : report.passed
  . by_cases hrequest : shouldRequestPipelineAfterVerification node artifacts
    . simp [hpassed, hrequest, not_movesToDone_requested]
    . simp [hpassed, hrequest, Outcome.MovesToDone]
  . simp [hpassed, Outcome.MovesToDone]

/--
Where the supervisor accepts a node whose report passed, it is done exactly while its pipeline is under way.
-/
theorem accept_passed_iff_underWay
    (hrequired : node.metadata.get "pipeline_required" = some (.bool true)) (hkind : node.kind ≠ .goal)
    (hpassed : report.passed) {decision : DecisionResult} (haccept : decision.action = .acceptNode)
    : (verified isAlnum (some (.ok decision)) node report artifacts now).MovesToDone ↔ pipelineUnderWay node := by
  unfold verified decisionOf
  rw [decision_movesToDone_iff, shouldRequestPipelineFromReport_iff hrequired, ReportAsks]
  simp [haccept, hpassed, hkind]

/--
A node that needs its pipeline is done only after the pipeline succeeded, if and only if that success is there
already or the gate is closed for whoever accepts the node: the pipeline is not under way, and the report asks
for it.
-/
theorem doneOnlyOnSuccess_iff
    (hrequired : node.metadata.get "pipeline_required" = some (.bool true))
    : DoneOnlyOnSuccess isAlnum provider node report artifacts now
        ↔ nodeHasPipelineSuccess node artifacts ∨ GateClosed isAlnum provider node report := by
  unfold DoneOnlyOnSuccess
  by_cases hsuccess : nodeHasPipelineSuccess node artifacts
  . have hgate := gate_of_success hsuccess
    simp [hsuccess, hgate.1, hgate.2]
  . simp only [hsuccess, Bool.false_eq_true, and_false, imp_false, false_or]
    unfold GateClosed
    cases provider with
    | none =>
      rw [report_movesToDone_iff]
      simp [shouldRequestPipelineAfterVerification, requires_iff hrequired, hsuccess]
    | some answer =>
      unfold verified
      rw [decision_movesToDone_iff, shouldRequestPipelineFromReport_iff hrequired]
      simp

end Lemmas

section Example

def buildNode : PlanNode where
  id := "build"
  planId := "plan"
  parentId := some "goal"
  title := "Build"
  intent := .inProgress
  execution := .reported
  metadata := withAll .empty [("pipeline_required", .bool true), ("pipeline_status", .str "running")]

def acceptDecision : DecisionResult where
  action := .acceptNode
  rationale := "the attempt satisfies the node"

/--
The node is done while its pipeline runs: its report passed, and no supervisor or an accepting one decides.
-/
theorem build_done_while_running
    : pipelineUnderWay buildNode
      ∧ ¬DoneOnlyOnSuccess Char.isAlphanum none buildNode { nodeId := "build" } .empty "now"
      ∧ ¬DoneOnlyOnSuccess Char.isAlphanum (some (.ok acceptDecision)) buildNode { nodeId := "build" } .empty
        "now" := by
  refine ⟨by decide +kernel, ?_, ?_⟩
  . intro h
    have hgate := (h ⟨rfl, rfl⟩).2.1
    exact hgate (by decide +kernel)
  . intro h
    have hgate := (h ⟨rfl, rfl⟩).2.1
    exact hgate (by decide +kernel)

/--
Before its pipeline is asked for, the node is not done without it.
-/
theorem build_gate_kept
    : DoneOnlyOnSuccess Char.isAlphanum none { buildNode with metadata := buildNode.metadata.erase "pipeline_status" }
        { nodeId := "build" } .empty "now" := by
  apply (doneOnlyOnSuccess_iff (by rfl)).mpr
  right
  intro _
  exact ⟨by decide, by decide +kernel⟩

end Example

end Supervisor

end Workspace
end MemStack
