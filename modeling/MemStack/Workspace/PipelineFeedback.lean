import MemStack.Workspace.Invalidate

/-!
This module contains verification reports (`domain/model/workspace_plan/acceptance.py`) and what the
supervisor reads in the failures of a report about the pipeline of a node (`supervisor.py`). The confidence of
a result is a rational number. `str.isalnum` is given.
-/

namespace MemStack
namespace Workspace

inductive CriterionKind where
  | cmd
  | schema
  | fileExists
  | regex
  | browserE2e
  | ciPipeline
  | pipelineStage
  | deploymentHealth
  | previewE2e
  | llmJudge
  | custom
  deriving DecidableEq, Repr

def CriterionKind.toText : CriterionKind → String
  | .cmd => "cmd"
  | .schema => "schema"
  | .fileExists => "file_exists"
  | .regex => "regex"
  | .browserE2e => "browser_e2e"
  | .ciPipeline => "ci_pipeline"
  | .pipelineStage => "pipeline_stage"
  | .deploymentHealth => "deployment_health"
  | .previewE2e => "preview_e2e"
  | .llmJudge => "llm_judge"
  | .custom => "custom"

structure AcceptanceCriterion where
  kind : CriterionKind
  spec : Metadata := .empty
  required : Bool := true

structure EvidenceRef where
  kind : String
  ref : String
  note : String := ""
  deriving DecidableEq, Repr

structure CriterionResult where
  criterion : AcceptanceCriterion
  passed : Bool
  confidence : ℚ := 1
  message : String := ""
  evidence : List EvidenceRef := []

structure VerificationReport where
  nodeId : String
  attemptId : Option String := none
  results : List CriterionResult := []
  ranAt : String := ""

namespace VerificationReport

variable (report : VerificationReport)

def passed : Bool :=
  report.results.all fun result => !result.criterion.required || result.passed

def hardFail : Bool :=
  report.results.any fun result => !result.passed && result.criterion.required && 9 / 10 ≤ result.confidence

def failedRequired : List CriterionResult :=
  report.results.filter fun result => result.criterion.required && !result.passed

def summary : String :=
  if report.passed then
    s!"verified ({report.results.length} criteria passed)"
  else
    let fails := report.failedRequired
    let line (result : CriterionResult) : String :=
      s!"  - [{result.criterion.kind.toText}] " ++ (if result.message = "" then "failed" else result.message)
    "\n".intercalate <|
      s!"verification failed: {fails.length}/{report.results.length} required criteria did not pass" ::
        (fails.take 5).map line

theorem failedRequired_eq_nil : report.failedRequired = [] ↔ report.passed := by
  rw [failedRequired, passed, List.filter_eq_nil_iff, List.all_eq_true]
  constructor
  all_goals
    intro h result hresult
    specialize h result hresult
    cases hrequired : result.criterion.required <;> simp_all

end VerificationReport

namespace Supervisor

def startsWith (text start : String) : Bool :=
  start.toList.isPrefixOf text.toList

def stringList : Option Value → List String
  | some (.str s) => if s = "" then [] else [s]
  | some (.list items) => (items.filter Value.truthy).map Value.text
  | _ => []

-- `value.removeprefix(prefix)`.
def withoutPrefix (start text : String) : String :=
  if startsWith text start then String.ofList (text.toList.drop start.length) else text

def firstPrefixedValue (values : List String) (start : String) : Option String :=
  (values.find? (startsWith · start)).map (withoutPrefix start)

def lastPrefixedValue (values : List String) (start : String) : Option String :=
  firstPrefixedValue values.reverse start

-- `str(value or "").strip().lower()`.
def normalized (value : Option Value) : String :=
  ((value.filter Value.truthy).map fun value => Text.lower (Text.strip value.text)).getD ""

-- `"\n".join(str(marker).lower() for marker in markers if marker)`.
def joinedMarkers (markers : List (Option Value)) : String :=
  "\n".intercalate (((markers.filterMap id).filter Value.truthy).map fun marker => Text.lower marker.text)

def mentions (text : String) (tokens : List String) : Bool :=
  tokens.any (Text.contains text)

def isPipelineFailureMarker (text : String) : Bool :=
  let marker := Text.lower (Text.strip text)
  marker ≠ "" &&
    (["ci_pipeline", "ci_", "ci-", "pipeline_", "pipeline-", "missing_ci_evidence", "missing_drone_pipeline",
        "harness_native_cicd", "harness-native-cicd"].any (startsWith marker) ||
      mentions marker ["source_publish", "source publish", "source-publish", "memstack-source-publish",
        "ci_pipeline", "ci-pipeline", "ci pipeline", "ci/cd", "drone", "harness-native ci", "harness-native-ci"] ||
      (Text.contains marker "github" && Text.contains marker "main" &&
        mentions marker ["merge", "merged", "publish", "push"]))

def isFailureMarkerValue (value : Option Value) : Bool :=
  (value.bind Value.asStr).any isPipelineFailureMarker

def isPipelineRuntimeRetryMarker (text : String) : Bool :=
  let marker := Text.lower (Text.strip text)
  marker ≠ "" &&
    mentions marker ["source_publish", "drone_api", "all connection attempts failed", "failed to connect",
      "couldn't connect", "ssl_error_syscall", "ssl_connect", "connection reset", "connection refused",
      "temporarily unavailable", "rate limit", "tls handshake timeout", "i/o timeout",
      "context deadline exceeded", "registry-1.docker.io", "docker.io/v2/"]

section FeedbackItem

variable (item : List (String × Value))

def itemMarkers (keys : List String) : List (Option Value) :=
  keys.map (lookup item) ++ (stringList (lookup item "evidence_refs")).map (some <| .str ·)

def itemCallsForWorker : Bool :=
  normalized (lookup item "target_layer") = "worker" ||
    normalized (lookup item "feedback_kind") = "product_code_failure" ||
    normalized (lookup item "recommended_action") = "retry_worker"

def feedbackItemIsPipelineEvidenceGap : Bool :=
  !itemCallsForWorker item &&
    let markers := itemMarkers item ["feedback_kind", "recommended_action", "summary", "failure_signature"]
    mentions (joinedMarkers markers)
        ["evidence", "not triggered", "not yet on main", "publish", "trigger", "worktree commit"] &&
      markers.any isFailureMarkerValue &&
      mentions (joinedMarkers markers)
        ["missing", "not captured", "not found", "required", "not triggered", "not yet on main", "publish",
          "trigger"]

def feedbackItemIsPlatformPipelineBridgeFailure : Bool :=
  normalized (lookup item "target_layer") ∈ ["human", "runtime", "planner"] &&
    normalized (lookup item "feedback_kind") = "runtime_infra_failure" &&
    normalized (lookup item "recommended_action") ∈ ["escalate_human", "create_repair_node", "request_pipeline"] &&
    let markers := itemMarkers item ["summary", "failure_signature"]
    markers.any isFailureMarkerValue &&
      mentions (joinedMarkers markers)
        ["github_token", "drone_token", "platform harness", "platform ref", "source-publish",
          "memstack-source-publish", "github/main", "git push"]

end FeedbackItem

def mappings (items : List Value) : List (List (String × Value)) :=
  items.filterMap Value.asDict

-- `all(isinstance(item, Mapping) and p(item) for item in items)`.
def allMappings (p : List (String × Value) → Bool) (items : List Value) : Bool :=
  items.all fun item => item.asDict.any p

def feedbackItemsRequireWorkerRetry (items : List Value) : Bool :=
  let read := (mappings items).filter (!feedbackItemIsPipelineEvidenceGap ·)
  read.any itemCallsForWorker &&
    !read.any fun item =>
      normalized (lookup item "feedback_kind") = "stale_or_invalid_task_target" ||
        normalized (lookup item "recommended_action") = "obsolete_node"

def judgeFeedbackHasProductCodeRetry (spec : Metadata) : Bool :=
  (mappings (((spec.get "feedback_items").bind Value.asList).getD [])).any fun item =>
    normalized (lookup item "feedback_kind") = "product_code_failure" ||
      startsWith (normalized (lookup item "failure_signature")) "product-code"

section Failure

variable (result : CriterionResult)

def isPipelineCriterion : Bool :=
  result.criterion.kind ∈ [.ciPipeline, .pipelineStage, .deploymentHealth, .previewE2e]

def isCustom (name : String) : Bool :=
  result.criterion.kind = .custom && (result.criterion.spec.get "name").bind Value.asStr = some name

def specText (key : String) : Option String :=
  (result.criterion.spec.get key).bind Value.asStr

def failedCriteria : List String :=
  stringList (result.criterion.spec.get "failed_criteria")

def feedbackItems : Option (List Value) :=
  (result.criterion.spec.get "feedback_items").bind Value.asList

def failureMarkers (keys : List String) : List (Option Value) :=
  some (.str result.message) :: keys.map result.criterion.spec.get ++
    (failedCriteria result).map (some <| .str ·)

def failedIsPipelineOnly : Bool :=
  failedCriteria result ≠ [] && (failedCriteria result).all isPipelineFailureMarker

def isVerificationJudgeInconclusiveFailure : Bool :=
  isCustom result "retryable_infrastructure_failure" &&
    specText result "judge_verdict" = some "retry_infrastructure" &&
    ("workspace_verification_judge" ∈ failedCriteria result ||
      (mappings ((feedbackItems result).getD [])).any fun item =>
        (lookup item "failure_signature").bind Value.asStr = some "workspace_verification_judge_failed")

def isPipelineOnlyJudgeFailure : Bool :=
  isCustom result "workspace_verification_judge" &&
    match (feedbackItems result).getD [] with
    | [] => failedIsPipelineOnly result
    | item :: items =>
      let items := item :: items
      if feedbackItemsRequireWorkerRetry items then
        false
      else
        let signatures := (mappings items).map (lookup · "failure_signature")
        let gaps := allMappings feedbackItemIsPipelineEvidenceGap items
        if signatures = [] then
          failedIsPipelineOnly result
        else
          (gaps || signatures.all isFailureMarkerValue) &&
            (gaps || failedCriteria result = [] || failedIsPipelineOnly result)

def isPipelineMissingEvidenceJudgeFailure : Bool :=
  isCustom result "workspace_verification_judge" && failedIsPipelineOnly result

def isFeatureCheckpointEvidenceGap : Bool :=
  result.criterion.kind = .custom &&
    let name := normalized (result.criterion.spec.get "name")
    let message := Text.lower (Text.strip result.message)
    (name ∈ ["feature_checkpoint_evidence_recorded", "feature_checkpoint_evidence"] ||
        Text.contains message "missing feature checkpoint evidence") &&
      mentions message ["commit_ref", "git_diff_summary", "worktree"]

def isPipelinePublishGapJudgeFailure : Bool :=
  isCustom result "workspace_verification_judge" &&
    !judgeFeedbackHasProductCodeRetry result.criterion.spec &&
    let text := joinedMarkers <|
      failureMarkers result ["required_next_action", "failure_signature", "summary", "rationale"] ++
        (mappings ((feedbackItems result).getD [])).flatMap fun item =>
          itemMarkers item
            ["target_layer", "feedback_kind", "recommended_action", "summary", "failure_signature"]
    isPipelineFailureMarker text &&
      mentions text ["platform harness must publish", "platform harness", "source_publish", "source publish",
        "source-publish", "memstack-source-publish", "publish the fix", "publish commit", "re-trigger drone",
        "retrigger drone", "trigger drone", "no live drone build", "missing harness-native ci pipeline evidence"] &&
      mentions text ["do not change .drone.yml", "yaml fix is correct", "worktree is clean",
        "committed a legitimate", "substantive fix is real"]

def isPipelineHumanBlockJudgeFailure : Bool :=
  isCustom result "workspace_verification_judge" &&
    specText result "next_action_kind" = some "human_required" &&
    (feedbackItems result).getD [] ≠ [] &&
    allMappings feedbackItemIsPlatformPipelineBridgeFailure ((feedbackItems result).getD []) &&
    (failureMarkers result ["required_next_action", "failure_signature", "summary", "rationale"]).any
      isFailureMarkerValue

def isPipelineTriggerInfrastructureFailure : Bool :=
  isCustom result "retryable_infrastructure_failure" &&
    specText result "judge_verdict" = some "retry_infrastructure" &&
    let items := mappings ((feedbackItems result).getD [])
    let markers := failureMarkers result
        ["required_next_action", "next_action_kind", "failure_signature", "summary", "rationale"] ++
      items.flatMap (fun item => itemMarkers item
        ["target_layer", "feedback_kind", "recommended_action", "summary", "failure_signature"]) ++
      result.evidence.flatMap fun evidence =>
        [some (.str evidence.kind), some (.str evidence.ref), some (.str evidence.note)]
    -- the strong markers are texts, whatever the item holds
    let strongMarkers := failedCriteria result ++
      items.flatMap (fun item =>
        ((["feedback_kind", "recommended_action", "failure_signature"].filterMap (lookup item)).filter
            Value.truthy).map Value.text ++
          stringList (lookup item "evidence_refs")) ++
      result.evidence.flatMap fun evidence => [evidence.kind, evidence.ref]
    strongMarkers.any isPipelineFailureMarker && markers.any isFailureMarkerValue

def isPipelineBlockedWorkerReportFailure : Bool :=
  isCustom result "terminal_worker_report_completed" &&
    let text := Text.lower (Text.strip result.message)
    mentions text ["worker report type 'blocked'", "worker report type \"blocked\""] &&
      mentions text ["github_token", "drone_token", "platform harness", "external github merge",
        "memstack-source-publish"] &&
      isPipelineFailureMarker text

def isPreflightEvidenceFailure : Bool :=
  isCustom result "preflight_evidence_recorded" &&
    Text.contains (Text.lower (Text.strip result.message)) "missing preflight evidence"

end Failure

def pipelineFailuresAreMissingEvidence (results : List CriterionResult) : Bool :=
  results.any fun result => mentions (Text.lower result.message)
    ["missing harness-native ci pipeline evidence", "missing preview deployment health evidence"]

def pipelineFailuresAreRuntimeRetryable (results : List CriterionResult) : Bool :=
  results.any fun result => isPipelineRuntimeRetryMarker result.message ||
    result.evidence.any fun evidence =>
      isPipelineRuntimeRetryMarker evidence.ref || isPipelineRuntimeRetryMarker evidence.note

section KnownGoodCommit

variable (isAlnum : Char → Bool)

-- `\w`.
def isWordChar (c : Char) : Bool :=
  isAlnum c || c = '_'

def isHexDigit (c : Char) : Bool :=
  c.isDigit || c.toLower ∈ ['a', 'b', 'c', 'd', 'e', 'f']

def sameLetter (letter c : Char) : Bool :=
  letter = c.toLower || (letter, c) ∈ [('i', 'İ'), ('i', 'ı'), ('s', 'ſ'), ('k', '\u212A')]

def afterWord (word : String) (cs : List Char) : Option (List Char) :=
  if word.length ≤ cs.length ∧ (word.toList.zip cs).all fun e => sameLetter e.1 e.2 then
    some (cs.drop word.length)
  else
    none

-- What follows white space, `\s+`.
def afterSpaces : List Char → Option (List Char)
  | c :: cs => if Text.isSpace c then some (cs.dropWhile Text.isSpace) else none
  | [] => none

def afterWords (words : List String) (cs : List Char) : Option (List Char) :=
  words.foldlM (fun cs word => (afterWord word cs).bind afterSpaces) cs

-- `([0-9A-Fa-f]{7,40})`.
def commitAt (cs : List Char) : Option String :=
  let digits := (cs.takeWhile isHexDigit).take 40
  if 7 ≤ digits.length then some (String.ofList digits) else none

-- `[_ -]?`.
def afterSeparator : List Char → List Char
  | c :: cs => if c ∈ ['_', ' ', '-'] then cs else c :: cs
  | [] => []

def knownGoodPatterns : List (List Char → Option String) := [
  fun cs => (afterWords ["known-good", "fix", "exists", "at", "commit"] cs).bind commitAt,
  fun cs => do
    let cs ← afterWords ["platform", "harness", "must"] cs
    let cs ← afterWord "source" ((afterWords ["perform"] cs).getD cs)
    (afterWords ["publish", "of", "commit"] (afterSeparator cs)).bind commitAt,
  fun cs => (afterWords ["platform", "harness", "must", "publish", "commit"] cs).bind commitAt,
  fun cs => (afterWords ["committed", "as"] cs).bind commitAt
]

-- `re.search` of a pattern that begins with a letter at a word boundary.
def searchAtBoundary (pattern : List Char → Option String) (inWord : Bool) : List Char → Option String
  | [] => none
  | c :: cs =>
    (if inWord then none else pattern (c :: cs)).or (searchAtBoundary pattern (isWordChar isAlnum c) cs)

def platformPipelineKnownGoodCommitRefFromReport (report : VerificationReport) : Option String :=
  let text := Text.lower report.summary
  if !mentions text ["missing harness-native ci pipeline evidence", "harness-native ci pipeline evidence"] then
    none
  else if !mentions text ["platform harness", "source_publish", "source publish", "memstack-source-publish",
      "re-trigger drone", "retrigger drone", "trigger drone", "known-good fix exists at commit"] then
    none
  else
    knownGoodPatterns.findSome? fun pattern => searchAtBoundary isAlnum pattern false report.summary.toList

end KnownGoodCommit

section Request

variable (isAlnum : Char → Bool) (report : VerificationReport)

def pipelineFailures : List CriterionResult :=
  report.failedRequired.filter isPipelineCriterion

def nonPipelineFailures : List CriterionResult :=
  report.failedRequired.filter (!isPipelineCriterion ·)

def isBridgeFailure (result : CriterionResult) : Bool :=
  isPipelineOnlyJudgeFailure result || isPipelineHumanBlockJudgeFailure result ||
    isPipelineTriggerInfrastructureFailure result || isPipelineBlockedWorkerReportFailure result

def failuresRequestPipeline : Bool :=
  if pipelineFailures report = [] then
    (nonPipelineFailures report).any isBridgeFailure &&
      (nonPipelineFailures report).all fun result =>
        isBridgeFailure result || isPreflightEvidenceFailure result ||
          isVerificationJudgeInconclusiveFailure result
  else
    let missingEvidence := pipelineFailuresAreMissingEvidence (pipelineFailures report)
    let canRequestRun := missingEvidence || pipelineFailuresAreRuntimeRetryable (pipelineFailures report)
    (canRequestRun && (platformPipelineKnownGoodCommitRefFromReport isAlnum report).isSome) ||
      (nonPipelineFailures report).all fun result =>
        isPipelineOnlyJudgeFailure result || isPipelineHumanBlockJudgeFailure result ||
          (missingEvidence && isPipelineMissingEvidenceJudgeFailure result) ||
          (canRequestRun && isFeatureCheckpointEvidenceGap result) ||
          (canRequestRun && isPipelinePublishGapJudgeFailure result) ||
          isPipelineTriggerInfrastructureFailure result ||
          (canRequestRun && isVerificationJudgeInconclusiveFailure result)

end Request

end Supervisor

end Workspace
end MemStack
