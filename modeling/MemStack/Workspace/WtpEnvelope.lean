import MemStack.Util.JsonLemmas
import MemStack.Util.Text
import MemStack.Util.Checked

/-!
This module contains the envelopes of the workspace task protocol (`domain/model/workspace/wtp_envelope.py`)
and what is kept when an envelope is put into a message and taken out again. Errors are kept as data, their
texts are left out.
-/

namespace MemStack
namespace Workspace

open Checked

inductive WtpVerb where
  | taskAssign
  | taskRevise
  | taskCancel
  | taskClarifyResponse
  | taskProgress
  | taskClarifyRequest
  | taskCompleted
  | taskBlocked
  | taskHeartbeat
  deriving DecidableEq, Repr

namespace WtpVerb

def all : List WtpVerb :=
  [.taskAssign, .taskRevise, .taskCancel, .taskClarifyResponse, .taskProgress, .taskClarifyRequest,
    .taskCompleted, .taskBlocked, .taskHeartbeat]

def value : WtpVerb → String
  | taskAssign => "task.assign"
  | taskRevise => "task.revise"
  | taskCancel => "task.cancel"
  | taskClarifyResponse => "task.clarify_response"
  | taskProgress => "task.progress"
  | taskClarifyRequest => "task.clarify_request"
  | taskCompleted => "task.completed"
  | taskBlocked => "task.blocked"
  | taskHeartbeat => "task.heartbeat"

def ofValue (s : String) : Option WtpVerb :=
  all.find? (·.value = s)

def requiredPayloadKeys : WtpVerb → List String
  | taskAssign => ["description", "title"]
  | taskRevise => ["diff"]
  | taskCancel => ["reason"]
  | taskClarifyResponse => ["answer"]
  | taskProgress => ["summary"]
  | taskClarifyRequest => ["question"]
  | taskCompleted => ["summary"]
  | taskBlocked => ["reason"]
  | taskHeartbeat => []

theorem ofValue_value (verb : WtpVerb) : ofValue verb.value = some verb := by
  cases verb <;> decide

theorem value_ne_empty (verb : WtpVerb) : verb.value ≠ "" := by
  cases verb <;> decide

theorem value_of_ofValue {s : String} {verb : WtpVerb} (h : ofValue s = some verb) : verb.value = s := by
  unfold ofValue at h
  simpa using List.find?_some h

end WtpVerb

def wtpVersion : String :=
  "1"

inductive WtpError where
  | notAnEnvelope
  | unknownVerb
  | missingKey (key : String)
  | notAMapping (key : String)
  | invalidJson
  | contentNotADict
  | emptyOrNotAString (field : String)
  | notAStringOrNone (field : String)
  | missingPayloadKeys (keys : List String)
  | payloadType (key : String)
  | payloadBlank (key : String)
  deriving DecidableEq, Repr

abbrev NonEmptyString := { s : String // s ≠ "" }

variable {F : Type}

structure JsonObject (F : Type) where
  entries : List (String × Json F)
  sorted : (Json.dict entries).sorted = .dict entries

def JsonObject.ofEntries (entries : List (String × Json F)) : JsonObject F where
  entries := Json.sortEntries (Json.sortedEntries entries)
  sorted := Json.sorted_sorted (.dict entries)

theorem JsonObject.ofEntries_entries (object : JsonObject F)
    : JsonObject.ofEntries object.entries = object := by
  rcases object with ⟨entries, hsorted⟩
  rw [Json.sorted, Json.dict.injEq] at hsorted
  simp only [JsonObject.ofEntries, hsorted]

def isBlank (s : String) : Bool :=
  Text.strip s = ""

def payloadKeyError (payload : JsonObject F) (key : String) : Option WtpError :=
  match Json.get payload.entries key with
  | none | some .null | some (.list _) | some (.dict _) => none
  | some (.str s) => if isBlank s then some (.payloadBlank key) else none
  | some _ => some (.payloadType key)

def payloadError (verb : WtpVerb) (payload : JsonObject F) : Option WtpError :=
  let missing := verb.requiredPayloadKeys.filter fun key => (Json.get payload.entries key).isNone
  if missing = [] then
    verb.requiredPayloadKeys.findSome? (payloadKeyError payload)
  else
    some (.missingPayloadKeys missing)

structure WtpEnvelope (F : Type) where
  verb : WtpVerb
  workspaceId : NonEmptyString
  taskId : NonEmptyString
  attemptId : NonEmptyString
  payload : JsonObject F
  correlationId : NonEmptyString
  rootGoalTaskId : Option String := none
  parentMessageId : Json F := .null
  extraMetadata : Dict String (Json F) := .empty
  payload_ok : payloadError verb payload = none

structure AgentMessage (F : Type) where
  content : String
  metadata : Option (Dict String (Json F)) := none
  parentMessageId : Json F := .null

structure Fields (F : Type) where
  verb : WtpVerb
  workspaceId : Json F
  taskId : Json F
  attemptId : Json F
  payload : JsonObject F
  correlationId : Json F
  rootGoalTaskId : Json F
  parentMessageId : Json F
  extraMetadata : Dict String (Json F)

def nonEmptyString (field : String) (value : Json F) : Except WtpError NonEmptyString :=
  match value.asStr with
  | some s => if h : s ≠ "" then .ok ⟨s, h⟩ else .error (.emptyOrNotAString field)
  | none => .error (.emptyOrNotAString field)

def stringOrNone (field : String) : Json F → Except WtpError (Option String)
  | .null => .ok none
  | .str s => .ok (some s)
  | _ => .error (.notAStringOrNone field)

def Fields.validate (fields : Fields F) : Except WtpError (WtpEnvelope F) := do
  let workspaceId ← nonEmptyString "workspace_id" fields.workspaceId
  let taskId ← nonEmptyString "task_id" fields.taskId
  let attemptId ← nonEmptyString "attempt_id" fields.attemptId
  let correlationId ← nonEmptyString "correlation_id" fields.correlationId
  let rootGoalTaskId ← stringOrNone "root_goal_task_id" fields.rootGoalTaskId
  match h : payloadError fields.verb fields.payload with
  | some e => .error e
  | none => .ok {
      verb := fields.verb
      workspaceId, taskId, attemptId, correlationId, rootGoalTaskId
      payload := fields.payload
      parentMessageId := fields.parentMessageId
      extraMetadata := fields.extraMetadata
      payload_ok := h
    }

namespace WtpEnvelope

variable (e : WtpEnvelope F)

def rootMetadata : List (String × Json F) :=
  match e.rootGoalTaskId with
  | some id => [("root_goal_task_id", .str id)]
  | none => []

def toMetadata : Dict String (Json F) :=
  (e.extraMetadata.setAll [
    ("wtp_version", .str wtpVersion),
    ("wtp_verb", .str e.verb.value),
    ("workspace_id", .str e.workspaceId.val),
    ("task_id", .str e.taskId.val),
    ("attempt_id", .str e.attemptId.val),
    ("correlation_id", .str e.correlationId.val)
  ]).setAll e.rootMetadata

def toDict : Dict String (Json F) :=
  Dict.empty.setAll [
    ("verb", .str e.verb.value),
    ("workspace_id", .str e.workspaceId.val),
    ("task_id", .str e.taskId.val),
    ("attempt_id", .str e.attemptId.val),
    ("correlation_id", .str e.correlationId.val),
    ("root_goal_task_id", (e.rootGoalTaskId.map .str).getD .null),
    ("parent_message_id", e.parentMessageId),
    ("payload", .dict e.payload.entries),
    ("extra_metadata", .dict e.extraMetadata.entries)
  ]

end WtpEnvelope

def verbOf (value : Json F) : Except WtpError WtpVerb :=
  match value.asStr.bind WtpVerb.ofValue with
  | some verb => .ok verb
  | none => .error .unknownVerb

section Codec

variable [PyFloat F]

def WtpEnvelope.toContent (e : WtpEnvelope F) : String :=
  Json.dumps false true (.dict e.payload.entries)

-- `value or default`.
def orDefault (value : Option (Json F)) (default : String) : Json F :=
  (value.filter Json.truthy).getD (.str default)

def field (data : Dict String (Json F)) (key : String) : Except WtpError (Json F) :=
  match data.get key with
  | some value => .ok value
  | none => .error (.missingKey key)

-- `dict(value or {})`.
def mapping (key : String) (value : Option (Json F)) : Except WtpError (List (String × Json F)) :=
  match value.filter Json.truthy with
  | none => .ok []
  | some (.dict entries) => .ok entries
  | some _ => .error (.notAMapping key)

namespace WtpEnvelope

variable (newId : String)

def fromDict (data : Dict String (Json F)) : Except WtpError (WtpEnvelope F) := do
  let verb ← verbOf ((data.get "verb").getD .null)
  let workspaceId ← field data "workspace_id"
  let taskId ← field data "task_id"
  let attemptId ← field data "attempt_id"
  let payload ← mapping "payload" (data.get "payload")
  let extraMetadata ← mapping "extra_metadata" (data.get "extra_metadata")
  let fields : Fields F := {
    verb, workspaceId, taskId, attemptId
    correlationId := orDefault (data.get "correlation_id") newId
    rootGoalTaskId := (data.get "root_goal_task_id").getD .null
    parentMessageId := (data.get "parent_message_id").getD .null
    payload := .ofEntries payload
    extraMetadata := Dict.empty.setAll extraMetadata
  }
  fields.validate

def reservedKeys : List String :=
  ["wtp_verb", "wtp_version", "workspace_id", "task_id", "attempt_id", "correlation_id",
    "root_goal_task_id"]

def decodeContent (content : String) : Except WtpError (JsonObject F) :=
  if content = "" then
    .ok (.ofEntries [])
  else
    match Json.loads content with
    | none => .error .invalidJson
    | some (.dict entries) => .ok (.ofEntries entries)
    | some _ => .error .contentNotADict

def fromMessage (message : AgentMessage F) : Except WtpError (WtpEnvelope F) := do
  let metadata := message.metadata.getD .empty
  let verb := (metadata.get "wtp_verb").getD .null
  ensure verb.truthy WtpError.notAnEnvelope
  let verb ← verbOf verb
  let payload ← decodeContent message.content
  let fields : Fields F := {
    verb
    workspaceId := orDefault (metadata.get "workspace_id") ""
    taskId := orDefault (metadata.get "task_id") ""
    attemptId := orDefault (metadata.get "attempt_id") ""
    correlationId := orDefault (metadata.get "correlation_id") newId
    rootGoalTaskId := (metadata.get "root_goal_task_id").getD .null
    parentMessageId := message.parentMessageId
    payload
    extraMetadata := metadata.eraseAll reservedKeys
  }
  fields.validate

end WtpEnvelope

end Codec

section Validate

variable {e : WtpEnvelope F}

theorem nonEmptyString_eq_ok {name : String} {value : Json F} {s : NonEmptyString}
    : nonEmptyString name value = .ok s ↔ value = .str s.val := by
  rcases s with ⟨s, hs⟩
  unfold nonEmptyString
  cases value with
  | str t =>
    by_cases ht : t = ""
    . have hne : t ≠ s := by
        rw [ht]
        exact hs.symm
      simp [Json.asStr, ht, hs.symm]
    . simp [Json.asStr, ht]
  | _ => simp [Json.asStr]

def stringOrNull (s : Option String) : Json F :=
  (s.map .str).getD .null

theorem stringOrNone_eq_ok {name : String} {value : Json F} {s : Option String}
    : stringOrNone name value = .ok s ↔ value = stringOrNull s := by
  cases value <;> cases s <;> simp [stringOrNone, stringOrNull, eq_comm]

def WtpEnvelope.fields (e : WtpEnvelope F) : Fields F where
  verb := e.verb
  workspaceId := .str e.workspaceId.val
  taskId := .str e.taskId.val
  attemptId := .str e.attemptId.val
  payload := e.payload
  correlationId := .str e.correlationId.val
  rootGoalTaskId := stringOrNull e.rootGoalTaskId
  parentMessageId := e.parentMessageId
  extraMetadata := e.extraMetadata

theorem validate_eq_ok {fields : Fields F} : fields.validate = .ok e ↔ fields = e.fields := by
  unfold Fields.validate
  simp only [bind_eq_ok, nonEmptyString_eq_ok, stringOrNone_eq_ok]
  constructor
  . intro h
    rcases h with ⟨workspaceId, hworkspace, taskId, htask, attemptId, hattempt, correlationId,
      hcorrelation, rootGoalTaskId, hroot, h⟩
    split at h
    . cases h
    . cases h
      rcases fields with ⟨verb, _, _, _, payload, _, _, parentMessageId, extraMetadata⟩
      dsimp only at hworkspace htask hattempt hcorrelation hroot
      subst hworkspace htask hattempt hcorrelation hroot
      rfl
  . rintro rfl
    refine ⟨_, rfl, _, rfl, _, rfl, _, rfl, _, rfl, ?_⟩
    split
    . next error h => exact absurd h (by simp [WtpEnvelope.fields, e.payload_ok])
    . rfl

end Validate

section RoundTrip

variable {e : WtpEnvelope F}

def WtpEnvelope.reserved (e : WtpEnvelope F) : List (String × Json F) :=
  [
    ("wtp_version", .str wtpVersion),
    ("wtp_verb", .str e.verb.value),
    ("workspace_id", .str e.workspaceId.val),
    ("task_id", .str e.taskId.val),
    ("attempt_id", .str e.attemptId.val),
    ("correlation_id", .str e.correlationId.val)
  ] ++ e.rootMetadata

theorem toMetadata_eq (e : WtpEnvelope F) : e.toMetadata = e.extraMetadata.setAll e.reserved := by
  unfold WtpEnvelope.toMetadata WtpEnvelope.reserved Dict.setAll
  rw [List.foldl_append]

theorem mem_reservedKeys_of_mem_reserved : ∀ entry ∈ e.reserved, entry.1 ∈ WtpEnvelope.reservedKeys := by
  intro entry hentry
  unfold WtpEnvelope.reserved WtpEnvelope.rootMetadata at hentry
  cases hroot : e.rootGoalTaskId with
  | none =>
    simp only [hroot, List.append_nil] at hentry
    revert entry
    simp [WtpEnvelope.reservedKeys]
  | some id =>
    simp only [hroot] at hentry
    revert entry
    simp [WtpEnvelope.reservedKeys]

theorem nodup_reserved : (e.reserved.map Prod.fst).Nodup := by
  unfold WtpEnvelope.reserved WtpEnvelope.rootMetadata
  cases e.rootGoalTaskId with
  | none => simp
  | some id => simp

def NoReserved (extraMetadata : Dict String (Json F)) : Prop :=
  ∀ key ∈ extraMetadata.keys, key ∉ WtpEnvelope.reservedKeys

theorem entries_toMetadata (h : NoReserved e.extraMetadata)
    : e.toMetadata.entries = e.extraMetadata.entries ++ e.reserved := by
  rw [toMetadata_eq, Dict.entries_setAll _ nodup_reserved]
  intro entry hentry hkey
  apply h _ hkey (mem_reservedKeys_of_mem_reserved entry hentry)

theorem eraseAll_toMetadata (h : NoReserved e.extraMetadata)
    : e.toMetadata.eraseAll WtpEnvelope.reservedKeys = e.extraMetadata := by
  apply Dict.ext_entries
  rw [Dict.entries_eraseAll, entries_toMetadata h, List.filter_append]
  have hextra : e.extraMetadata.entries.filter (·.1 ∉ WtpEnvelope.reservedKeys) = e.extraMetadata.entries := by
    rw [List.filter_eq_self]
    intro entry hentry
    simp only [decide_eq_true_eq]
    apply h
    apply List.mem_map_of_mem hentry
  have hreserved : e.reserved.filter (·.1 ∉ WtpEnvelope.reservedKeys) = [] := by
    rw [List.filter_eq_nil_iff]
    intro entry hentry
    simp only [decide_eq_true_eq, not_not]
    apply mem_reservedKeys_of_mem_reserved entry hentry
  rw [hextra, hreserved, List.append_nil]

theorem get_toMetadata (e : WtpEnvelope F) (key : String)
    : e.toMetadata.get key
        =
      if key = "root_goal_task_id" then (e.rootGoalTaskId.map .str).or (e.extraMetadata.get key)
      else if key = "correlation_id" then some (.str e.correlationId.val)
      else if key = "attempt_id" then some (.str e.attemptId.val)
      else if key = "task_id" then some (.str e.taskId.val)
      else if key = "workspace_id" then some (.str e.workspaceId.val)
      else if key = "wtp_verb" then some (.str e.verb.value)
      else if key = "wtp_version" then some (.str wtpVersion)
      else e.extraMetadata.get key := by
  unfold WtpEnvelope.toMetadata WtpEnvelope.rootMetadata Dict.setAll
  cases e.rootGoalTaskId with
  | none =>
    simp only [List.foldl_cons, List.foldl_nil, Dict.get_set]
    by_cases h : key = "root_goal_task_id"
    . simp [h]
    . simp [h]
  | some id =>
    simp only [List.foldl_cons, List.foldl_nil, Dict.get_set]
    by_cases h : key = "root_goal_task_id"
    . simp [h]
    . simp [h]

theorem verbOf_value (verb : WtpVerb) : verbOf (F := F) (.str verb.value) = .ok verb := by
  unfold verbOf
  rw [Json.asStr, Option.bind_some, WtpVerb.ofValue_value]

theorem verbOf_eq_ok {value : Json F} {verb : WtpVerb} (h : verbOf value = .ok verb)
    : value = .str verb.value := by
  unfold verbOf at h
  cases value with
  | str s =>
    rw [Json.asStr, Option.bind_some] at h
    split at h
    . next heq =>
      cases h
      rw [WtpVerb.value_of_ofValue heq]
    . cases h
  | _ => cases h

section Decode

variable [PyFloat F]

theorem truthy_str {s : String} (h : s ≠ "") : Json.truthy (F := F) (.str s) := by
  unfold Json.truthy
  simpa using h

theorem orDefault_some {s : String} (h : s ≠ "") (default : String)
    : orDefault (F := F) (some (.str s)) default = .str s := by
  unfold orDefault
  rw [Option.filter_some, if_pos (truthy_str h), Option.getD_some]

theorem eq_some_of_orDefault {value : Option (Json F)} {s default : String}
    (h : orDefault value default = .str s) (hne : s ≠ default)
    : value = some (.str s) := by
  unfold orDefault at h
  cases hfilter : value.filter Json.truthy with
  | none =>
    rw [hfilter, Option.getD_none, Json.str.injEq] at h
    exact absurd h.symm hne
  | some v =>
    rw [hfilter, Option.getD_some] at h
    rw [Option.filter_eq_some_iff, h] at hfilter
    exact hfilter.1

theorem decodeContent_toContent (e : WtpEnvelope F)
    : WtpEnvelope.decodeContent e.toContent = .ok e.payload := by
  have hloads : Json.loads e.toContent = some (.dict e.payload.entries) := by
    unfold WtpEnvelope.toContent
    rw [Json.loads_dumps, e.payload.sorted]
  have hne : e.toContent ≠ "" := by
    intro hempty
    rw [hempty] at hloads
    cases hloads
  unfold WtpEnvelope.decodeContent
  rw [if_neg hne, hloads]
  dsimp only
  rw [JsonObject.ofEntries_entries]

theorem fromMessage_toMessage (e : WtpEnvelope F) (newId : String) (h : NoReserved e.extraMetadata)
    : WtpEnvelope.fromMessage newId {
          content := e.toContent
          metadata := some e.toMetadata
          parentMessageId := e.parentMessageId }
        =
      .ok e := by
  have hroot : e.extraMetadata.get "root_goal_task_id" = none := by
    rw [Dict.get_eq_none]
    intro hmem
    exact h _ hmem (by decide)
  unfold WtpEnvelope.fromMessage
  simp only [Option.getD_some, get_toMetadata, bind_eq_ok, ensure_eq_ok, exists_const,
    decodeContent_toContent, eraseAll_toMetadata h, validate_eq_ok, Except.ok.injEq, exists_eq_left']
  refine ⟨truthy_str e.verb.value_ne_empty, e.verb, verbOf_value e.verb, ?_⟩
  simp only [WtpEnvelope.fields, Fields.mk.injEq, true_and]
  simp [orDefault_some, e.workspaceId.property, e.taskId.property, e.attemptId.property,
    e.correlationId.property, hroot, stringOrNull]

theorem fromDict_toDict (e : WtpEnvelope F) (newId : String)
    : WtpEnvelope.fromDict newId e.toDict = .ok e := by
  have hget : ∀ key, e.toDict.get key = Dict.get (Dict.empty.setAll [
      ("verb", .str e.verb.value),
      ("workspace_id", .str e.workspaceId.val),
      ("task_id", .str e.taskId.val),
      ("attempt_id", .str e.attemptId.val),
      ("correlation_id", .str e.correlationId.val),
      ("root_goal_task_id", stringOrNull e.rootGoalTaskId),
      ("parent_message_id", e.parentMessageId),
      ("payload", .dict e.payload.entries),
      ("extra_metadata", .dict e.extraMetadata.entries)
    ]) key := fun _ => rfl
  have hmapping : ∀ (key : String) (entries : List (String × Json F)),
      mapping key (some (.dict entries)) = .ok entries := by
    intro key entries
    unfold mapping
    rw [Option.filter_some]
    cases entries with
    | nil => rfl
    | cons entry entries => rfl
  unfold WtpEnvelope.fromDict field
  simp only [hget, Dict.setAll, List.foldl_cons, List.foldl_nil, Dict.get_set]
  simp [hmapping, verbOf_value, validate_eq_ok, orDefault_some e.correlationId.property,
    WtpEnvelope.fields, JsonObject.ofEntries_entries]
  apply Dict.setAll_entries

theorem reencode {message : AgentMessage F} {e : WtpEnvelope F} {newId : String}
    (h : WtpEnvelope.fromMessage newId message = .ok e)
    (hversion : (message.metadata.getD .empty).get "wtp_version" = some (.str "1"))
    (hcorrelation : ∃ id, id ≠ "" ∧
      (message.metadata.getD .empty).get "correlation_id" = some (.str id))
    : (∀ key, e.toMetadata.get key
          =
        ((message.metadata.getD .empty).get key).filter fun value =>
          key ≠ "root_goal_task_id" ∨ !value.isNull) ∧
      WtpEnvelope.decodeContent e.toContent = WtpEnvelope.decodeContent (F := F) message.content := by
  unfold WtpEnvelope.fromMessage at h
  simp only [bind_eq_ok, ensure_eq_ok, exists_const, validate_eq_ok] at h
  generalize message.metadata.getD .empty = metadata at *
  rcases h with ⟨htruthy, verb, hverb, payload, hpayload, hfields⟩
  simp only [WtpEnvelope.fields, Fields.mk.injEq] at hfields
  rcases hfields with ⟨rfl, hworkspace, htask, hattempt, rfl, hcorrelationId, hroot, _, hextra⟩
  have hverbStr : metadata.get "wtp_verb" = some (.str e.verb.value) := by
    have hvalue := verbOf_eq_ok hverb
    cases hget : metadata.get "wtp_verb" with
    | none =>
      rw [hget, Option.getD_none] at hvalue
      cases hvalue
    | some v =>
      rw [hget, Option.getD_some] at hvalue
      rw [hvalue]
  have hcorrelationStr : metadata.get "correlation_id" = some (.str e.correlationId.val) := by
    rcases hcorrelation with ⟨id, hne, hget⟩
    rw [hget, orDefault_some hne] at hcorrelationId
    rw [hget, hcorrelationId]
  refine ⟨?_, by rw [decodeContent_toContent, hpayload]⟩
  intro key
  rw [get_toMetadata, ← hextra, Dict.get_eraseAll]
  by_cases hkey : key = "root_goal_task_id"
  . subst hkey
    rw [if_pos rfl, if_pos (by decide), Option.or_none]
    cases hget : metadata.get "root_goal_task_id" with
    | none =>
      rw [hget, Option.getD_none] at hroot
      cases hid : e.rootGoalTaskId with
      | none => rfl
      | some id => simp [hid, stringOrNull] at hroot
    | some value =>
      rw [hget, Option.getD_some] at hroot
      rw [hroot]
      cases hid : e.rootGoalTaskId with
      | none => rfl
      | some id => rfl
  . rw [if_neg hkey]
    have hfilter : (metadata.get key).filter (fun value => key ≠ "root_goal_task_id" ∨ !value.isNull)
        = metadata.get key := by
      cases metadata.get key with
      | none => rfl
      | some value => simp [hkey]
    rw [hfilter]
    simp only [WtpEnvelope.reservedKeys, List.mem_cons, List.not_mem_nil, or_false, hkey, or_false]
    have hworkspaceStr := eq_some_of_orDefault hworkspace e.workspaceId.property
    have htaskStr := eq_some_of_orDefault htask e.taskId.property
    have hattemptStr := eq_some_of_orDefault hattempt e.attemptId.property
    clear hfilter hworkspace htask hattempt hcorrelationId hroot hextra hpayload hverb hcorrelation htruthy
    split_ifs <;> simp_all [wtpVersion]

end Decode

section Claim

variable (F) [PyFloat F]

theorem wtp_round_trips
    : (∀ (e : WtpEnvelope F) (newId : String), NoReserved e.extraMetadata →
        WtpEnvelope.fromMessage newId {
            content := e.toContent
            metadata := some e.toMetadata
            parentMessageId := e.parentMessageId }
          =
        .ok e) ∧
      (∀ (e : WtpEnvelope F) (newId : String), WtpEnvelope.fromDict newId e.toDict = .ok e) ∧
      ∀ (message : AgentMessage F) (e : WtpEnvelope F) (newId : String),
        WtpEnvelope.fromMessage newId message = .ok e →
        (message.metadata.getD .empty).get "wtp_version" = some (.str "1") →
        (∃ id, id ≠ "" ∧ (message.metadata.getD .empty).get "correlation_id" = some (.str id)) →
        (∀ key, e.toMetadata.get key
            =
          ((message.metadata.getD .empty).get key).filter fun value =>
            key ≠ "root_goal_task_id" ∨ !value.isNull) ∧
        WtpEnvelope.decodeContent e.toContent = WtpEnvelope.decodeContent (F := F) message.content := by
  refine ⟨?_, fromDict_toDict, ?_⟩
  . intro e newId h
    apply fromMessage_toMessage e newId h
  . intro message e newId h hversion hcorrelation
    apply reencode h hversion hcorrelation

end Claim

section Example

def progressMetadata : Dict String (Json Nat) :=
  Dict.empty.setAll [
    ("wtp_version", .str "1"),
    ("wtp_verb", .str "task.progress"),
    ("workspace_id", .str "ws"),
    ("task_id", .str "task"),
    ("attempt_id", .str "attempt"),
    ("correlation_id", .str "request"),
    ("root_goal_task_id", .null),
    ("channel", .str "review")
  ]

def progress : WtpEnvelope Nat where
  verb := .taskProgress
  workspaceId := ⟨"ws", by decide⟩
  taskId := ⟨"task", by decide⟩
  attemptId := ⟨"attempt", by decide⟩
  correlationId := ⟨"request", by decide⟩
  payload := .ofEntries [("summary", .str "half"), ("files", .list [.str "a.py", .str "b.py"])]
  parentMessageId := .str "assignment"
  extraMetadata := Dict.empty.set "channel" (.str "review")
  payload_ok := by decide +kernel

def progressMessage : AgentMessage Nat where
  content := progress.toContent
  metadata := some progressMetadata
  parentMessageId := .str "assignment"

theorem fromMessage_progress : WtpEnvelope.fromMessage "new" progressMessage = .ok progress := by
  unfold WtpEnvelope.fromMessage progressMessage
  simp only [decodeContent_toContent]
  rfl

theorem null_root_goal_not_written_back
    : ∃ e, WtpEnvelope.fromMessage "new" progressMessage = .ok e ∧
        progressMetadata.get "root_goal_task_id" = some .null ∧
        e.toMetadata.get "root_goal_task_id" = none := by
  exact ⟨progress, fromMessage_progress, rfl, rfl⟩

theorem wtp_round_trips_progress
    : WtpEnvelope.fromMessage "new" {
          content := progress.toContent
          metadata := some progress.toMetadata
          parentMessageId := progress.parentMessageId }
        = .ok progress ∧
      WtpEnvelope.fromDict "new" progress.toDict = .ok progress ∧
      progress.toMetadata.get "channel" = some (.str "review") := by
  have hclaim := wtp_round_trips Nat
  have hreencode := hclaim.2.2 progressMessage progress "new" fromMessage_progress rfl ⟨"request", by decide, rfl⟩
  refine ⟨hclaim.1 progress "new" ?_, hclaim.2.1 progress "new", ?_⟩
  . unfold NoReserved
    decide +kernel
  . rw [hreencode.1]
    rfl

end Example

end RoundTrip

end Workspace
end MemStack
