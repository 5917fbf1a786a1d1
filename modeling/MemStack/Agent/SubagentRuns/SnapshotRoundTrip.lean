import MemStack.Agent.SubagentRuns.Lineage
import MemStack.Agent.SubagentRuns.Snapshot

/-!
This module contains what is read back of a snapshot, and on which payloads the two decoders agree.
-/

namespace MemStack
namespace Agent
namespace SubagentRuns

open Machine

variable {F : Type}

namespace SubAgentRunStatus

theorem ofValue_value (status : SubAgentRunStatus) : ofValue status.value = some status := by
  cases status <;> rfl

end SubAgentRunStatus

namespace AnnounceState

theorem ofValue_value (state : AnnounceState) : ofValue state.value = some state := by
  cases state <;> rfl

theorem value_ne_empty (state : AnnounceState) : state.value ≠ "" := by
  cases state <;> decide

end AnnounceState

section Fields

variable [PyDatetime] [PyConversions F]

namespace RunRepository

omit [PyConversions F] in
theorem parseDatetime_str (time : Int)
    : parseDatetime (F := F) (.str (PyDatetime.isoformat time)) = .ok (some time) := by
  unfold parseDatetime
  dsimp only
  rw [PyDatetime.isoformat_not_blank, if_neg Bool.false_ne_true, PyDatetime.fromisoformat_isoformat]

omit [PyConversions F] in
theorem parseDatetime_timeValue (time : Option Int)
    : parseDatetime (F := F) (SubAgentRun.timeValue time) = .ok time := by
  cases time with
  | none => rfl
  | some time => exact parseDatetime_str time

omit [PyDatetime] in
theorem optionalStr_textValue (text : Option String)
    : optionalStr (F := F) (SubAgentRun.textValue text) = text.filter (· ≠ "") := by
  cases text with
  | none => rfl
  | some s =>
    rw [Option.filter_some]
    show (if s = "" then none else some s) = _
    by_cases h : s = ""
    . rw [if_pos h, if_neg (by simp [h])]
    . rw [if_neg h, if_pos (by simp [h])]

omit [PyDatetime] in
theorem optionalInt_intValue (n : Option Int) : optionalInt (F := F) (SubAgentRun.intValue n) = .ok n := by
  cases n <;> rfl

omit [PyDatetime] in
theorem parseAnnounceState_value (state : Option AnnounceState)
    : parseAnnounceState (F := F) (SubAgentRun.textValue (state.map AnnounceState.value)) = state := by
  unfold parseAnnounceState
  rw [optionalStr_textValue]
  cases state with
  | none => rfl
  | some state =>
    rw [Option.map_some, Option.filter_some, if_pos (by simp [state.value_ne_empty]), Option.bind_some]
    exact state.ofValue_value

end RunRepository

omit [PyDatetime] in
theorem textOr_str (s : String) : textOr (F := F) (.str s) = s := by
  unfold textOr Json.truthy
  by_cases h : s = ""
  . rw [h]
    rfl
  . rw [if_pos (by simpa using h)]
    rfl

omit [PyDatetime] [PyConversions F] in
theorem create_of_named {runId conversationId subagentName task : String}
    (h : isBlank runId = false ∧ isBlank conversationId = false ∧ isBlank subagentName = false ∧ isBlank task = false)
    (metadata : Dict String (Json F)) (now : Int)
    : SubAgentRun.create runId conversationId subagentName task metadata now
        = .ok { conversationId, subagentName, task, runId, metadata, createdAt := now, named := h } := by
  unfold SubAgentRun.create
  obtain ⟨hrun, hconversation, hname, htask⟩ := h
  rw [dif_neg (by simp [hrun]), dif_neg (by simp [hconversation]), dif_neg (by simp [hname]), dif_neg (by simp [htask])]

theorem RunRepository.deserializeRun_toEventData (now : Int) (run : SubAgentRun F)
    : deserializeRun now (.dict run.toEventData) = some run.settled := by
  have hfield (key : String) (value : Json F) (h : Json.get run.toEventData key = some value)
      : field run.toEventData key = value := by
    unfold field
    rw [h, Option.getD_some]
  have hstatus : Json.get run.toEventData "status" = some (.str run.status.value) := rfl
  unfold deserializeRun
  dsimp only
  rw [hstatus, hfield "metadata" _ rfl, hfield "created_at" _ rfl, hfield "started_at" _ rfl,
    hfield "ended_at" _ rfl, hfield "execution_time_ms" _ rfl, hfield "tokens_used" _ rfl, hfield "frozen_at" _ rfl,
    hfield "run_id" _ rfl, hfield "conversation_id" _ rfl, hfield "subagent_name" _ rfl, hfield "task" _ rfl,
    hfield "summary" _ rfl, hfield "error" _ rfl, hfield "frozen_result_text" _ rfl, hfield "trace_id" _ rfl,
    hfield "parent_span_id" _ rfl, hfield "announce_state" _ rfl]
  rw [parseDatetime_str, parseDatetime_timeValue, parseDatetime_timeValue, parseDatetime_timeValue,
    optionalInt_intValue, optionalInt_intValue, textOr_str, textOr_str, textOr_str, textOr_str]
  simp only [Except.toOption, Option.bind_eq_bind, Option.bind_some, Option.getD_some, Dict.setAll_entries,
    create_of_named run.named, optionalStr_textValue, parseAnnounceState_value, pyStr, SubAgentRunStatus.ofValue_value]
  rfl

end Fields

def SubAgentRun.ProperMetadata (run : SubAgentRun F) : Prop :=
  ∀ key value, run.metadata.get key = some value → value.Proper

def Conversations.ProperMetadata (runs : Conversations F) : Prop :=
  ∀ conversationId runId run, runs.find conversationId runId = some run → run.ProperMetadata

section Written

variable [PyDatetime]

omit [PyDatetime] in
theorem proper_textValue (text : Option String) : (SubAgentRun.textValue (F := F) text).Proper := by
  cases text with
  | none => exact .null
  | some s => exact .str s

omit [PyDatetime] in
theorem proper_intValue (n : Option Int) : (SubAgentRun.intValue (F := F) n).Proper := by
  cases n with
  | none => exact .null
  | some n => exact .int n

theorem proper_timeValue (time : Option Int) : (SubAgentRun.timeValue (F := F) time).Proper := by
  cases time with
  | none => exact .null
  | some time => exact .str _

theorem proper_toEventData {run : SubAgentRun F} (h : run.ProperMetadata) : (Json.dict run.toEventData).Proper := by
  apply Json.Proper.dict
  . have hkeys : run.toEventData.map Prod.fst = ["run_id", "conversation_id", "subagent_name", "task", "status",
        "created_at", "started_at", "ended_at", "summary", "error", "execution_time_ms", "tokens_used", "metadata",
        "frozen_result_text", "frozen_at", "trace_id", "parent_span_id", "announce_state"] := rfl
    rw [hkeys]
    decide
  . unfold SubAgentRun.toEventData
    simp only [List.forall_mem_cons]
    refine ⟨.str _, .str _, .str _, .str _, .str _, .str _, proper_timeValue _, proper_timeValue _, proper_textValue _,
      proper_textValue _, proper_intValue _, proper_intValue _, Json.proper_dict _ h, proper_textValue _,
      proper_timeValue _, proper_textValue _, proper_textValue _, proper_textValue _, ?_⟩
    intro e he
    cases he

theorem proper_conversationsValue {runs : Conversations F} (h : runs.ProperMetadata)
    : (conversationsValue runs).Proper := by
  apply Json.proper_dict
  intro conversationId value hvalue
  rw [Dict.get_mapValues, Option.map_eq_some_iff] at hvalue
  obtain ⟨bucket, hbucket, rfl⟩ := hvalue
  apply Json.proper_dict
  intro runId value hvalue
  rw [Dict.get_mapValues, Option.map_eq_some_iff] at hvalue
  obtain ⟨run, hrun, rfl⟩ := hvalue
  apply proper_toEventData
  apply h conversationId runId
  unfold Conversations.find
  rw [hbucket, Option.bind_some, hrun]

end Written

namespace RunRepository

variable [PyDatetime] [PyConversions F]

theorem deserializeBucket_mapValues (now : Int) (bucket : Bucket F)
    : deserializeBucket now (bucket.mapValues fun run => Json.dict run.toEventData).entries
        = bucket.mapValues SubAgentRun.settled := by
  have hentries : (bucket.mapValues fun run => Json.dict run.toEventData).entries.filterMap
      (fun e => (deserializeRun now e.2).map fun run => (e.1, run))
        = (bucket.mapValues SubAgentRun.settled).entries := by
    unfold Dict.mapValues
    dsimp only
    rw [List.filterMap_map, ← List.filterMap_eq_map]
    apply List.filterMap_congr
    intro e _
    rw [Function.comp, deserializeRun_toEventData]
    rfl
  unfold deserializeBucket
  rw [hentries, Dict.setAll_entries]

omit [PyDatetime] [PyConversions F] in
theorem mem_emptied (runs : Conversations F) {e : String × Bucket F} (he : e ∈ runs.entries)
    : e.1 ∈ (runs.entries.filter (·.2.values.isEmpty)).map Prod.fst ↔ e.2.values.isEmpty = true := by
  rw [List.mem_map]
  constructor
  . rintro ⟨e', he', hkey⟩
    rw [List.mem_filter] at he'
    have hget := Dict.get_eq_some.mpr he'.1
    rw [hkey, Dict.get_eq_some.mpr he, Option.some.injEq] at hget
    rw [hget]
    exact he'.2
  . intro hempty
    exact ⟨e, List.mem_filter.mpr ⟨he, hempty⟩, rfl⟩

theorem loadedBucket_mapValues (now : Int) (conversationId : String) (bucket : Bucket F)
    : loadedBucket now (conversationId, .dict (bucket.mapValues fun run => Json.dict run.toEventData).entries)
        = if bucket.values.isEmpty then none else some (conversationId, bucket.mapValues SubAgentRun.settled) := by
  unfold loadedBucket
  dsimp only
  rw [deserializeBucket_mapValues]
  have hempty : (bucket.mapValues SubAgentRun.settled).values.isEmpty = bucket.values.isEmpty := by
    simp [Dict.values, Dict.mapValues]
  rw [hempty]

theorem deserializeBuckets_conversations (now : Int) (runs : Conversations F)
    : deserializeBuckets now
        (runs.mapValues fun bucket => Json.dict (bucket.mapValues fun run => Json.dict run.toEventData).entries).entries
        = runs.settled := by
  have hentries : (runs.mapValues fun bucket =>
        Json.dict (bucket.mapValues fun run => Json.dict run.toEventData).entries).entries.filterMap (loadedBucket now)
        = runs.settled.entries := by
    unfold Conversations.settled
    rw [Dict.entries_eraseAll]
    show (runs.entries.map _).filterMap _ = (runs.entries.map _).filter _
    rw [List.filterMap_map, List.filter_map, ← List.filterMap_eq_map, List.filterMap_filter]
    apply List.filterMap_congr
    intro e he
    have hkey := mem_emptied runs he
    rw [Function.comp, loadedBucket_mapValues]
    by_cases h : e.2.values.isEmpty = true
    . rw [if_pos h, if_neg]
      simp only [Function.comp, decide_eq_true_eq, not_not]
      exact hkey.mpr h
    . rw [if_neg h, if_pos]
      . rfl
      . simp only [Function.comp, decide_eq_true_eq]
        exact fun hmem => h (hkey.mp hmem)
  unfold deserializeBuckets
  rw [hentries, Dict.setAll_entries]

theorem loadsInOrder_serializeSnapshot {runs : Conversations F} (h : runs.ProperMetadata)
    : Json.loadsInOrder (serializeSnapshot runs)
        = some (.dict [("version", Json.int 1), ("conversations", conversationsValue runs)]) := by
  apply Json.loadsInOrder_dumps false
  apply Json.Proper.dict
  . have hkeys : ["version", "conversations"].Nodup := by decide
    exact hkeys
  . rw [List.forall_mem_cons, List.forall_mem_singleton]
    exact ⟨.int 1, proper_conversationsValue h⟩

theorem deserializeSnapshot_serializeSnapshot (now : Int) {runs : Conversations F} (h : runs.ProperMetadata)
    : deserializeSnapshot now (serializeSnapshot runs) = runs.settled := by
  unfold deserializeSnapshot
  rw [loadsInOrder_serializeSnapshot h]
  exact deserializeBuckets_conversations now runs

end RunRepository

def Operation.given : Operation F → Dict String (Json F)
  | .createRun _ _ _ metadata .. => metadata
  | operation => operation.metadata

def Operation.GivesProper (operation : Operation F) : Prop :=
  ∀ key value, operation.given.get key = some value → value.Proper

namespace SubAgentRun

variable {run updated : SubAgentRun F}

theorem properMetadata_settleRun (storage : Storage) (h : run.ProperMetadata)
    : (storage.settleRun run).ProperMetadata := by
  unfold ProperMetadata
  rw [Stored.settleRun_metadata]
  exact h

theorem properMetadata_of_makes {clock : Clock} {operation : Operation F} (h : run.ProperMetadata)
    (hgives : operation.GivesProper) (hmakes : operation.Makes clock run updated)
    : updated.ProperMetadata := by
  intro key value hvalue
  rw [Operation.get_metadata_of_makes hmakes, Option.or_eq_some_iff] at hvalue
  rcases hvalue with hgiven | ⟨-, hkept⟩
  . apply hgives key
    cases operation with
    | createRun => cases hmakes.2
    | _ => exact hgiven
  . exact h key value hkept

theorem proper_setText {metadata : Dict String (Json F)}
    (h : ∀ key value, metadata.get key = some value → value.Proper) (key' : String) (text : Option String)
    : ∀ key value, (setText key' text metadata).get key = some value → value.Proper := by
  intro key value hvalue
  unfold setText at hvalue
  split at hvalue
  . rw [Dict.get_set] at hvalue
    split at hvalue
    . cases hvalue
      exact .str _
    . exact h key value hvalue
  . exact h key value hvalue

theorem properMetadata_rooted [PyFloat F] (h : run.ProperMetadata) : run.rooted.ProperMetadata := by
  unfold rooted
  split
  . exact h
  . intro key value hvalue
    have hvalue : (run.metadata.set "lineage_root_run_id" (.str run.runId)).get key = some value := hvalue
    rw [Dict.get_set] at hvalue
    split at hvalue
    . cases hvalue
      exact .str _
    . exact h key value hvalue

theorem properMetadata_of_createRun [PyFloat F] {config : RegistryConfig} {clock : Clock} {runs : Conversations F}
    {conversationId subagentName task runId : String} {metadata : Dict String (Json F)}
    {requesterSessionKey parentRunId lineageRootRunId : Option String}
    (hgives : ∀ key value, metadata.get key = some value → value.Proper)
    (hreply : (createRun config clock runs conversationId subagentName task metadata runId requesterSessionKey
      parentRunId lineageRootRunId).reply = .ok (some updated))
    : updated.ProperMetadata := by
  unfold createRun at hreply
  split at hreply
  . cases hreply
  . next run hcreate =>
    cases hreply
    apply properMetadata_rooted
    unfold ProperMetadata
    rw [(create_eq_ok hcreate).2.2.2]
    apply proper_setText
    apply proper_setText
    apply proper_setText
    intro key value hvalue
    unfold stripProtectedMetadata at hvalue
    rw [Dict.get_eraseAll] at hvalue
    split at hvalue
    . cases hvalue
    . exact hgives key value hvalue

end SubAgentRun

namespace Stored

variable [PyFloat F] {config : RegistryConfig} {storage : Storage} {s : Stored F}

theorem properMetadata_step (hs : s.Sound storage) (h : s.runs.ProperMetadata) {request : Request F}
    (hgives : request.operation.GivesProper)
    : (step config storage s request).1.runs.ProperMetadata := by
  rcases step_cases config hs request with ⟨-, hsame, -⟩ | ⟨written, hreply, horigin, hwritten⟩
  . rw [hsame]
    exact h
  . have hproper : written.ProperMetadata := by
      rcases horigin with ⟨hcreation, -⟩ | ⟨run, -, hfind, hmakes⟩
      . unfold step at hreply
        dsimp only at hreply
        unfold Operation.GivesProper at hgives
        cases hoperation : request.operation with
        | createRun conversationId subagentName task metadata runId requester parent root =>
          rw [hoperation] at hreply hgives
          exact SubAgentRun.properMetadata_of_createRun hgives hreply
        | _ =>
          rw [hoperation] at hcreation
          cases hcreation
      . exact SubAgentRun.properMetadata_of_makes (h _ _ run hfind) hgives hmakes
    intro conversationId runId run' hrun'
    obtain ⟨run, hchanged, rfl⟩ := hwritten.kept _ _ run' hrun'
    apply SubAgentRun.properMetadata_settleRun
    rw [changedTo_eq_some] at hchanged
    rcases hchanged with ⟨rfl, -⟩ | ⟨-, hfind⟩
    . exact hproper
    . exact h _ _ run hfind

theorem properMetadata_final (config : RegistryConfig) (storage : Storage) {requests : List (Request F)}
    (hgives : ∀ request ∈ requests, request.operation.GivesProper)
    : (final (step config storage) empty requests).runs.ProperMetadata := by
  have hempty : (empty : Stored F).runs.ProperMetadata := by
    intro conversationId runId run hfind
    unfold empty Conversations.find at hfind
    rw [Dict.get_empty] at hfind
    cases hfind
  have hinv : (final (step config storage) empty requests).Sound storage ∧
      (final (step config storage) empty requests).runs.ProperMetadata := by
    apply inv_transcript (C := fun (_ : Stored F) (request : Request F) => request.operation.GivesProper)
      (I := fun _ (s : Stored F) => s.Sound storage ∧ s.runs.ProperMetadata) _ ⟨sound_empty storage, hempty⟩ requests
    . intro e he
      exact hgives e.request (request_mem_of_mem he)
    . intro _ s request hs hrequest
      exact ⟨sound_step config hs.1 request, properMetadata_step hs.1 hs.2 hrequest⟩
  exact hinv.2

end Stored

section Codecs

variable [PyDatetime] [PyConversions F]

theorem deserializeRun_eq (now : Int) (payload : Json F)
    : RunRegistry.deserializeRun now payload = RunRepository.deserializeRun now payload := by
  cases payload <;> rfl

theorem loadedBucket_eq (now : Int) (e : String × Json F)
    : RunRegistry.loadedBucket now e = RunRepository.loadedBucket now e := by
  obtain ⟨conversationId, payload⟩ := e
  cases payload with
  | dict runs =>
    unfold RunRegistry.loadedBucket RunRepository.loadedBucket RunRegistry.deserializeBucket
      RunRepository.deserializeBucket
    simp only [deserializeRun_eq]
  | _ => rfl

theorem deserializeConversations_eq (now : Int) (conversations : List (String × Json F))
    : RunRegistry.deserializeConversations now conversations = RunRepository.deserializeBuckets now conversations := by
  unfold RunRegistry.deserializeConversations RunRepository.deserializeBuckets
  rw [funext (loadedBucket_eq now)]

def Accepted (F : Type) [PyConversions F] (payload : String) : Prop :=
  ∃ (raw conversations : List (String × Json F)), Json.loadsInOrder payload = some (.dict raw) ∧
    equalsOne (field raw "version") = true ∧ (Json.get raw "conversations").getD (.dict []) = .dict conversations

theorem load_of_accepted (now : Int) (runs : Conversations F) {payload : String} (h : Accepted F payload)
    : RunRegistry.loadFromJsonFile now runs (some payload) = RunRepository.deserializeSnapshot now payload := by
  obtain ⟨raw, conversations, hraw, hversion, hconversations⟩ := h
  unfold RunRegistry.loadFromJsonFile RunRepository.deserializeSnapshot
  rw [Option.bind_some, hraw]
  dsimp only
  rw [if_pos hversion, if_pos hversion, hconversations]
  exact deserializeConversations_eq now conversations

theorem load_of_not_accepted (now : Int) (runs : Conversations F) {payload : String} (h : ¬Accepted F payload)
    : RunRegistry.loadFromJsonFile now runs (some payload) = runs ∧
        RunRepository.deserializeSnapshot (F := F) now payload = .empty := by
  unfold RunRegistry.loadFromJsonFile RunRepository.deserializeSnapshot
  rw [Option.bind_some]
  cases hraw : (Json.loadsInOrder payload : Option (Json F)) with
  | none => exact ⟨rfl, rfl⟩
  | some value =>
    cases value with
    | dict raw =>
      dsimp only
      by_cases hversion : equalsOne (field raw "version") = true
      . rw [if_pos hversion, if_pos hversion]
        cases hconversations : (Json.get raw "conversations").getD (.dict []) with
        | dict conversations => exact absurd ⟨raw, conversations, hraw, hversion, hconversations⟩ h
        | _ => exact ⟨rfl, rfl⟩
      . rw [if_neg hversion, if_neg hversion]
        exact ⟨rfl, rfl⟩
    | _ => exact ⟨rfl, rfl⟩

theorem accepted_serializeSnapshot {runs : Conversations F} (h : runs.ProperMetadata)
    : Accepted F (RunRepository.serializeSnapshot runs) :=
  ⟨_, _, RunRepository.loadsInOrder_serializeSnapshot h, rfl, rfl⟩

/--
The snapshot of a registry is read back without its empty texts and its empty conversations, and both decoders
read the same runs from every payload with a snapshot of the version.
-/
theorem snapshot_codecs (config : RegistryConfig) (storage : Storage) (now : Int)
    : (∀ requests : List (Request F), (∀ request ∈ requests, request.operation.GivesProper) →
        let runs := (final (Stored.step config storage) Stored.empty requests).runs
        RunRepository.deserializeSnapshot now (RunRepository.serializeSnapshot runs) = runs.settled) ∧
      (∀ runs current : Conversations F, runs.ProperMetadata →
        RunRepository.deserializeSnapshot now (RunRepository.serializeSnapshot runs) = runs.settled ∧
        RunRegistry.loadFromJsonFile now current (some (RunRegistry.persistLocked runs)) = runs.settled) ∧
      (∀ (current : Conversations F) (payload : String), Accepted F payload →
        RunRegistry.loadFromJsonFile now current (some payload) = RunRepository.deserializeSnapshot now payload) ∧
      (∀ (current : Conversations F) (payload : String), ¬Accepted F payload →
        RunRegistry.loadFromJsonFile now current (some payload) = current ∧
        RunRepository.deserializeSnapshot (F := F) now payload = .empty) ∧
      (∀ payload : String, RunRegistry.loadFromJsonFile (F := F) now .empty (some payload)
        = RunRepository.deserializeSnapshot now payload) := by
  refine ⟨?_, ?_, ?_, ?_, ?_⟩
  . intro requests hgives runs
    exact RunRepository.deserializeSnapshot_serializeSnapshot now (Stored.properMetadata_final config storage hgives)
  . intro runs current h
    have hread := RunRepository.deserializeSnapshot_serializeSnapshot now h
    refine ⟨hread, ?_⟩
    rw [← hread]
    exact load_of_accepted now current (accepted_serializeSnapshot h)
  . intro current payload h
    exact load_of_accepted now current h
  . intro current payload h
    exact load_of_not_accepted now current h
  . intro payload
    by_cases h : Accepted F payload
    . exact load_of_accepted now .empty h
    . obtain ⟨hregistry, hrepository⟩ := load_of_not_accepted now .empty h
      rw [hregistry, hrepository]

end Codecs

section Example

theorem not_isSpace_of_isNumberChar {c : Char} (h : JsonText.isNumberChar c = true) : ¬Text.isSpace c := by
  simp only [JsonText.isNumberChar, Bool.or_eq_true, decide_eq_true_eq] at h
  rcases h with ((((hdigit | rfl) | rfl) | rfl) | rfl) | rfl
  . simp only [Char.isDigit, Bool.and_eq_true, decide_eq_true_eq, UInt32.le_iff_toNat_le] at hdigit
    have hcode : c.toNat = c.val.toNat := rfl
    simp only [Text.isSpace, Text.isWhitespace, hcode, Bool.or_eq_true, Bool.and_eq_true, decide_eq_true_eq, beq_iff_eq]
    have hlow : 48 ≤ c.val.toNat := hdigit.1
    have hhigh : c.val.toNat ≤ 57 := hdigit.2
    omega
  all_goals decide

instance : PyDatetime where
  isoformat time := String.ofList (Json.intText time)
  fromisoformat text := (Json.intOf text.toList).elim (.error .valueError) .ok
  fromisoformat_isoformat time := by
    rw [String.toList_ofList, Json.intOf_intText]
    rfl
  isoformat_not_blank time := by
    unfold isBlank
    rw [Text.strip_eq_self (fun c hc => not_isSpace_of_isNumberChar (Json.isNumberChar_intText time c hc)),
      decide_eq_false_iff_not]
    intro hempty
    have hnil := congrArg String.toList hempty
    rw [String.toList_ofList] at hnil
    have hread := Json.intOf_intText time
    rw [hnil] at hread
    cases hread

instance : PyConversions Nat where
  repr := Json.dumps false false
  truncate n := .ok n
  intOfText text := (Json.intOf text.toList).elim (.error .valueError) .ok
  isOne n := n = 1

def kept : Conversations Nat :=
  Dict.empty.set "conversation" (Dict.empty.set "run"
    { conversationId := "conversation", subagentName := "coder", task := "build", runId := "run", createdAt := 0
      named := Stored.child.named })

/--
A registry with a run keeps it when the file is no snapshot, where a repository reads no runs.
-/
theorem malformed_payload_keeps_runs
    : ¬∀ (now : Int) (current : Conversations Nat) (payload : String),
        RunRegistry.loadFromJsonFile now current (some payload) = RunRepository.deserializeSnapshot now payload := by
  intro h
  have hkeys := congrArg Dict.keys (h 0 kept "")
  revert hkeys
  decide +kernel

end Example

end SubagentRuns
end Agent
end MemStack
