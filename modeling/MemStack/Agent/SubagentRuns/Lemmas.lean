import MemStack.Agent.SubagentRuns.Registry

/-!
This module contains what the operations of the registry do to its runs: what an eviction keeps, what an
operation makes of the run that it is about, and what is stored afterwards.
-/

namespace MemStack
namespace Agent
namespace SubagentRuns

open Checked

variable {F : Type}

def allowedNext : SubAgentRunStatus → List SubAgentRunStatus
  | .pending => [.running, .cancelled, .timedOut]
  | .running => [.completed, .failed, .cancelled, .timedOut]
  | _ => []

namespace RegistryConfig

variable {config : RegistryConfig} {now : Int} {bucket : Bucket F}

def Keyed (bucket : Bucket F) : Prop :=
  ∀ id run, bucket.get id = some run → run.runId = id

structure Evicted (config : RegistryConfig) (before after : Bucket F) : Prop where
  kept : ∀ id run, after.get id = some run → before.get id = some run
  active : ∀ id run, before.get id = some run → run.status.isActive = true → after.get id = some run
  size : after.values.length ≤ max config.maxRuns (after.values.countP (·.status.isActive))
  oldest : ∀ id run id' run', before.get id = some run → after.get id = none → after.get id' = some run' →
    run'.status.isActive = false → run.endTime ≤ run'.endTime

theorem evictOldest_eq (config : RegistryConfig) (bucket : Bucket F) (runs : List (SubAgentRun F))
    : ∃ removed rest, runs = removed ++ rest ∧
        config.evictOldest bucket runs = bucket.eraseAll (removed.map (·.runId)) ∧
        ((config.evictOldest bucket runs).values.length ≤ config.maxRuns ∨ rest = []) := by
  induction runs generalizing bucket with
  | nil => exact ⟨[], [], rfl, rfl, .inr rfl⟩
  | cons run runs ih =>
    rw [evictOldest]
    split
    . next hsize => exact ⟨[], run :: runs, rfl, rfl, .inl hsize⟩
    . obtain ⟨removed, rest, hruns, heq, hend⟩ := ih (bucket.erase run.runId)
      refine ⟨run :: removed, rest, ?_, ?_, hend⟩
      . rw [hruns]
        rfl
      . rw [heq]
        rfl

theorem mem_terminalRuns {run : SubAgentRun F}
    : run ∈ terminalRuns bucket ↔ run ∈ bucket.values ∧ run.status.isActive = false := by
  unfold terminalRuns
  rw [List.mem_insertionSort, List.mem_filter, Bool.not_eq_true']

theorem terminalRuns_sorted (bucket : Bucket F)
    : (terminalRuns bucket).Pairwise fun a b => a.endTime ≤ b.endTime := by
  have htotal : Std.Total fun a b : SubAgentRun F => a.endTime ≤ b.endTime :=
    ⟨fun a b => Int.le_total a.endTime b.endTime⟩
  have htrans : IsTrans (SubAgentRun F) fun a b => a.endTime ≤ b.endTime :=
    ⟨fun a b c => Int.le_trans⟩
  apply List.pairwise_insertionSort

theorem get_evictExpired (config : RegistryConfig) (now : Int) (hkeyed : Keyed bucket) (id : String)
    : (config.evictExpiredTerminalRuns now bucket).get id
        =
      (bucket.get id).filter fun run => config.retention ≤ 0 || !config.expired now run := by
  unfold evictExpiredTerminalRuns
  split
  . next hretention =>
    cases bucket.get id with
    | none => rfl
    | some run => simp [hretention, Option.filter_some]
  . next hretention =>
    rw [Dict.get_eraseAll]
    cases hget : bucket.get id with
    | none => simp
    | some run =>
      have hid : id ∈ (bucket.values.filter (config.expired now)).map (·.runId) ↔ config.expired now run = true := by
        rw [List.mem_map]
        constructor
        . rintro ⟨run', hrun', hid⟩
          rw [List.mem_filter, Dict.mem_values] at hrun'
          obtain ⟨⟨id', hget'⟩, hexpired⟩ := hrun'
          rw [hkeyed id' run' hget'] at hid
          rw [hid, hget, Option.some.injEq] at hget'
          rw [hget']
          exact hexpired
        . intro hexpired
          refine ⟨run, ?_, hkeyed id run hget⟩
          rw [List.mem_filter, Dict.mem_values]
          exact ⟨⟨id, hget⟩, hexpired⟩
      by_cases hexpired : config.expired now run = true
      . rw [if_pos (hid.mpr hexpired)]
        simp [hretention, hexpired, Option.filter_some]
      . rw [if_neg (fun h => hexpired (hid.mp h))]
        simp [hexpired, Option.filter_some]

theorem get_evictIfNeeded (config : RegistryConfig) (now : Int) (bucket : Bucket F)
    : ∃ removed rest, terminalRuns (config.evictExpiredTerminalRuns now bucket) = removed ++ rest ∧
        (∀ id, (config.evictIfNeeded now bucket).get id
          = if id ∈ removed.map (·.runId) then none
            else (config.evictExpiredTerminalRuns now bucket).get id) ∧
        ((config.evictIfNeeded now bucket).values.length ≤ config.maxRuns ∨ rest = []) := by
  unfold evictIfNeeded
  dsimp only
  split
  . next hsize => exact ⟨[], _, rfl, fun id => (if_neg List.not_mem_nil).symm, .inl hsize⟩
  . obtain ⟨removed, rest, hruns, heq, hend⟩ :=
      evictOldest_eq config (config.evictExpiredTerminalRuns now bucket)
        (terminalRuns (config.evictExpiredTerminalRuns now bucket))
    refine ⟨removed, rest, hruns, ?_, hend⟩
    intro id
    rw [heq, Dict.get_eraseAll]

theorem evicted_evictIfNeeded (config : RegistryConfig) (now : Int) (hkeyed : Keyed bucket)
    : Evicted config bucket (config.evictIfNeeded now bucket) := by
  obtain ⟨removed, rest, hruns, hget, hsize⟩ := get_evictIfNeeded config now bucket
  have hfresh := get_evictExpired config now hkeyed
  generalize hmid : config.evictExpiredTerminalRuns now bucket = mid at hruns hget hfresh
  have hmidKept : ∀ id run, mid.get id = some run → bucket.get id = some run := by
    intro id run h
    rw [hfresh, Option.filter_eq_some_iff] at h
    exact h.1
  have hremoved : ∀ run ∈ removed, run.status.isActive = false ∧ mid.get run.runId = some run := by
    intro run hrun
    have hmem : run ∈ terminalRuns mid := by
      rw [hruns]
      exact List.mem_append_left _ hrun
    rw [mem_terminalRuns, Dict.mem_values] at hmem
    obtain ⟨⟨id, hid⟩, hterminal⟩ := hmem
    rw [hkeyed id run (hmidKept id run hid)]
    exact ⟨hterminal, hid⟩
  have hkept : ∀ id run, (config.evictIfNeeded now bucket).get id = some run →
      id ∉ removed.map (·.runId) ∧ mid.get id = some run := by
    intro id run h
    rw [hget] at h
    split at h
    . cases h
    . next hid => exact ⟨hid, h⟩
  have hleft : ∀ id run, (config.evictIfNeeded now bucket).get id = some run → run.status.isActive = false →
      run ∈ rest := by
    intro id run h hterminal
    obtain ⟨hid, hmidGet⟩ := hkept id run h
    have hmem : run ∈ terminalRuns mid := mem_terminalRuns.mpr ⟨Dict.mem_values.mpr ⟨id, hmidGet⟩, hterminal⟩
    rw [hruns, List.mem_append] at hmem
    apply hmem.resolve_left
    intro hrun
    apply hid
    rw [← hkeyed id run (hmidKept id run hmidGet)]
    exact List.mem_map_of_mem hrun
  refine ⟨?_, ?_, ?_, ?_⟩
  . intro id run h
    exact hmidKept id run (hkept id run h).2
  . intro id run h hactive
    have hmidGet : mid.get id = some run := by
      rw [hfresh, h, Option.filter_some, if_pos]
      simp [expired, hactive]
    rw [hget, if_neg, hmidGet]
    intro hid
    obtain ⟨run', hrun', heq⟩ := List.mem_map.mp hid
    obtain ⟨hterminal, hget'⟩ := hremoved run' hrun'
    rw [heq, hmidGet, Option.some.injEq] at hget'
    rw [← hget', hactive] at hterminal
    cases hterminal
  . cases hsize with
    | inl hsize => exact Nat.le_trans hsize (Nat.le_max_left _ _)
    | inr hrest =>
      apply Nat.le_trans _ (Nat.le_max_right _ _)
      rw [List.countP_eq_length.mpr]
      intro run hrun
      obtain ⟨id, h⟩ := Dict.mem_values.mp hrun
      by_contra hterminal
      have := hleft id run h (by simpa using hterminal)
      rw [hrest] at this
      cases this
  . intro id run id' run' h hgone h' hterminal
    have hrest := hleft id' run' h' hterminal
    have hmidGet' := (hkept id' run' h').2
    cases hmidGet : mid.get id with
    | none =>
      rw [hfresh, h, Option.filter_some] at hmidGet
      rw [hfresh, Option.filter_eq_some_iff] at hmidGet'
      have hexpired : ¬config.retention ≤ 0 ∧ config.expired now run = true := by
        simpa using hmidGet
      have hfresh' : config.expired now run' = false := by
        simpa [hexpired.1] using hmidGet'.2
      have hend : run.endTime ≤ now - config.retention := by
        have := hexpired.2
        unfold expired at this
        rw [Bool.and_eq_true, decide_eq_true_eq] at this
        exact this.2
      have hend' : ¬run'.endTime ≤ now - config.retention := by
        unfold expired at hfresh'
        simpa [hterminal] using hfresh'
      omega
    | some found =>
      have hfound : found = run := by
        have := hmidKept id found hmidGet
        rw [h, Option.some.injEq] at this
        exact this.symm
      rw [hget, hmidGet] at hgone
      have hid : id ∈ removed.map (·.runId) := by
        by_contra hid
        rw [if_neg hid] at hgone
        cases hgone
      obtain ⟨run₀, hrun₀, heq⟩ := List.mem_map.mp hid
      have hsame := (hremoved run₀ hrun₀).2
      rw [heq, hmidGet, Option.some.injEq, hfound] at hsame
      rw [hsame]
      have hsorted := terminalRuns_sorted mid
      rw [hruns, List.pairwise_append] at hsorted
      exact hsorted.2.2 run₀ hrun₀ run' hrest

end RegistryConfig

structure Successor (run updated : SubAgentRun F) : Prop where
  runId : updated.runId = run.runId
  conversationId : updated.conversationId = run.conversationId
  status : updated.status = run.status ∨ updated.status ∈ allowedNext run.status
  terminal : run.status.isActive = false → updated.endedAt = run.endedAt ∧ updated.summary = run.summary ∧
    updated.error = run.error
  ended : (run.status.isActive = false → run.endedAt.isSome = true) → updated.status.isActive = false →
    updated.endedAt.isSome = true

namespace Operation

def target : Operation F → Option (String × String)
  | .createRun .. => none
  | .markRunning conversationId runId _ _ => some (conversationId, runId)
  | .markCompleted conversationId runId _ _ _ _ _ => some (conversationId, runId)
  | .markFailed conversationId runId _ _ _ _ => some (conversationId, runId)
  | .markCancelled conversationId runId _ _ _ => some (conversationId, runId)
  | .markTimedOut conversationId runId _ _ _ => some (conversationId, runId)
  | .attachMetadata conversationId runId _ _ => some (conversationId, runId)
  | .setTraceContext conversationId runId _ _ _ => some (conversationId, runId)

def creation : Operation F → Option (String × String)
  | .createRun conversationId _ _ _ runId _ _ _ => some (conversationId, runId)
  | _ => none

def expectedStatuses : Operation F → List SubAgentRunStatus
  | .createRun .. => []
  | .markRunning _ _ _ expectedStatuses => expectedStatuses
  | .markCompleted _ _ _ _ _ _ expectedStatuses => expectedStatuses
  | .markFailed _ _ _ _ _ expectedStatuses => expectedStatuses
  | .markCancelled _ _ _ _ expectedStatuses => expectedStatuses
  | .markTimedOut _ _ _ _ expectedStatuses => expectedStatuses
  | .attachMetadata _ _ _ expectedStatuses => expectedStatuses
  | .setTraceContext _ _ _ _ expectedStatuses => expectedStatuses

def mutator (clock : Clock) (run : SubAgentRun F) : Operation F → Except String (SubAgentRun F)
  | .createRun .. => .error ""
  | .markRunning _ _ metadata _ => (run.start clock.now).map (·.withMetadata metadata)
  | .markCompleted _ _ summary tokensUsed executionTimeMs metadata _ =>
    (run.complete summary tokensUsed executionTimeMs clock.now).map (·.withMetadata metadata)
  | .markFailed _ _ error executionTimeMs metadata _ =>
    (run.fail error executionTimeMs clock.now).map (·.withMetadata metadata)
  | .markCancelled _ _ reason metadata _ => (run.cancel reason clock.now).map (·.withMetadata metadata)
  | .markTimedOut _ _ reason metadata _ => (run.timeOut reason clock.now).map (·.withMetadata metadata)
  | .attachMetadata _ _ metadata _ => do
    ensureNoProtectedMetadataUpdates metadata
    return run.withMetadata metadata
  | .setTraceContext _ _ traceId parentSpanId _ => run.withTraceContext traceId parentSpanId

def Makes (clock : Clock) (operation : Operation F) (run updated : SubAgentRun F) : Prop :=
  (operation.expectedStatuses ≠ [] → run.status ∈ operation.expectedStatuses) ∧
    operation.mutator clock run = .ok updated

section

variable {config : RegistryConfig} {clock : Clock} {runs : Conversations F} {conversationId runId : String}

theorem mutateRun_cases (config : RegistryConfig) (clock : Clock) (runs : Conversations F)
    (conversationId runId : String) (expectedStatuses : List SubAgentRunStatus)
    (mutator : SubAgentRun F → Except String (SubAgentRun F))
    : (mutateRun config clock runs conversationId runId expectedStatuses mutator = ⟨.ok none, none⟩ ∧
          ∀ run, runs.find conversationId runId = some run →
            (expectedStatuses ≠ [] → run.status ∈ expectedStatuses) → ∀ updated, mutator run ≠ .ok updated) ∨
        ∃ run updated, runs.find conversationId runId = some run ∧
          (expectedStatuses ≠ [] → run.status ∈ expectedStatuses) ∧ mutator run = .ok updated ∧
          mutateRun config clock runs conversationId runId expectedStatuses mutator
            = ⟨.ok (some updated), some (config.upsertLocked clock.evicts runs updated)⟩ := by
  unfold mutateRun
  cases hfind : runs.find conversationId runId with
  | none =>
    left
    refine ⟨rfl, ?_⟩
    intro run hrun
    cases hrun
  | some run =>
    dsimp only
    split
    . next hunexpected =>
      left
      refine ⟨rfl, ?_⟩
      intro run' hrun' hexpected
      rw [Option.some.injEq] at hrun'
      rw [← hrun'] at hexpected
      exact absurd (hexpected hunexpected.1) hunexpected.2
    . next hexpected =>
      have haccepted : expectedStatuses ≠ [] → run.status ∈ expectedStatuses := by
        intro hne
        by_contra hnot
        exact hexpected ⟨hne, hnot⟩
      cases hmutator : mutator run with
      | error e =>
        left
        refine ⟨rfl, ?_⟩
        intro run' hrun' _ updated hupdated
        rw [Option.some.injEq] at hrun'
        rw [← hrun', hmutator] at hupdated
        cases hupdated
      | ok updated => exact .inr ⟨run, updated, rfl, haccepted, hmutator, rfl⟩

variable [PyFloat F]

def Refused (config : RegistryConfig) (clock : Clock) (runs : Conversations F) (operation : Operation F)
    (conversationId runId : String) : Prop :=
  ∃ reply, (∀ run, reply ≠ .ok (some run)) ∧ operation.run config clock runs = ⟨reply, none⟩ ∧
    ∀ run, runs.find conversationId runId = some run → ∀ updated, ¬operation.Makes clock run updated

def Changes (config : RegistryConfig) (clock : Clock) (runs : Conversations F) (operation : Operation F)
    (conversationId runId : String) : Prop :=
  ∃ run updated, runs.find conversationId runId = some run ∧ operation.Makes clock run updated ∧
    operation.run config clock runs
      = ⟨.ok (some updated), some (config.upsertLocked clock.evicts runs updated)⟩

theorem cases_of_mutateRun {operation : Operation F} {expectedStatuses : List SubAgentRunStatus}
    {mutator : SubAgentRun F → Except String (SubAgentRun F)}
    (hexpected : operation.expectedStatuses = expectedStatuses)
    (hmutator : ∀ run, operation.mutator clock run = mutator run)
    (hrun : operation.run config clock runs
      = mutateRun config clock runs conversationId runId expectedStatuses mutator)
    : Refused config clock runs operation conversationId runId ∨
        Changes config clock runs operation conversationId runId := by
  rcases mutateRun_cases config clock runs conversationId runId expectedStatuses mutator with
    ⟨heq, hrefused⟩ | ⟨run, updated, hfind, haccepted, hok, heq⟩
  . left
    refine ⟨.ok none, ?_, hrun.trans heq, ?_⟩
    . intro run h
      cases h
    . rintro run hfind updated ⟨haccepted, hok⟩
      rw [hexpected] at haccepted
      rw [hmutator] at hok
      exact hrefused run hfind haccepted updated hok
  . right
    refine ⟨run, updated, hfind, ⟨?_, ?_⟩, hrun.trans heq⟩
    . rw [hexpected]
      exact haccepted
    . rw [hmutator]
      exact hok

theorem attachMetadata_cases (config : RegistryConfig) (clock : Clock) (runs : Conversations F)
    (conversationId runId : String) (metadata : Dict String (Json F)) (expectedStatuses : List SubAgentRunStatus)
    : Refused config clock runs (.attachMetadata conversationId runId metadata expectedStatuses) conversationId runId ∨
        Changes config clock runs (.attachMetadata conversationId runId metadata expectedStatuses) conversationId
          runId := by
  cases hprotected : ensureNoProtectedMetadataUpdates metadata with
  | error e =>
    left
    refine ⟨.error e, ?_, ?_, ?_⟩
    . intro run h
      cases h
    . show SubagentRuns.attachMetadata config clock runs conversationId runId metadata expectedStatuses = _
      unfold SubagentRuns.attachMetadata
      rw [hprotected]
    . rintro run - updated ⟨-, hok⟩
      dsimp only [mutator] at hok
      rw [hprotected] at hok
      cases hok
  | ok u =>
    have hmutator : ∀ run : SubAgentRun F, mutator clock run
        (.attachMetadata conversationId runId metadata expectedStatuses) = .ok (run.withMetadata metadata) := by
      intro run
      dsimp only [mutator]
      rw [hprotected]
      rfl
    apply cases_of_mutateRun rfl hmutator
    show SubagentRuns.attachMetadata config clock runs conversationId runId metadata expectedStatuses = _
    unfold SubagentRuns.attachMetadata
    rw [hprotected]
    rfl

theorem run_of_target (config : RegistryConfig) (clock : Clock) (runs : Conversations F)
    {operation : Operation F} (htarget : operation.target = some (conversationId, runId))
    : Refused config clock runs operation conversationId runId ∨
        Changes config clock runs operation conversationId runId := by
  cases operation with
  | createRun => cases htarget
  | attachMetadata conversationId' runId' metadata expectedStatuses =>
    cases htarget
    apply attachMetadata_cases
  | _ =>
    cases htarget
    apply cases_of_mutateRun
    . rfl
    . intro run
      rfl
    . rfl

end

end Operation

section

variable {clock : Clock} {run updated : SubAgentRun F}

theorem Successor.withMetadata (h : Successor run updated) (metadata : Dict String (Json F))
    : Successor run (updated.withMetadata metadata) :=
  ⟨h.runId, h.conversationId, h.status, h.terminal, h.ended⟩

theorem successor_of_next (hrunId : updated.runId = run.runId)
    (hconversationId : updated.conversationId = run.conversationId)
    (hnext : updated.status ∈ allowedNext run.status)
    (hended : updated.status.isActive = false → updated.endedAt.isSome = true)
    : Successor run updated := by
  refine ⟨hrunId, hconversationId, .inr hnext, ?_, fun _ => hended⟩
  intro hterminal
  cases hstatus : run.status with
  | pending =>
    rw [hstatus] at hterminal
    cases hterminal
  | running =>
    rw [hstatus] at hterminal
    cases hterminal
  | _ =>
    rw [hstatus] at hnext
    cases hnext

theorem successor_start (h : run.start clock.now = .ok updated) : Successor run updated := by
  unfold SubAgentRun.start at h
  rw [guarded_eq_ok] at h
  obtain ⟨hstatus, rfl⟩ := h
  apply successor_of_next
  . rfl
  . rfl
  . show SubAgentRunStatus.running ∈ allowedNext run.status
    rw [hstatus]
    decide
  . intro hactive
    cases hactive

theorem successor_complete {summary : Option String} {tokensUsed executionTimeMs : Option Int}
    (h : run.complete summary tokensUsed executionTimeMs clock.now = .ok updated) : Successor run updated := by
  unfold SubAgentRun.complete at h
  rw [guarded_eq_ok] at h
  obtain ⟨hstatus, rfl⟩ := h
  apply successor_of_next
  . rfl
  . rfl
  . show SubAgentRunStatus.completed ∈ allowedNext run.status
    rw [hstatus]
    decide
  . intro _
    rfl

theorem successor_fail {error : String} {executionTimeMs : Option Int}
    (h : run.fail error executionTimeMs clock.now = .ok updated) : Successor run updated := by
  unfold SubAgentRun.fail at h
  rw [guarded_eq_ok] at h
  obtain ⟨hstatus, rfl⟩ := h
  apply successor_of_next
  . rfl
  . rfl
  . show SubAgentRunStatus.failed ∈ allowedNext run.status
    rw [hstatus]
    decide
  . intro _
    rfl

theorem mem_allowedNext_of_isActive {status : SubAgentRunStatus} (h : status.isActive = true)
    : .cancelled ∈ allowedNext status ∧ .timedOut ∈ allowedNext status := by
  cases status with
  | pending => decide
  | running => decide
  | _ => cases h

theorem successor_cancel {reason : Option String} (h : run.cancel reason clock.now = .ok updated)
    : Successor run updated := by
  unfold SubAgentRun.cancel at h
  rw [guarded_eq_ok] at h
  obtain ⟨hactive, rfl⟩ := h
  apply successor_of_next
  . rfl
  . rfl
  . exact (mem_allowedNext_of_isActive hactive).1
  . intro _
    rfl

theorem successor_timeOut {reason : String} (h : run.timeOut reason clock.now = .ok updated)
    : Successor run updated := by
  unfold SubAgentRun.timeOut at h
  rw [guarded_eq_ok] at h
  obtain ⟨hactive, rfl⟩ := h
  apply successor_of_next
  . rfl
  . rfl
  . exact (mem_allowedNext_of_isActive hactive).2
  . intro _
    rfl

theorem Successor.refl (run : SubAgentRun F) : Successor run run :=
  ⟨rfl, rfl, .inl rfl, fun _ => ⟨rfl, rfl, rfl⟩, id⟩

theorem withTraceContext_eq_ok {traceId : String} {parentSpanId : Option String}
    : run.withTraceContext traceId parentSpanId = .ok updated ↔
        run.status = .pending ∧ Text.strip traceId ≠ "" ∧
        updated = { run with
          traceId := some (Text.strip traceId)
          parentSpanId := (parentSpanId.map Text.strip).filter (· ≠ "") } := by
  unfold SubAgentRun.withTraceContext
  rw [bind_eq_ok]
  simp only [ensure_eq_ok, exists_const, guarded_eq_ok]

theorem Operation.successor_of_makes {operation : Operation F} (h : operation.Makes clock run updated)
    : Successor run updated := by
  have hmapped (result : Except String (SubAgentRun F)) (metadata : Dict String (Json F))
      (hresult : result.map (·.withMetadata metadata) = .ok updated)
      (hsuccessor : ∀ changed, result = .ok changed → Successor run changed) : Successor run updated := by
    cases result with
    | error e => cases hresult
    | ok changed =>
      cases hresult
      exact (hsuccessor changed rfl).withMetadata metadata
  have hok := h.2
  cases operation with
  | createRun => cases hok
  | markRunning => exact hmapped _ _ hok fun _ => successor_start
  | markCompleted => exact hmapped _ _ hok fun _ => successor_complete
  | markFailed => exact hmapped _ _ hok fun _ => successor_fail
  | markCancelled => exact hmapped _ _ hok fun _ => successor_cancel
  | markTimedOut => exact hmapped _ _ hok fun _ => successor_timeOut
  | attachMetadata _ _ metadata _ =>
    dsimp only [Operation.mutator] at hok
    rw [bind_eq_ok] at hok
    obtain ⟨_, -, hok⟩ := hok
    cases hok
    exact (Successor.refl run).withMetadata metadata
  | setTraceContext _ _ traceId parentSpanId _ =>
    have hok : run.withTraceContext traceId parentSpanId = .ok updated := hok
    rw [withTraceContext_eq_ok] at hok
    rw [hok.2.2]
    exact ⟨rfl, rfl, .inl rfl, fun _ => ⟨rfl, rfl, rfl⟩, id⟩

end

section

variable {runs : Conversations F} {storage : Storage} {conversationId runId : String}

theorem create_eq_ok {subagentName task : String} {metadata : Dict String (Json F)} {now : Int} {run : SubAgentRun F}
    (h : SubAgentRun.create runId conversationId subagentName task metadata now = .ok run)
    : run.conversationId = conversationId ∧ run.runId = runId ∧ run.status = .pending ∧ run.metadata = metadata := by
  unfold SubAgentRun.create at h
  split_ifs at h
  cases h
  exact ⟨rfl, rfl, rfl, rfl⟩

theorem createRun_cases [PyFloat F] (config : RegistryConfig) (clock : Clock) (runs : Conversations F)
    (conversationId subagentName task : String) (metadata : Dict String (Json F)) (runId : String)
    (requesterSessionKey parentRunId lineageRootRunId : Option String)
    : (∃ error, createRun config clock runs conversationId subagentName task metadata runId requesterSessionKey
          parentRunId lineageRootRunId = ⟨.error error, none⟩) ∨
        ∃ run : SubAgentRun F, (run.conversationId = conversationId ∧ run.runId = runId) ∧ run.status = .pending ∧
          createRun config clock runs conversationId subagentName task metadata runId requesterSessionKey
            parentRunId lineageRootRunId = ⟨.ok (some run), some (config.upsertLocked clock.evicts runs run)⟩ := by
  unfold createRun
  cases hcreate : SubAgentRun.create runId conversationId subagentName task
      (createdMetadata metadata requesterSessionKey parentRunId lineageRootRunId) clock.now with
  | error e => exact .inl ⟨e, rfl⟩
  | ok run =>
    right
    obtain ⟨hconversation, hrun, hpending, -⟩ := create_eq_ok hcreate
    refine ⟨run.rooted, ?_, ?_, rfl⟩
    . unfold SubAgentRun.rooted
      split
      . exact ⟨hconversation, hrun⟩
      . exact ⟨hconversation, hrun⟩
    . unfold SubAgentRun.rooted
      split
      . exact hpending
      . exact hpending

theorem Conversations.find_eq (runs : Conversations F) (conversationId runId : String)
    : runs.find conversationId runId = (runs.bucket conversationId).get runId := by
  unfold find bucket
  cases runs.get conversationId with
  | none => simp
  | some bucket => rfl

theorem RegistryConfig.bucket_upsertLocked (config : RegistryConfig) (now : Int) (runs : Conversations F)
    (run : SubAgentRun F) (conversationId : String)
    : (config.upsertLocked now runs run).bucket conversationId
        =
      if conversationId = run.conversationId then
        config.evictIfNeeded now ((runs.bucket run.conversationId).set run.runId run)
      else runs.bucket conversationId := by
  unfold Conversations.bucket upsertLocked
  rw [Dict.get_set]
  split
  . rfl
  . rfl

theorem Operation.run_of_creation [PyFloat F] (config : RegistryConfig) (clock : Clock) (runs : Conversations F)
    {operation : Operation F} (htarget : operation.target = none)
    : (∃ error, operation.run config clock runs = ⟨.error error, none⟩) ∨
        ∃ run : SubAgentRun F, operation.creation = some (run.conversationId, run.runId) ∧ run.status = .pending ∧
          operation.run config clock runs
            = ⟨.ok (some run), some (config.upsertLocked clock.evicts runs run)⟩ := by
  cases operation with
  | createRun conversationId subagentName task metadata runId requesterSessionKey parentRunId lineageRootRunId =>
    rcases createRun_cases config clock runs conversationId subagentName task metadata runId requesterSessionKey
      parentRunId lineageRootRunId with ⟨error, hrun⟩ | ⟨run, ⟨hconversationId, hrunId⟩, hpending, hrun⟩
    . exact .inl ⟨error, hrun⟩
    . right
      refine ⟨run, ?_, hpending, hrun⟩
      rw [hconversationId, hrunId]
      rfl
  | _ => cases htarget

def Storage.settleRun : Storage → SubAgentRun F → SubAgentRun F
  | .memory, run => run
  | .snapshot, run => run.settled

theorem filter_filter_ne (text : Option String) : (text.filter (· ≠ "")).filter (· ≠ "") = text.filter (· ≠ "") := by
  cases text with
  | none => rfl
  | some s =>
    rw [Option.filter_some]
    split
    . next h => rw [Option.filter_some, if_pos h]
    . rfl

theorem Storage.settleRun_settleRun (storage : Storage) (run : SubAgentRun F)
    : storage.settleRun (storage.settleRun run) = storage.settleRun run := by
  cases storage with
  | memory => rfl
  | snapshot =>
    unfold settleRun SubAgentRun.settled
    simp only [filter_filter_ne]

theorem Conversations.bucket_settled (runs : Conversations F) (conversationId : String)
    : runs.settled.bucket conversationId = (runs.bucket conversationId).mapValues SubAgentRun.settled := by
  unfold bucket settled
  rw [Dict.get_eraseAll, Dict.get_mapValues]
  cases hget : runs.get conversationId with
  | none =>
    rw [Option.map_none, ite_self]
    rfl
  | some bucket =>
    have hmem : conversationId ∈ (runs.entries.filter (·.2.values.isEmpty)).map Prod.fst
        ↔ bucket.values.isEmpty = true := by
      rw [List.mem_map]
      constructor
      . rintro ⟨entry, hentry, rfl⟩
        rw [List.mem_filter] at hentry
        have hget' := Dict.get_eq_some.mpr hentry.1
        rw [hget, Option.some.injEq] at hget'
        rw [hget']
        exact hentry.2
      . intro hempty
        exact ⟨(conversationId, bucket), List.mem_filter.mpr ⟨Dict.get_eq_some.mp hget, hempty⟩, rfl⟩
    split
    . next h =>
      have hentries : bucket.entries = [] := by
        have hvalues := hmem.mp h
        unfold Dict.values at hvalues
        rw [List.isEmpty_iff, List.map_eq_nil_iff] at hvalues
        exact hvalues
      apply Dict.ext_entries
      show [] = bucket.entries.map _
      rw [hentries]
      rfl
    . rfl

theorem Storage.bucket_settle (storage : Storage) (runs : Conversations F) (conversationId : String)
    : (storage.settle runs).bucket conversationId = (runs.bucket conversationId).mapValues storage.settleRun := by
  cases storage with
  | memory =>
    apply Dict.ext_entries
    exact (List.map_id _).symm
  | snapshot => apply Conversations.bucket_settled

theorem Storage.find_settle (storage : Storage) (runs : Conversations F) (conversationId runId : String)
    : (storage.settle runs).find conversationId runId = (runs.find conversationId runId).map storage.settleRun := by
  rw [Conversations.find_eq, Conversations.find_eq, bucket_settle, Dict.get_mapValues]

end

end SubagentRuns
end Agent
end MemStack
