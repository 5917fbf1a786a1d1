import MemStack.Agent.SubagentRuns.Lemmas
import MemStack.Util.JsonLemmas

/-!
This module contains the life of the runs in the registry: their statuses only go forward, what has ended
stays as it is, and an eviction takes only runs that have ended, those that ended first.
-/

namespace MemStack
namespace Agent
namespace SubagentRuns

open Machine

variable {F : Type}

def Storage.ReadBack (storage : Storage) (text text' : Option String) : Prop :=
  text' = text ∨ (storage = .snapshot ∧ text = some "" ∧ text' = none)

structure Storage.SameRun (storage : Storage) (run run' : SubAgentRun F) : Prop where
  summary : storage.ReadBack run.summary run'.summary
  error : storage.ReadBack run.error run'.error
  frozenResultText : storage.ReadBack run.frozenResultText run'.frozenResultText
  traceId : storage.ReadBack run.traceId run'.traceId
  parentSpanId : storage.ReadBack run.parentSpanId run'.parentSpanId
  rest : run' = { run with
    summary := run'.summary
    error := run'.error
    frozenResultText := run'.frozenResultText
    traceId := run'.traceId
    parentSpanId := run'.parentSpanId }

theorem Storage.readBack_memory {text text' : Option String} : memory.ReadBack text text' ↔ text' = text := by
  simp [ReadBack]

theorem Storage.readBack_filter (text : Option String) : snapshot.ReadBack text (text.filter (· ≠ "")) := by
  cases text with
  | none => exact .inl rfl
  | some s =>
    rw [Option.filter_some]
    split
    . exact .inl rfl
    . next h => exact .inr ⟨rfl, by simpa using h, rfl⟩

theorem Storage.sameRun_memory {run run' : SubAgentRun F} : memory.SameRun run run' ↔ run' = run := by
  constructor
  . rintro ⟨hsummary, herror, hfrozen, htrace, hparent, hrest⟩
    rw [readBack_memory] at hsummary herror hfrozen htrace hparent
    rw [hrest, hsummary, herror, hfrozen, htrace, hparent]
  . rintro rfl
    exact ⟨.inl rfl, .inl rfl, .inl rfl, .inl rfl, .inl rfl, rfl⟩

theorem Storage.sameRun_settleRun (storage : Storage) (run : SubAgentRun F)
    : storage.SameRun run (storage.settleRun run) := by
  cases storage with
  | memory => exact sameRun_memory.mpr rfl
  | snapshot =>
    exact ⟨readBack_filter _, readBack_filter _, readBack_filter _, readBack_filter _, readBack_filter _, rfl⟩

namespace Stored

structure Sound (storage : Storage) (s : Stored F) : Prop where
  filed : ∀ conversationId runId run, s.runs.find conversationId runId = some run →
    run.conversationId = conversationId ∧ run.runId = runId
  ended : ∀ conversationId runId run, s.runs.find conversationId runId = some run →
    run.status.isActive = false → run.endedAt.isSome = true
  settled : ∀ conversationId runId run, s.runs.find conversationId runId = some run → storage.settleRun run = run

theorem sound_empty (storage : Storage) : (empty : Stored F).Sound storage := by
  have hnone : ∀ conversationId runId run, (empty : Stored F).runs.find conversationId runId ≠ some run := by
    intro conversationId runId run h
    unfold empty Conversations.find at h
    rw [Dict.get_empty] at h
    cases h
  refine ⟨?_, ?_, ?_⟩
  . intro conversationId runId run h
    exact absurd h (hnone conversationId runId run)
  . intro conversationId runId run h
    exact absurd h (hnone conversationId runId run)
  . intro conversationId runId run h
    exact absurd h (hnone conversationId runId run)

def changedTo (runs : Conversations F) (written : SubAgentRun F) (conversationId runId : String)
    : Option (SubAgentRun F) :=
  if written.conversationId = conversationId ∧ written.runId = runId then some written
  else runs.find conversationId runId

namespace Entry

def changed (e : Entry F) (conversationId runId : String) : Option (SubAgentRun F) :=
  match e.reply with
  | .ok (some written) => changedTo e.before.runs written conversationId runId
  | _ => e.before.runs.find conversationId runId

def Fresh (e : Entry F) : Prop :=
  ∀ conversationId runId, e.request.operation.creation = some (conversationId, runId) →
    e.before.runs.find conversationId runId = none

/--
What each operation keeps. Where the runs are persisted the empty texts of a run are lost when it is read back.
-/
structure Lawful (config : RegistryConfig) (storage : Storage) (e : Entry F) : Prop where
  created : ∀ conversationId runId run, e.before.runs.find conversationId runId = none →
    e.changed conversationId runId = some run → run.status = .pending
  status : ∀ conversationId runId run run', e.before.runs.find conversationId runId = some run →
    e.changed conversationId runId = some run' → run'.status = run.status ∨ run'.status ∈ allowedNext run.status
  kept : ∀ conversationId runId run', e.after.runs.find conversationId runId = some run' →
    ∃ run, e.changed conversationId runId = some run ∧ run'.status = run.status ∧ run'.endedAt = run.endedAt
  terminal : ∀ conversationId runId run run', e.before.runs.find conversationId runId = some run →
    run.status.isActive = false → e.after.runs.find conversationId runId = some run' →
    run'.status = run.status ∧ run'.endedAt = run.endedAt ∧ storage.ReadBack run.summary run'.summary ∧
      storage.ReadBack run.error run'.error
  refused : e.reply = .ok none → ∀ conversationId runId,
    Option.Rel storage.SameRun (e.before.runs.find conversationId runId) (e.after.runs.find conversationId runId)
  evicted : ∀ conversationId runId run, e.changed conversationId runId = some run →
    e.after.runs.find conversationId runId = none →
    run.status.isActive = false ∧
      ∀ runId' run', e.after.runs.find conversationId runId' = some run' → run'.status.isActive = false →
        ∃ ended ended', run.endedAt = some ended ∧ run'.endedAt = some ended' ∧ ended ≤ ended'
  size : ∀ run, e.reply = .ok (some run) →
    (e.after.runs.bucket run.conversationId).values.length
      ≤ max config.maxRuns ((e.after.runs.bucket run.conversationId).values.countP (·.status.isActive))

end Entry

structure Written (config : RegistryConfig) (storage : Storage) (runs : Conversations F) (written : SubAgentRun F)
    (after : Conversations F) : Prop where
  kept : ∀ conversationId runId run', after.find conversationId runId = some run' →
    ∃ run, changedTo runs written conversationId runId = some run ∧ run' = storage.settleRun run
  active : ∀ conversationId runId run, changedTo runs written conversationId runId = some run →
    run.status.isActive = true → after.find conversationId runId = some (storage.settleRun run)
  oldest : ∀ conversationId runId run runId' run', changedTo runs written conversationId runId = some run →
    after.find conversationId runId = none → after.find conversationId runId' = some run' →
    run'.status.isActive = false → run.endTime ≤ run'.endTime
  size : (after.bucket written.conversationId).values.length
    ≤ max config.maxRuns ((after.bucket written.conversationId).values.countP (·.status.isActive))

section

variable {config : RegistryConfig} {storage : Storage} {s : Stored F} {written : SubAgentRun F}

@[simp]
theorem settleRun_status (storage : Storage) (run : SubAgentRun F) : (storage.settleRun run).status = run.status := by
  cases storage <;> rfl

@[simp]
theorem settleRun_endedAt (storage : Storage) (run : SubAgentRun F)
    : (storage.settleRun run).endedAt = run.endedAt := by
  cases storage <;> rfl

@[simp]
theorem settleRun_endTime (storage : Storage) (run : SubAgentRun F)
    : (storage.settleRun run).endTime = run.endTime := by
  cases storage <;> rfl

@[simp]
theorem settleRun_conversationId (storage : Storage) (run : SubAgentRun F)
    : (storage.settleRun run).conversationId = run.conversationId := by
  cases storage <;> rfl

@[simp]
theorem settleRun_runId (storage : Storage) (run : SubAgentRun F)
    : (storage.settleRun run).runId = run.runId := by
  cases storage <;> rfl

@[simp]
theorem settleRun_metadata (storage : Storage) (run : SubAgentRun F)
    : (storage.settleRun run).metadata = run.metadata := by
  cases storage <;> rfl

theorem find_upsert_of_ne {now : Int} {conversationId : String} (h : conversationId ≠ written.conversationId)
    (runId : String)
    : (storage.settle (config.upsertLocked now s.runs written)).find conversationId runId
        = (s.runs.find conversationId runId).map storage.settleRun := by
  rw [Storage.find_settle, Conversations.find_eq, RegistryConfig.bucket_upsertLocked, if_neg h,
    ← Conversations.find_eq]

theorem changedTo_of_ne {conversationId : String} (h : conversationId ≠ written.conversationId) (runId : String)
    : changedTo s.runs written conversationId runId = s.runs.find conversationId runId := by
  unfold changedTo
  rw [if_neg]
  rintro ⟨heq, -⟩
  exact h heq.symm

theorem changedTo_same (runId : String)
    : changedTo s.runs written written.conversationId runId
        = ((s.runs.bucket written.conversationId).set written.runId written).get runId := by
  unfold changedTo
  rw [Dict.get_set, ← Conversations.find_eq]
  by_cases h : runId = written.runId
  . rw [if_pos ⟨rfl, h.symm⟩, if_pos h]
  . rw [if_neg (fun hids => h hids.2.symm), if_neg h]

theorem Sound.keyed (h : s.Sound storage) (written : SubAgentRun F)
    : RegistryConfig.Keyed ((s.runs.bucket written.conversationId).set written.runId written) := by
  intro id run hget
  rw [Dict.get_set] at hget
  split at hget
  . next heq =>
    rw [← Option.some.inj hget]
    exact heq.symm
  . rw [← Conversations.find_eq] at hget
    exact (h.filed _ _ run hget).2

theorem Sound.upserted (h : s.Sound storage) (config : RegistryConfig) (now : Int) (written : SubAgentRun F)
    : Written config storage s.runs written (storage.settle (config.upsertLocked now s.runs written)) := by
  have hevicted := RegistryConfig.evicted_evictIfNeeded config now (h.keyed written)
  have hbucket : (storage.settle (config.upsertLocked now s.runs written)).bucket written.conversationId
      = (config.evictIfNeeded now ((s.runs.bucket written.conversationId).set written.runId written)).mapValues
          storage.settleRun := by
    rw [Storage.bucket_settle, RegistryConfig.bucket_upsertLocked, if_pos rfl]
  have hfind : ∀ runId, (storage.settle (config.upsertLocked now s.runs written)).find written.conversationId runId
      = ((config.evictIfNeeded now ((s.runs.bucket written.conversationId).set written.runId written)).get runId).map
          storage.settleRun := by
    intro runId
    rw [Conversations.find_eq, hbucket, Dict.get_mapValues]
  generalize config.evictIfNeeded now ((s.runs.bucket written.conversationId).set written.runId written) = left
    at hevicted hbucket hfind
  refine ⟨?_, ?_, ?_, ?_⟩
  . intro conversationId runId run' hget
    by_cases hsame : conversationId = written.conversationId
    . rw [hsame, hfind, Option.map_eq_some_iff] at hget
      obtain ⟨run, hrun, rfl⟩ := hget
      rw [hsame, changedTo_same]
      exact ⟨run, hevicted.kept runId run hrun, rfl⟩
    . rw [find_upsert_of_ne hsame, Option.map_eq_some_iff] at hget
      obtain ⟨run, hrun, rfl⟩ := hget
      rw [changedTo_of_ne hsame]
      exact ⟨run, hrun, rfl⟩
  . intro conversationId runId run hchanged hactive
    by_cases hsame : conversationId = written.conversationId
    . rw [hsame, changedTo_same] at hchanged
      rw [hsame, hfind, hevicted.active runId run hchanged hactive, Option.map_some]
    . rw [changedTo_of_ne hsame] at hchanged
      rw [find_upsert_of_ne hsame, hchanged, Option.map_some]
  . intro conversationId runId run runId' run' hchanged hgone hget hterminal
    by_cases hsame : conversationId = written.conversationId
    . rw [hsame, changedTo_same] at hchanged
      rw [hsame, hfind, Option.map_eq_none_iff] at hgone
      rw [hsame, hfind, Option.map_eq_some_iff] at hget
      obtain ⟨run₀, hrun₀, rfl⟩ := hget
      rw [settleRun_endTime]
      rw [settleRun_status] at hterminal
      exact hevicted.oldest runId run runId' run₀ hchanged hgone hrun₀ hterminal
    . rw [changedTo_of_ne hsame] at hchanged
      rw [find_upsert_of_ne hsame, hchanged, Option.map_some] at hgone
      cases hgone
  . have hvalues : (left.mapValues storage.settleRun).values = left.values.map storage.settleRun := by
      unfold Dict.values Dict.mapValues
      simp only [List.map_map, Function.comp_def]
    rw [hbucket, hvalues, List.length_map, List.countP_map]
    have hcount : left.values.countP ((fun run : SubAgentRun F => run.status.isActive) ∘ storage.settleRun)
        = left.values.countP fun run => run.status.isActive := by
      apply List.countP_congr
      intro run _
      rw [Function.comp, settleRun_status]
    rw [hcount]
    exact hevicted.size

theorem endTime_of_endedAt {run : SubAgentRun F} {ended : Int} (h : run.endedAt = some ended)
    : run.endTime = ended := by
  unfold SubAgentRun.endTime
  rw [h, Option.getD_some]

theorem Successor.status_of_terminal {run updated : SubAgentRun F} (h : Successor run updated)
    (hterminal : run.status.isActive = false) : updated.status = run.status := by
  apply h.status.resolve_right
  intro hnext
  cases hstatus : run.status with
  | pending =>
    rw [hstatus] at hterminal
    cases hterminal
  | running =>
    rw [hstatus] at hterminal
    cases hterminal
  | _ =>
    rw [hstatus] at hnext
    cases hnext

structure Follows (runs : Conversations F) (written : SubAgentRun F) : Prop where
  first : runs.find written.conversationId written.runId = none → written.status = .pending
  next : ∀ run, runs.find written.conversationId written.runId = some run → Successor run written

theorem Follows.ended (h : Follows s.runs written) (hs : s.Sound storage)
    : written.status.isActive = false → written.endedAt.isSome = true := by
  intro hterminal
  cases hfind : s.runs.find written.conversationId written.runId with
  | none =>
    rw [h.first hfind] at hterminal
    cases hterminal
  | some run => exact (h.next run hfind).ended (hs.ended _ _ run hfind) hterminal

theorem changedTo_eq_some {runs : Conversations F} {conversationId runId : String} {run : SubAgentRun F}
    : changedTo runs written conversationId runId = some run ↔
        (run = written ∧ written.conversationId = conversationId ∧ written.runId = runId) ∨
          (¬(written.conversationId = conversationId ∧ written.runId = runId) ∧
            runs.find conversationId runId = some run) := by
  unfold changedTo
  split
  . next hids =>
    rw [Option.some.injEq, eq_comm]
    simp [hids]
  . next hids => simp [hids]

theorem changedTo_ended (hended : written.status.isActive = false → written.endedAt.isSome = true)
    (hs : s.Sound storage) {conversationId runId : String} {run : SubAgentRun F}
    (hchanged : changedTo s.runs written conversationId runId = some run) (hterminal : run.status.isActive = false)
    : run.endedAt.isSome = true := by
  rw [changedTo_eq_some] at hchanged
  rcases hchanged with ⟨rfl, -⟩ | ⟨-, hfind⟩
  . exact hended hterminal
  . exact hs.ended _ _ run hfind hterminal

theorem sound_of_written {after : Stored F} (hs : s.Sound storage)
    (hended : written.status.isActive = false → written.endedAt.isSome = true)
    (hwritten : Written config storage s.runs written after.runs) : after.Sound storage := by
  refine ⟨?_, ?_, ?_⟩
  . intro conversationId runId run' hfind
    obtain ⟨run, hchanged, rfl⟩ := hwritten.kept conversationId runId run' hfind
    rw [settleRun_conversationId, settleRun_runId]
    rw [changedTo_eq_some] at hchanged
    rcases hchanged with ⟨rfl, hids⟩ | ⟨-, hfind⟩
    . exact hids
    . exact hs.filed _ _ run hfind
  . intro conversationId runId run' hfind hterminal
    obtain ⟨run, hchanged, rfl⟩ := hwritten.kept conversationId runId run' hfind
    rw [settleRun_status] at hterminal
    rw [settleRun_endedAt]
    exact changedTo_ended hended hs hchanged hterminal
  . intro conversationId runId run' hfind
    obtain ⟨run, -, rfl⟩ := hwritten.kept conversationId runId run' hfind
    apply Storage.settleRun_settleRun

theorem lawful_of_written {e : Entry F} (hs : e.before.Sound .memory) (h : Follows e.before.runs written)
    (hreply : e.reply = .ok (some written))
    (hwritten : Written config .memory e.before.runs written e.after.runs) : e.Lawful config .memory := by
  have hended := h.ended hs
  have hafter : e.after.Sound .memory := sound_of_written hs hended hwritten
  have hchanged : ∀ conversationId runId,
      e.changed conversationId runId = changedTo e.before.runs written conversationId runId := by
    intro conversationId runId
    unfold Entry.changed
    rw [hreply]
  refine ⟨?_, ?_, ?_, ?_, ?_, ?_, ?_⟩
  . intro conversationId runId run hnone hrun
    rw [hchanged, changedTo_eq_some] at hrun
    rcases hrun with ⟨rfl, rfl, rfl⟩ | ⟨-, hfind⟩
    . exact h.first hnone
    . rw [hnone] at hfind
      cases hfind
  . intro conversationId runId run run' hfind hrun'
    rw [hchanged, changedTo_eq_some] at hrun'
    rcases hrun' with ⟨rfl, rfl, rfl⟩ | ⟨-, hfind'⟩
    . exact (h.next run hfind).status
    . rw [hfind, Option.some.injEq] at hfind'
      exact .inl (congrArg SubAgentRun.status hfind'.symm)
  . intro conversationId runId run' hfind
    obtain ⟨run, hrun, rfl⟩ := hwritten.kept conversationId runId run' hfind
    rw [hchanged]
    exact ⟨_, hrun, rfl, rfl⟩
  . intro conversationId runId run run' hfind hterminal hfind'
    obtain ⟨changed, hrun, rfl⟩ := hwritten.kept conversationId runId run' hfind'
    rw [Storage.readBack_memory, Storage.readBack_memory]
    rw [changedTo_eq_some] at hrun
    rcases hrun with ⟨rfl, rfl, rfl⟩ | ⟨-, hsame⟩
    . have hsuccessor := h.next run hfind
      exact ⟨Successor.status_of_terminal hsuccessor hterminal, hsuccessor.terminal hterminal⟩
    . rw [hfind, Option.some.injEq] at hsame
      rw [← hsame]
      exact ⟨rfl, rfl, rfl, rfl⟩
  . intro hnone
    rw [hreply] at hnone
    cases hnone
  . intro conversationId runId run hrun hgone
    rw [hchanged] at hrun
    have hterminal : run.status.isActive = false := by
      by_contra hactive
      have hkept := hwritten.active conversationId runId run hrun (by simpa using hactive)
      rw [hgone] at hkept
      cases hkept
    refine ⟨hterminal, ?_⟩
    intro runId' run' hfind' hterminal'
    obtain ⟨ended, hended⟩ := Option.isSome_iff_exists.mp (changedTo_ended hended hs hrun hterminal)
    obtain ⟨ended', hended'⟩ := Option.isSome_iff_exists.mp (hafter.ended _ _ run' hfind' hterminal')
    have hle := hwritten.oldest conversationId runId run runId' run' hrun hgone hfind' hterminal'
    rw [endTime_of_endedAt hended, endTime_of_endedAt hended'] at hle
    exact ⟨ended, ended', hended, hended', hle⟩
  . intro run hrun
    rw [hreply] at hrun
    cases hrun
    exact hwritten.size

theorem lawful_of_same {e : Entry F} (hreply : ∀ run, e.reply ≠ .ok (some run)) (hsame : e.after = e.before)
    : e.Lawful config .memory := by
  have hchanged : ∀ conversationId runId, e.changed conversationId runId = e.before.runs.find conversationId runId := by
    intro conversationId runId
    unfold Entry.changed
    split
    . next written hwritten => exact absurd hwritten (hreply written)
    . rfl
  refine ⟨?_, ?_, ?_, ?_, ?_, ?_, ?_⟩
  . intro conversationId runId run hnone hrun
    rw [hchanged, hnone] at hrun
    cases hrun
  . intro conversationId runId run run' hfind hrun'
    rw [hchanged, hfind, Option.some.injEq] at hrun'
    exact .inl (congrArg SubAgentRun.status hrun'.symm)
  . intro conversationId runId run' hfind
    rw [hsame, ← hchanged] at hfind
    exact ⟨run', hfind, rfl, rfl⟩
  . intro conversationId runId run run' hfind _ hfind'
    rw [hsame, hfind, Option.some.injEq] at hfind'
    rw [hfind']
    exact ⟨rfl, rfl, .inl rfl, .inl rfl⟩
  . intro _ conversationId runId
    rw [hsame]
    cases e.before.runs.find conversationId runId with
    | none => exact .none
    | some run => exact .some (Storage.sameRun_memory.mpr rfl)
  . intro conversationId runId run hrun hgone
    rw [hsame, ← hchanged, hrun] at hgone
    cases hgone
  . intro run hrun
    exact absurd hrun (hreply run)

variable [PyFloat F]

def Origin (s : Stored F) (request : Request F) (written : SubAgentRun F) : Prop :=
  (request.operation.creation = some (written.conversationId, written.runId) ∧ written.status = .pending) ∨
    ∃ run, request.operation.target = some (written.conversationId, written.runId) ∧
      s.runs.find written.conversationId written.runId = some run ∧
      request.operation.Makes request.clock run written

theorem step_cases (config : RegistryConfig) (hs : s.Sound storage) (request : Request F)
    : ((∀ run, (step config storage s request).2 ≠ .ok (some run)) ∧ (step config storage s request).1 = s ∧
          ∀ conversationId runId run, request.operation.target = some (conversationId, runId) →
            s.runs.find conversationId runId = some run →
            ∀ updated, ¬request.operation.Makes request.clock run updated) ∨
        ∃ written, (step config storage s request).2 = .ok (some written) ∧ Origin s request written ∧
          Written config storage s.runs written (step config storage s request).1.runs := by
  have hwrites (written : SubAgentRun F)
      (hrun : request.operation.run config request.clock s.runs
        = ⟨.ok (some written), some (config.upsertLocked request.clock.evicts s.runs written)⟩)
      : (step config storage s request).2 = .ok (some written) ∧
          Written config storage s.runs written (step config storage s request).1.runs := by
    unfold step
    rw [hrun]
    exact ⟨rfl, hs.upserted config request.clock.evicts written⟩
  cases htarget : request.operation.target with
  | none =>
    rcases Operation.run_of_creation config request.clock s.runs htarget with
      ⟨error, hrun⟩ | ⟨written, hcreation, hpending, hrun⟩
    . left
      unfold step
      rw [hrun]
      refine ⟨?_, rfl, ?_⟩
      . intro run h
        cases h
      . intro conversationId runId run h
        cases h
    . right
      obtain ⟨hreply, hwritten⟩ := hwrites written hrun
      exact ⟨written, hreply, .inl ⟨hcreation, hpending⟩, hwritten⟩
  | some target =>
    rcases Operation.run_of_target config request.clock s.runs htarget with
      ⟨reply, hreply, hrun, hrefused⟩ | ⟨run, updated, hfind, hmakes, hrun⟩
    . left
      unfold step
      rw [hrun]
      refine ⟨hreply, rfl, ?_⟩
      intro conversationId runId run h
      cases h
      exact hrefused run
    . right
      obtain ⟨hreply, hwritten⟩ := hwrites updated hrun
      have hsuccessor := Operation.successor_of_makes hmakes
      obtain ⟨hconversationId, hrunId⟩ := hs.filed _ _ run hfind
      refine ⟨updated, hreply, .inr ⟨run, ?_, ?_, hmakes⟩, hwritten⟩
      . rw [hsuccessor.conversationId, hsuccessor.runId, hconversationId, hrunId]
        exact htarget
      . rw [hsuccessor.conversationId, hsuccessor.runId, hconversationId, hrunId]
        exact hfind

omit [PyFloat F] in
theorem Origin.ended {request : Request F} (h : Origin s request written) (hs : s.Sound storage)
    : written.status.isActive = false → written.endedAt.isSome = true := by
  intro hterminal
  rcases h with ⟨-, hpending⟩ | ⟨run, -, hfind, hmakes⟩
  . rw [hpending] at hterminal
    cases hterminal
  . exact (Operation.successor_of_makes hmakes).ended (hs.ended _ _ run hfind) hterminal

theorem Origin.follows {request : Request F} (h : Origin s request written)
    (hfresh : Entry.Fresh (entry (step config storage) s request)) : Follows s.runs written := by
  rcases h with ⟨hcreation, hpending⟩ | ⟨run, -, hfind, hmakes⟩
  . refine ⟨fun _ => hpending, ?_⟩
    intro run hfind
    have hnone : s.runs.find written.conversationId written.runId = none := hfresh _ _ hcreation
    rw [hnone] at hfind
    cases hfind
  . constructor
    . intro hnone
      rw [hfind] at hnone
      cases hnone
    . intro run' hfind'
      rw [hfind, Option.some.injEq] at hfind'
      rw [← hfind']
      exact Operation.successor_of_makes hmakes

theorem sound_step (config : RegistryConfig) (hs : s.Sound storage) (request : Request F)
    : (step config storage s request).1.Sound storage := by
  rcases step_cases config hs request with ⟨-, hsame, -⟩ | ⟨written, -, horigin, hwritten⟩
  . rw [hsame]
    exact hs
  . exact sound_of_written hs (horigin.ended hs) hwritten

theorem lawful_step (hs : s.Sound .memory) {request : Request F}
    (hfresh : Entry.Fresh (entry (step config .memory) s request))
    : Entry.Lawful config .memory (entry (step config .memory) s request) := by
  rcases step_cases config hs request with ⟨hreply, hsame, -⟩ | ⟨written, hreply, horigin, hwritten⟩
  . exact lawful_of_same hreply hsame
  . exact lawful_of_written hs (horigin.follows hfresh) hreply hwritten

theorem registryStep_eq (config : RegistryConfig) (storage : Storage) (s : Stored F) (request : Request F)
    : registryStep config storage s request = step config .memory ⟨storage.settle s.runs⟩ request := by
  unfold registryStep step
  dsimp only
  cases (request.operation.run config request.clock (storage.settle s.runs)).written with
  | none => rfl
  | some runs => rfl

omit [PyFloat F] in
theorem entries_settled (runs : Conversations F)
    : runs.settled.entries = (runs.entries.filter (!·.2.values.isEmpty)).map
        fun e => (e.1, e.2.mapValues SubAgentRun.settled) := by
  have hentries : (runs.mapValues (·.mapValues SubAgentRun.settled)).entries
      = runs.entries.map fun e => (e.1, e.2.mapValues SubAgentRun.settled) := rfl
  unfold Conversations.settled
  rw [Dict.entries_eraseAll, hentries, List.filter_map]
  congr 1
  apply List.filter_congr
  intro e he
  have hmem : e.1 ∈ (runs.entries.filter (·.2.values.isEmpty)).map Prod.fst ↔ e.2.values.isEmpty = true := by
    rw [List.mem_map]
    constructor
    . rintro ⟨e', he', hkey⟩
      rw [List.mem_filter] at he'
      rw [← List.inj_on_of_nodup_map runs.nodup he'.1 he hkey]
      exact he'.2
    . intro hempty
      exact ⟨e, List.mem_filter.mpr ⟨he, hempty⟩, rfl⟩
  simp only [Function.comp, hmem, decide_not, Bool.decide_eq_true]

omit [PyFloat F] in
theorem settle_settle (storage : Storage) (runs : Conversations F)
    : storage.settle (storage.settle runs) = storage.settle runs := by
  cases storage with
  | memory => rfl
  | snapshot =>
    apply Dict.ext_entries
    show runs.settled.settled.entries = runs.settled.entries
    have hempty (e : String × Bucket F) : (e.2.mapValues SubAgentRun.settled).values.isEmpty = e.2.values.isEmpty := by
      unfold Dict.values Dict.mapValues
      simp only [List.isEmpty_map]
    have hsettled (bucket : Bucket F)
        : (bucket.mapValues SubAgentRun.settled).mapValues SubAgentRun.settled
            = bucket.mapValues SubAgentRun.settled := by
      apply Dict.ext_entries
      show (bucket.entries.map fun e => (e.1, e.2.settled)).map (fun e => (e.1, e.2.settled))
        = bucket.entries.map fun e => (e.1, e.2.settled)
      rw [List.map_map]
      apply List.map_congr_left
      intro e _
      exact congrArg (Prod.mk e.1) (Storage.settleRun_settleRun .snapshot e.2)
    rw [entries_settled, entries_settled, List.filter_map, List.map_map]
    simp only [Function.comp_def, hempty, hsettled, List.filter_filter, Bool.and_self]

theorem settle_registryStep (config : RegistryConfig) (storage : Storage) (s : Stored F) (request : Request F)
    : storage.settle (registryStep config storage s request).1.runs
        = (step config storage ⟨storage.settle s.runs⟩ request).1.runs ∧
      (registryStep config storage s request).2 = (step config storage ⟨storage.settle s.runs⟩ request).2 := by
  unfold registryStep step
  dsimp only
  cases (request.operation.run config request.clock (storage.settle s.runs)).written with
  | none => exact ⟨settle_settle storage s.runs, rfl⟩
  | some runs => exact ⟨rfl, rfl⟩

theorem settle_final (config : RegistryConfig) (storage : Storage) (s : Stored F) (requests : List (Request F))
    : (⟨storage.settle (final (registryStep config storage) s requests).runs⟩ : Stored F)
        = final (step config storage) ⟨storage.settle s.runs⟩ requests := by
  induction requests generalizing s with
  | nil => rfl
  | cons request requests ih =>
    have hstep := (settle_registryStep config storage s request).1
    have hrest := ih (registryStep config storage s request).1
    rw [hstep] at hrest
    exact hrest

omit [PyFloat F] in
theorem Sound.loaded (h : s.Sound .memory) (storage : Storage)
    : Sound .memory (⟨storage.settle s.runs⟩ : Stored F) := by
  refine ⟨?_, ?_, fun _ _ _ _ => rfl⟩
  . intro conversationId runId run hfind
    rw [Storage.find_settle, Option.map_eq_some_iff] at hfind
    obtain ⟨run, hfind, rfl⟩ := hfind
    rw [settleRun_conversationId, settleRun_runId]
    exact h.filed _ _ run hfind
  . intro conversationId runId run hfind hterminal
    rw [Storage.find_settle, Option.map_eq_some_iff] at hfind
    obtain ⟨run, hfind, rfl⟩ := hfind
    rw [settleRun_status] at hterminal
    rw [settleRun_endedAt]
    exact h.ended _ _ run hfind hterminal

namespace Entry

variable {e e' : Entry F}

omit [PyFloat F] in
theorem changed_loaded (hbefore : e'.before.runs = storage.settle e.before.runs) (hreply : e'.reply = e.reply)
    (conversationId runId : String)
    : (e'.changed conversationId runId).map (fun run => (run.status, run.endedAt))
        = (e.changed conversationId runId).map (fun run => (run.status, run.endedAt)) := by
  have hfind : (e'.before.runs.find conversationId runId).map (fun run => (run.status, run.endedAt))
      = (e.before.runs.find conversationId runId).map (fun run => (run.status, run.endedAt)) := by
    rw [hbefore, Storage.find_settle, Option.map_map]
    congr 1
    funext run
    simp
  unfold changed
  rw [hreply]
  split
  . unfold changedTo
    split
    . rfl
    . exact hfind
  . exact hfind

omit [PyFloat F] in
theorem Lawful.of_loaded (h : e'.Lawful config .memory) (hbefore : e'.before.runs = storage.settle e.before.runs)
    (hafter : e'.after = e.after) (hreply : e'.reply = e.reply) : e.Lawful config storage := by
  have hchanged := changed_loaded hbefore hreply
  have hfind (conversationId runId : String) : e'.before.runs.find conversationId runId
      = (e.before.runs.find conversationId runId).map storage.settleRun := by
    rw [hbefore, Storage.find_settle]
  have hmade {conversationId runId : String} {run : SubAgentRun F} (hrun : e.changed conversationId runId = some run)
      : ∃ run', e'.changed conversationId runId = some run' ∧ run'.status = run.status ∧
          run'.endedAt = run.endedAt := by
    have hsame := hchanged conversationId runId
    rw [hrun, Option.map_some, Option.map_eq_some_iff] at hsame
    obtain ⟨run', hrun', heq⟩ := hsame
    exact ⟨run', hrun', congrArg Prod.fst heq, congrArg Prod.snd heq⟩
  refine ⟨?_, ?_, ?_, ?_, ?_, ?_, ?_⟩
  . intro conversationId runId run hnone hrun
    obtain ⟨run', hrun', hstatus, -⟩ := hmade hrun
    rw [← hstatus]
    apply h.created conversationId runId run' _ hrun'
    rw [hfind, hnone]
    rfl
  . intro conversationId runId run run' hrun hrun'
    obtain ⟨run₁, hrun₁, hstatus, -⟩ := hmade hrun'
    have hnext := h.status conversationId runId (storage.settleRun run) run₁
      (by rw [hfind, hrun, Option.map_some]) hrun₁
    rwa [hstatus, settleRun_status] at hnext
  . intro conversationId runId run' hrun'
    rw [← hafter] at hrun'
    obtain ⟨run, hrun, hstatus, hended⟩ := h.kept conversationId runId run' hrun'
    have hsame := hchanged conversationId runId
    rw [hrun, Option.map_some, eq_comm, Option.map_eq_some_iff] at hsame
    obtain ⟨run₁, hrun₁, heq⟩ := hsame
    refine ⟨run₁, hrun₁, ?_, ?_⟩
    . rw [hstatus]
      exact (congrArg Prod.fst heq).symm
    . rw [hended]
      exact (congrArg Prod.snd heq).symm
  . intro conversationId runId run run' hrun hterminal hrun'
    rw [← hafter] at hrun'
    have hkept := h.terminal conversationId runId (storage.settleRun run) run' (by rw [hfind, hrun, Option.map_some])
      (by rw [settleRun_status, hterminal]) hrun'
    rw [settleRun_status, settleRun_endedAt, Storage.readBack_memory, Storage.readBack_memory] at hkept
    obtain ⟨hstatus, hended, hsummary, herror⟩ := hkept
    have hsame := storage.sameRun_settleRun run
    rw [hsummary, herror]
    exact ⟨hstatus, hended, hsame.summary, hsame.error⟩
  . intro hnone conversationId runId
    rw [← hreply] at hnone
    have hsame := h.refused hnone conversationId runId
    rw [hfind, hafter] at hsame
    generalize e.after.runs.find conversationId runId = found at hsame
    cases hrun : e.before.runs.find conversationId runId with
    | none =>
      rw [hrun, Option.map_none] at hsame
      cases hsame
      exact .none
    | some run =>
      rw [hrun, Option.map_some] at hsame
      cases hsame with
      | some hsame =>
        rw [Storage.sameRun_memory] at hsame
        rw [hsame]
        exact .some (storage.sameRun_settleRun run)
  . intro conversationId runId run hrun hgone
    obtain ⟨run', hrun', hstatus, hended⟩ := hmade hrun
    rw [← hafter] at hgone ⊢
    rw [← hstatus, ← hended]
    exact h.evicted conversationId runId run' hrun' hgone
  . intro run hrun
    rw [← hreply] at hrun
    rw [← hafter]
    exact h.size run hrun

end Entry

theorem lawful_registryStep (hs : s.Sound .memory) {request : Request F}
    (hfresh : Entry.Fresh (entry (registryStep config storage) s request))
    : Entry.Lawful config storage (entry (registryStep config storage) s request) := by
  have heq := registryStep_eq config storage s request
  have hloaded : Entry.Fresh (entry (step config .memory) ⟨storage.settle s.runs⟩ request) := by
    intro conversationId runId hcreation
    show (storage.settle s.runs).find conversationId runId = none
    rw [Storage.find_settle, Option.map_eq_none_iff]
    exact hfresh conversationId runId hcreation
  apply (lawful_step (hs.loaded storage) hloaded).of_loaded rfl
  . exact (congrArg Prod.fst heq).symm
  . exact (congrArg Prod.snd heq).symm

theorem sound_registryStep (config : RegistryConfig) (storage : Storage) (hs : s.Sound .memory) (request : Request F)
    : (registryStep config storage s request).1.Sound .memory := by
  rw [registryStep_eq]
  exact sound_step config (hs.loaded storage) request

/--
Over every run of operations that create runs with fresh ids, in memory or through snapshots, the statuses go forward,
what has ended stays up to the empty texts that are lost when runs are read back, and only runs that have ended are
evicted, those that ended first.
-/
theorem lifecycle (config : RegistryConfig) (storage : Storage) (s : Stored F) (hs : s.Sound .memory)
    (requests : List (Request F)) (hfresh : ∀ e ∈ transcript (registryStep config storage) s requests, Entry.Fresh e)
    : ∀ e ∈ transcript (registryStep config storage) s requests, Entry.Lawful config storage e := by
  apply forall_transcript (C := fun s request => Entry.Fresh (entry (registryStep config storage) s request))
    (I := fun s => s.Sound .memory) (P := fun e => Entry.Lawful config storage e)
  . intro s request hs hfresh
    exact ⟨lawful_registryStep hs hfresh, sound_registryStep config storage hs request⟩
  . exact hs
  . intro e he
    rw [← eq_entry_of_mem he]
    exact hfresh e he

end

def oneRun : List (Request Nat) :=
  [
    ⟨.createRun "conversation" "coder" "build" .empty "run" none none none, ⟨1, 2⟩⟩,
    ⟨.markRunning "conversation" "run" .empty [], ⟨3, 4⟩⟩,
    ⟨.markCompleted "conversation" "run" (some "") none none .empty [], ⟨5, 6⟩⟩,
    ⟨.markRunning "conversation" "run" .empty [], ⟨7, 8⟩⟩
  ]

theorem fresh_oneRun : ∀ e ∈ transcript (registryStep ⟨1, 60⟩ .snapshot) empty oneRun, Entry.Fresh e := by
  unfold oneRun
  simp only [transcript, List.forall_mem_cons]
  refine ⟨?_, ?_, ?_, ?_, fun e he => absurd he List.not_mem_nil⟩
  . intro conversationId runId h
    cases h
    rfl
  all_goals
    intro conversationId runId h
    cases h

theorem lifecycle_oneRun
    : ((final (registryStep ⟨1, 60⟩ .snapshot) empty oneRun).runs.find "conversation" "run").map (·.status)
          = some .completed ∧
        ∀ e ∈ transcript (registryStep ⟨1, 60⟩ .snapshot) empty oneRun, Entry.Lawful ⟨1, 60⟩ .snapshot e := by
  exact ⟨by decide +kernel, lifecycle ⟨1, 60⟩ .snapshot empty (sound_empty .memory) oneRun fresh_oneRun⟩

/--
The operation that is refused reads the empty summary back as none.
-/
theorem empty_summary_lost
    : (∀ e ∈ transcript (registryStep ⟨1, 60⟩ .snapshot) empty oneRun, Entry.Fresh e) ∧
      ¬∀ e ∈ transcript (registryStep ⟨1, 60⟩ .snapshot) (empty : Stored Nat) oneRun, e.reply = .ok none →
        ∀ conversationId runId run run', e.before.runs.find conversationId runId = some run →
          run.status.isActive = false → e.after.runs.find conversationId runId = some run' →
          run'.summary = run.summary := by
  refine ⟨fresh_oneRun, ?_⟩
  intro h
  unfold oneRun at h
  simp only [transcript, List.forall_mem_cons] at h
  have hlast := h.2.2.2.1 rfl "conversation" "run" _ _ rfl rfl rfl
  exact absurd hlast (by decide +kernel)

end Stored

end SubagentRuns
end Agent
end MemStack
