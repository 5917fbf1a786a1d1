import MemStack.Agent.SubagentRuns.Lifecycle

/-!
This module contains how the status of a spawned session is mirrored in the registry of the runs of subagents
(`agent/orchestration/spawn_manager.py`).
-/

namespace MemStack
namespace Agent
namespace Spawn

open SubagentRuns

variable {F : Type} [PyFloat F]

section Mirror

variable (config : RegistryConfig) (storage : Storage)

def markStarted (stored : Stored F) (conversationId runId : String) (mark : SubagentRuns.Operation F)
    (clock : Nat → Clock)
    : Stored F :=
  match Stored.step config storage stored ⟨mark, clock 0⟩ with
  | (stored, .ok none) =>
    match Stored.step config storage stored ⟨.markRunning conversationId runId .empty [], clock 1⟩ with
    | (stored, .ok (some _)) => (Stored.step config storage stored ⟨mark, clock 2⟩).1
    | (stored, _) => stored
  | (stored, _) => stored

def syncRunRegistryStatus (stored : Stored F) (conversationId runId status : String) (clock : Nat → Clock)
    : Stored F :=
  if status = "running" then
    (Stored.step config storage stored ⟨.markRunning conversationId runId .empty [], clock 0⟩).1
  else if status = "completed" then
    markStarted config storage stored conversationId runId
      (.markCompleted conversationId runId none none none .empty []) clock
  else if status = "failed" then
    markStarted config storage stored conversationId runId
      (.markFailed conversationId runId "Spawn failed" none .empty []) clock
  else if status = "stopped" ∨ status = "cancelled" then
    (Stored.step config storage stored
      ⟨.markCancelled conversationId runId (some s!"Spawn {status}") .empty [], clock 0⟩).1
  else
    stored

def mirrorStatus (stored : Stored F) (conversationId runId status : String) (clock : Nat → Clock) : Stored F :=
  if conversationId = "" then stored
  else syncRunRegistryStatus config storage stored conversationId runId status clock

end Mirror

omit [PyFloat F] in
def statusOf (stored : Stored F) (conversationId runId : String) : Option SubAgentRunStatus :=
  (stored.runs.find conversationId runId).map (·.status)

def withStatus (view : String → String → Option SubAgentRunStatus) (conversationId runId : String)
    (status : SubAgentRunStatus) (conversationId' runId' : String) : Option SubAgentRunStatus :=
  if conversationId' = conversationId ∧ runId' = runId then some status else view conversationId' runId'

structure Holds (stored : Stored F) (view : String → String → Option SubAgentRunStatus) : Prop where
  kept : ∀ conversationId runId status, statusOf stored conversationId runId = some status →
    view conversationId runId = some status
  active : ∀ conversationId runId status, view conversationId runId = some status → status.isActive = true →
    statusOf stored conversationId runId = some status

structure Takes (source : SubAgentRunStatus → Bool) (target : SubAgentRunStatus)
    (mutator : SubAgentRun F → Except String (SubAgentRun F)) : Prop where
  status : ∀ run updated, mutator run = .ok updated → source run.status = true ∧ updated.status = target
  accepts : ∀ run, source run.status = true → ∃ updated, mutator run = .ok updated
  ids : ∀ run updated, mutator run = .ok updated →
    updated.conversationId = run.conversationId ∧ updated.runId = run.runId

section Takes

variable {clock : Clock} {source : SubAgentRunStatus → Bool} {target : SubAgentRunStatus}

omit [PyFloat F] in
theorem takes_of_ensure {c : SubAgentRun F → Prop} [∀ run, Decidable (c run)] {error : SubAgentRun F → String}
    {updated : SubAgentRun F → SubAgentRun F} (hc : ∀ run, c run ↔ source run.status = true)
    (htarget : ∀ run, (updated run).status = target)
    (hids : ∀ run, (updated run).conversationId = run.conversationId ∧ (updated run).runId = run.runId)
    : Takes source target fun run : SubAgentRun F =>
        Except.map (·.withMetadata .empty) (do Checked.ensure (c run) (error run); return updated run) := by
  constructor
  . intro run made h
    by_cases hrun : c run
    . rw [Checked.ensure_pos hrun] at h
      cases h
      exact ⟨(hc run).mp hrun, htarget run⟩
    . rw [Checked.ensure, if_neg hrun] at h
      cases h
  . intro run h
    rw [Checked.ensure_pos ((hc run).mpr h)]
    exact ⟨_, rfl⟩
  . intro run made h
    by_cases hrun : c run
    . rw [Checked.ensure_pos hrun] at h
      cases h
      exact hids run
    . rw [Checked.ensure, if_neg hrun] at h
      cases h

omit [PyFloat F] in
theorem takes_start (now : Int)
    : Takes (· = .pending) .running fun run : SubAgentRun F => (run.start now).map (·.withMetadata .empty) := by
  apply takes_of_ensure
  . intro run
    rw [decide_eq_true_eq]
  . intro run
    rfl
  . intro run
    exact ⟨rfl, rfl⟩

omit [PyFloat F] in
theorem takes_complete (now : Int)
    : Takes (· = .running) .completed
        fun run : SubAgentRun F => (run.complete none none none now).map (·.withMetadata .empty) := by
  apply takes_of_ensure
  . intro run
    rw [decide_eq_true_eq]
  . intro run
    rfl
  . intro run
    exact ⟨rfl, rfl⟩

omit [PyFloat F] in
theorem takes_fail (error : String) (now : Int)
    : Takes (· = .running) .failed
        fun run : SubAgentRun F => (run.fail error none now).map (·.withMetadata .empty) := by
  apply takes_of_ensure
  . intro run
    rw [decide_eq_true_eq]
  . intro run
    rfl
  . intro run
    exact ⟨rfl, rfl⟩

omit [PyFloat F] in
theorem takes_cancel (reason : Option String) (now : Int)
    : Takes (·.isActive) .cancelled
        fun run : SubAgentRun F => (run.cancel reason now).map (·.withMetadata .empty) := by
  apply takes_of_ensure
  . intro run
    rfl
  . intro run
    rfl
  . intro run
    exact ⟨rfl, rfl⟩

end Takes

section Holds

variable {config : RegistryConfig} {storage : Storage} {s s' : Stored F} {conversationId runId : String}
  {source : SubAgentRunStatus → Bool} {target : SubAgentRunStatus}

omit [PyFloat F] in
theorem statusOf_eq_some {status : SubAgentRunStatus}
    : statusOf s conversationId runId = some status
        ↔
      ∃ run, s.runs.find conversationId runId = some run ∧ run.status = status := by
  rw [statusOf, Option.map_eq_some_iff]

omit [PyFloat F] in
theorem holds_of_written {after : Stored F} {updated : SubAgentRun F}
    (h : Stored.Written config storage s.runs updated after.runs)
    : Holds after (withStatus (statusOf s) updated.conversationId updated.runId updated.status) := by
  have hchanged : ∀ conversationId runId,
      (Stored.changedTo s.runs updated conversationId runId).map (·.status)
        = withStatus (statusOf s) updated.conversationId updated.runId updated.status conversationId runId := by
    intro conversationId runId
    unfold Stored.changedTo withStatus
    by_cases hids : updated.conversationId = conversationId ∧ updated.runId = runId
    . rw [if_pos hids, if_pos ⟨hids.1.symm, hids.2.symm⟩, Option.map_some]
    . rw [if_neg hids, if_neg (fun h => hids ⟨h.1.symm, h.2.symm⟩)]
      rfl
  constructor
  . intro conversationId runId status hstatus
    obtain ⟨run', hfind, rfl⟩ := statusOf_eq_some.mp hstatus
    obtain ⟨run, hrun, rfl⟩ := h.kept conversationId runId run' hfind
    rw [← hchanged, hrun, Option.map_some, Stored.settleRun_status]
  . intro conversationId runId status hstatus hactive
    rw [← hchanged, Option.map_eq_some_iff] at hstatus
    obtain ⟨run, hrun, rfl⟩ := hstatus
    rw [statusOf_eq_some]
    exact ⟨_, h.active conversationId runId run hrun hactive, Stored.settleRun_status storage run⟩

inductive Marked (source : SubAgentRunStatus → Bool) (target : SubAgentRunStatus) (conversationId runId : String)
    (s : Stored F) (result : Stored F × Except String (Option (SubAgentRun F))) : Prop where
  | refused (hstatus : ∀ status, statusOf s conversationId runId = some status → source status = false)
    (hresult : result = (s, .ok none))
  | written (updated : SubAgentRun F) (status : SubAgentRunStatus)
    (hstatus : statusOf s conversationId runId = some status) (hsource : source status = true)
    (hreply : result.2 = .ok (some updated))
    (hholds : Holds result.1 (withStatus (statusOf s) conversationId runId target))

theorem marked_of_takes (hs : s.Sound storage) (clock : Clock) {operation : SubagentRuns.Operation F}
    {mutator : SubAgentRun F → Except String (SubAgentRun F)} (htakes : Takes source target mutator)
    (hrun : operation.run config clock s.runs = mutateRun config clock s.runs conversationId runId [] mutator)
    : Marked source target conversationId runId s (Stored.step config storage s ⟨operation, clock⟩) := by
  rcases Operation.mutateRun_cases config clock s.runs conversationId runId [] mutator with
    ⟨heq, hrefused⟩ | ⟨run, updated, hfind, -, hok, heq⟩
  . apply Marked.refused
    . intro status hstatus
      obtain ⟨run, hfind, rfl⟩ := statusOf_eq_some.mp hstatus
      by_contra hsource
      obtain ⟨updated, hok⟩ := htakes.accepts run (by simpa using hsource)
      exact hrefused run hfind (fun h => absurd rfl h) updated hok
    . unfold Stored.step
      rw [hrun, heq]
      rfl
  . obtain ⟨hsource, hupdated⟩ := htakes.status run updated hok
    obtain ⟨hconversation, hrunId⟩ := htakes.ids run updated hok
    obtain ⟨hfiledConversation, hfiledRun⟩ := hs.filed conversationId runId run hfind
    have hstep : Stored.step config storage s ⟨operation, clock⟩
        = (⟨storage.settle (config.upsertLocked clock.evicts s.runs updated)⟩, .ok (some updated)) := by
      unfold Stored.step
      rw [hrun, heq]
      rfl
    apply Marked.written updated run.status (statusOf_eq_some.mpr ⟨run, hfind, rfl⟩) hsource
    . rw [hstep]
    . rw [hstep]
      rw [← hfiledConversation, ← hfiledRun, ← hconversation, ← hrunId, ← hupdated]
      exact holds_of_written (hs.upserted config clock.evicts updated)

inductive TerminalStatus where
  | completed
  | failed
  | stopped
  deriving DecidableEq, Repr

namespace TerminalStatus

def text : TerminalStatus → String
  | .completed => "completed"
  | .failed => "failed"
  | .stopped => "stopped"

def runStatus : TerminalStatus → SubAgentRunStatus
  | .completed => .completed
  | .failed => .failed
  | .stopped => .cancelled

end TerminalStatus

inductive Synced (target : SubAgentRunStatus) (conversationId runId : String) (s s' : Stored F) : Prop where
  | unchanged (hstatus : ∀ status, statusOf s conversationId runId = some status → status.isActive = false)
    (hsame : s' = s)
  | changed (status : SubAgentRunStatus) (hstatus : statusOf s conversationId runId = some status)
    (hactive : status.isActive = true)
    (hholds : Holds s' (withStatus (statusOf s) conversationId runId target))

omit [PyFloat F] in
theorem Holds.withStatus_twice {next : Stored F} {between target : SubAgentRunStatus}
    (h : Holds next (withStatus (statusOf s) conversationId runId between))
    (h' : Holds s' (withStatus (statusOf next) conversationId runId target))
    : Holds s' (withStatus (statusOf s) conversationId runId target) := by
  constructor
  . intro conversationId' runId' status hstatus
    have hnext := h'.kept conversationId' runId' status hstatus
    unfold withStatus at hnext ⊢
    split
    . next hids => rwa [if_pos hids] at hnext
    . next hids =>
      rw [if_neg hids] at hnext
      have hbefore := h.kept conversationId' runId' status hnext
      rwa [withStatus, if_neg hids] at hbefore
  . intro conversationId' runId' status hstatus hactive
    apply h'.active conversationId' runId' status _ hactive
    unfold withStatus at hstatus ⊢
    split
    . next hids => rwa [if_pos hids] at hstatus
    . next hids =>
      rw [if_neg hids] at hstatus
      apply h.active conversationId' runId' status _ hactive
      rwa [withStatus, if_neg hids]

theorem isActive_iff (status : SubAgentRunStatus)
    : status.isActive = true ↔ status = .pending ∨ status = .running := by
  cases status <;> decide

section Marks

variable (hs : s.Sound storage) (conversationId runId : String) (clock : Clock)
include hs

theorem marked_running
    : Marked (· = .pending) .running conversationId runId s
        (Stored.step config storage s ⟨.markRunning conversationId runId .empty [], clock⟩) :=
  marked_of_takes hs clock (takes_start clock.now) rfl

theorem marked_completed
    : Marked (· = .running) .completed conversationId runId s
        (Stored.step config storage s ⟨.markCompleted conversationId runId none none none .empty [], clock⟩) :=
  marked_of_takes hs clock (takes_complete clock.now) rfl

theorem marked_failed (error : String)
    : Marked (· = .running) .failed conversationId runId s
        (Stored.step config storage s ⟨.markFailed conversationId runId error none .empty [], clock⟩) :=
  marked_of_takes hs clock (takes_fail error clock.now) rfl

theorem marked_cancelled (reason : Option String)
    : Marked (·.isActive) .cancelled conversationId runId s
        (Stored.step config storage s ⟨.markCancelled conversationId runId reason .empty [], clock⟩) :=
  marked_of_takes hs clock (takes_cancel reason clock.now) rfl

end Marks

theorem synced_markStarted (hs : s.Sound storage) (conversationId runId : String) (clock : Nat → Clock)
    {mark : SubagentRuns.Operation F}
    (hmark : ∀ (s : Stored F) (clock : Clock), s.Sound storage →
      Marked (· = .running) target conversationId runId s (Stored.step config storage s ⟨mark, clock⟩))
    : Synced target conversationId runId s (markStarted config storage s conversationId runId mark clock) := by
  unfold markStarted
  cases hmark s (clock 0) hs with
  | written updated status hstatus hsource hreply hholds =>
    rcases hstep : Stored.step config storage s ⟨mark, clock 0⟩ with ⟨next, reply⟩
    rw [hstep] at hreply hholds
    dsimp only at hreply hholds
    rw [hreply]
    apply Synced.changed status hstatus _ hholds
    rw [of_decide_eq_true hsource]
    rfl
  | refused hnotRunning hresult =>
    rw [hresult]
    dsimp only
    cases marked_running hs conversationId runId (clock 1) with
    | refused hnotPending hresult =>
      rw [hresult]
      apply Synced.unchanged _ rfl
      intro status hstatus
      have hrunning := hnotRunning status hstatus
      have hpending := hnotPending status hstatus
      rw [decide_eq_false_iff_not] at hrunning hpending
      rw [← Bool.not_eq_true, isActive_iff]
      tauto
    | written updated status hstatus hsource hreply hholds =>
      have hsound := Stored.sound_step config hs ⟨.markRunning conversationId runId .empty [], clock 1⟩
      rcases hstep : Stored.step config storage s ⟨.markRunning conversationId runId .empty [], clock 1⟩ with
        ⟨next, reply⟩
      rw [hstep] at hreply hholds hsound
      dsimp only at hreply hholds hsound
      rw [hreply]
      have hactive : status.isActive = true := by
        rw [of_decide_eq_true hsource]
        rfl
      have hrunning : statusOf next conversationId runId = some .running := by
        apply hholds.active
        . rw [withStatus, if_pos ⟨rfl, rfl⟩]
        . rfl
      cases hmark next (clock 2) hsound with
      | refused hnotRunning' hresult =>
        have := hnotRunning' .running hrunning
        cases this
      | written updated' status' hstatus' hsource' hreply' hholds' =>
        exact .changed status hstatus hactive (hholds.withStatus_twice hholds')

theorem synced_cancelled (hs : s.Sound storage) (conversationId runId : String) (reason : Option String)
    (clock : Clock)
    : Synced .cancelled conversationId runId s
        (Stored.step config storage s ⟨.markCancelled conversationId runId reason .empty [], clock⟩).1 := by
  cases marked_cancelled hs conversationId runId clock reason with
  | refused hstatus hresult =>
    rw [hresult]
    exact .unchanged hstatus rfl
  | written updated status hstatus hsource hreply hholds => exact .changed status hstatus hsource hholds

theorem sound_markStarted (hs : s.Sound storage) (conversationId runId : String) (mark : SubagentRuns.Operation F)
    (clock : Nat → Clock)
    : (markStarted config storage s conversationId runId mark clock).Sound storage := by
  unfold markStarted
  have hfirst := Stored.sound_step config hs ⟨mark, clock 0⟩
  split
  . next next heq =>
    rw [heq] at hfirst
    have hsecond := Stored.sound_step config hfirst ⟨.markRunning conversationId runId .empty [], clock 1⟩
    split
    . next after _ heq' =>
      rw [heq'] at hsecond
      exact Stored.sound_step config hsecond ⟨mark, clock 2⟩
    . next after _ heq' =>
      rw [heq'] at hsecond
      exact hsecond
  . next next _ heq =>
    rw [heq] at hfirst
    exact hfirst

theorem sound_syncRunRegistryStatus (hs : s.Sound storage) (conversationId runId status : String)
    (clock : Nat → Clock)
    : (syncRunRegistryStatus config storage s conversationId runId status clock).Sound storage := by
  unfold syncRunRegistryStatus
  split_ifs
  . exact Stored.sound_step config hs _
  . exact sound_markStarted hs conversationId runId _ clock
  . exact sound_markStarted hs conversationId runId _ clock
  . exact Stored.sound_step config hs _
  . exact hs

theorem synced_syncRunRegistryStatus (hs : s.Sound storage) (conversationId runId : String)
    (status : TerminalStatus) (clock : Nat → Clock)
    : Synced status.runStatus conversationId runId s
        (syncRunRegistryStatus config storage s conversationId runId status.text clock) := by
  cases status with
  | completed =>
    apply synced_markStarted hs
    intro s clock hs
    exact marked_completed hs conversationId runId clock
  | failed =>
    apply synced_markStarted hs
    intro s clock hs
    exact marked_failed hs conversationId runId clock "Spawn failed"
  | stopped => exact synced_cancelled hs conversationId runId _ (clock 0)

end Holds

end Spawn
end Agent
end MemStack
