import MemStack.Agent.Subagent.ParallelSchedulerRuns

/-!
This module contains the events of the parallel scheduler, with an abort signal that may be set at any time: each
sub-task that is started is completed once, and the summary counts it unless its process ends without an error
text.
-/

namespace MemStack
namespace Agent
namespace Subagent

open Waiting

variable {F : Type}

namespace SchedulerEvent

def startedId : SchedulerEvent F → Option String
  | .subtaskStarted taskId _ _ => some taskId
  | .subtaskCompleted .. => none

def finishedId : SchedulerEvent F → Option String
  | .subtaskStarted .. => none
  | .subtaskCompleted taskId _ _ => some taskId

end SchedulerEvent

namespace RunTaskContext

variable (s : RunTaskContext F)

def startedIds : List String :=
  s.eventQueue.filterMap SchedulerEvent.startedId

def finishedIds : List String :=
  s.eventQueue.filterMap SchedulerEvent.finishedId

def openIds : List String :=
  s.startedIds.filter (· ∉ s.finishedIds)

def succeeded : Nat :=
  s.executions.values.countP fun execution => execution.completed && execution.error.getD "" = ""

def failed : Nat :=
  s.executions.values.countP fun execution => execution.error.getD "" ≠ ""

def abortedStep (turn : Turn) : Option (RunTaskContext F) :=
  match s.executions.get turn.taskId with
  | none => none
  | some execution =>
    match execution.place with
    | .waiting => some (s.put turn.taskId { execution with place := .ended })
    | _ => s.step turn

end RunTaskContext

structure AbortableRun (F : Type) where
  ctx : RunTaskContext F
  aborted : Bool

inductive SchedulerRequest where
  | setAbort
  | turn (turn : Turn)

namespace AbortableRun

def step (s : AbortableRun F) : SchedulerRequest → Option (AbortableRun F)
  | .setAbort => some { s with aborted := true }
  | .turn turn =>
    (if s.aborted then s.ctx.abortedStep turn else s.ctx.step turn).map fun ctx => { s with ctx }

def Loses (s : AbortableRun F) (request : SchedulerRequest) : Prop :=
  ∃ turn execution, request = .turn turn ∧ s.ctx.executions.get turn.taskId = some execution ∧
    execution.place = .running ∧ (turn.outcome = .raised "" ∨ turn.outcome = .cancelled)

end AbortableRun

namespace RunTaskContext

open ParallelScheduler

variable {s s' : RunTaskContext F} {turn : Turn} {id : String} {execution execution' : SubTaskExecution F}

inductive Effect (s s' : RunTaskContext F) (turn : Turn) (execution execution' : SubTaskExecution F) : Prop where
  | quiet (before : execution.place = .waiting ∨ execution.place = .queued)
    (after : execution'.place = .queued ∨ execution'.place = .ended)
    (passed : execution'.place = .queued → ∀ dep ∈ execution.subtask.dependencies, Held s.completedIds dep)
    (completed : execution'.completed = execution.completed) (error : execution'.error = execution.error)
    (eventQueue : s'.eventQueue = s.eventQueue) (completedIds : s'.completedIds = s.completedIds)
  | starts (name : String) (description : Json F) (before : execution.place = .queued)
    (after : execution'.place = .running) (slot : s.running < s.semaphore)
    (completed : execution'.completed = execution.completed) (error : execution'.error = execution.error)
    (eventQueue : s'.eventQueue = s.eventQueue ++ [.subtaskStarted turn.taskId name description])
    (completedIds : s'.completedIds = s.completedIds)
  | completes (success : Bool) (error : Option String) (before : execution.place = .running)
    (after : execution' = withOutcome turn.taskId execution turn.outcome)
    (eventQueue : s'.eventQueue = s.eventQueue ++ [.subtaskCompleted turn.taskId success error])
    (completedIds : s'.completedIds = s.completedIds ++ [turn.taskId])

structure Advances (s : RunTaskContext F) (turn : Turn) (s' : RunTaskContext F)
    (execution execution' : SubTaskExecution F) : Prop where
  found : s.executions.get turn.taskId = some execution
  effect : Effect s s' turn execution execution'
  same : execution'.subtask = execution.subtask
  executions : s'.executions = s.executions.set turn.taskId execution'
  semaphore : s'.semaphore = s.semaphore

theorem advances_of_step (h : s.step turn = some s')
    : ∃ execution execution', Advances s turn s' execution execution' := by
  obtain ⟨execution, hfound, hcases⟩ := step_cases h
  rcases hcases with ⟨hplace, _, hheld, rfl⟩ | ⟨hplace, _, _, rfl⟩ | ⟨hplace, _, _, rfl⟩ |
    ⟨hplace, hslot, description, _, rfl⟩ | ⟨hplace, rfl⟩
  . exact ⟨execution, { execution with place := .queued }, hfound,
      .quiet (.inl hplace) (.inl rfl) (fun _ => hheld) rfl rfl rfl rfl, rfl, rfl, rfl⟩
  . exact ⟨execution, { execution with place := .ended }, hfound,
      .quiet (.inl hplace) (.inr rfl) (fun hqueued => by cases hqueued) rfl rfl rfl rfl, rfl, rfl, rfl⟩
  . exact ⟨execution, { execution with started := true, place := .ended }, hfound,
      .quiet (.inr hplace) (.inr rfl) (fun hqueued => by cases hqueued) rfl rfl rfl rfl, rfl, rfl, rfl⟩
  . exact ⟨execution, { execution with started := true, place := .running }, hfound,
      .starts _ description hplace rfl hslot rfl rfl rfl rfl, rfl, rfl, rfl⟩
  . exact ⟨execution, withOutcome turn.taskId execution turn.outcome, hfound, .completes _ _ hplace rfl rfl rfl,
      withOutcome_subtask turn.taskId execution turn.outcome, rfl, rfl⟩

theorem advances_of_abortedStep (h : s.abortedStep turn = some s')
    : ∃ execution execution', Advances s turn s' execution execution' := by
  unfold abortedStep at h
  cases hfound : s.executions.get turn.taskId with
  | none =>
    rw [hfound] at h
    cases h
  | some execution =>
    rw [hfound] at h
    dsimp only at h
    split at h
    . next hplace =>
      cases h
      refine ⟨execution, { execution with place := .ended }, hfound,
        .quiet (.inl hplace) (.inr rfl) ?_ rfl rfl rfl rfl, rfl, rfl, rfl⟩
      intro hqueued
      cases hqueued
    . exact advances_of_step h

structure PairedAt (s : RunTaskContext F) (id : String) (execution : SubTaskExecution F) : Prop where
  idle : execution.place = .waiting ∨ execution.place = .queued → id ∉ s.startedIds
  queued : execution.place = .queued → ∀ dep ∈ execution.subtask.dependencies, Held s.completedIds dep
  running : execution.place = .running ↔ id ∈ s.startedIds ∧ id ∉ s.completedIds
  unfinished : id ∉ s.completedIds → execution.completed = false ∧ execution.error = none

structure Paired (s : RunTaskContext F) : Prop where
  finished : s.finishedIds = s.completedIds
  startedNodup : s.startedIds.Nodup
  finishedNodup : s.completedIds.Nodup
  known : ∀ id ∈ s.startedIds, ∃ execution, s.executions.get id = some execution
  started : ∀ id ∈ s.completedIds, id ∈ s.startedIds
  each : ∀ id execution, s.executions.get id = some execution → PairedAt s id execution
  slots : s.running ≤ s.semaphore

theorem paired_of_fresh (h : s.Fresh) (hqueue : s.eventQueue = [])
    (hresults : ∀ execution ∈ s.executions.values, execution.completed = false ∧ execution.error = none)
    : s.Paired := by
  have hstarted : s.startedIds = [] := by
    unfold startedIds
    rw [hqueue]
    rfl
  have hfinished : s.finishedIds = [] := by
    unfold finishedIds
    rw [hqueue]
    rfl
  refine ⟨?_, ?_, ?_, ?_, ?_, ?_, ?_⟩
  . rw [hfinished, h.completedIds]
  . rw [hstarted]
    exact List.nodup_nil
  . rw [h.completedIds]
    exact List.nodup_nil
  . rw [hstarted]
    intro id hid
    cases hid
  . rw [h.completedIds]
    intro id hid
    cases hid
  . intro id execution hget
    have hmem := Dict.mem_values.mpr ⟨id, hget⟩
    have hplace := h.waiting execution hmem
    constructor
    . rw [hstarted]
      intro _ hid
      cases hid
    . intro hqueued
      cases hplace.symm.trans hqueued
    . rw [hplace, hstarted]
      simp
    . intro _
      exact hresults execution hmem
  . have hnone : s.executions.values.filter (fun execution => execution.place = .running) = [] := by
      rw [List.filter_eq_nil_iff]
      intro execution hmem
      rw [h.waiting execution hmem]
      decide
    unfold running
    rw [hnone]
    exact Nat.zero_le _

namespace Advances

theorem get (h : Advances s turn s' execution execution') (id : String)
    : s'.executions.get id = if id = turn.taskId then some execution' else s.executions.get id := by
  rw [h.executions, Dict.get_set]

theorem running (h : Advances s turn s' execution execution')
    : s'.running + (if execution.place = .running then 1 else 0)
        = s.running + if execution'.place = .running then 1 else 0 := by
  have hcount := Dict.count_set_of_get (fun execution : SubTaskExecution F => decide (execution.place = .running))
    h.found execution'
  unfold RunTaskContext.running
  rw [h.executions, ← List.countP_eq_length_filter, ← List.countP_eq_length_filter]
  simpa [Dict.count] using hcount

theorem other (h : Advances s turn s' execution execution') {P : String → SubTaskExecution F → Prop}
    (hsame : ∀ id execution, id ≠ turn.taskId → s.executions.get id = some execution → P id execution)
    (hself : P turn.taskId execution')
    : ∀ id execution, s'.executions.get id = some execution → P id execution := by
  intro id execution'' hget
  rw [h.get] at hget
  split at hget
  . next heq =>
    cases hget
    rw [heq]
    exact hself
  . next hne => exact hsame id execution'' hne hget

end Advances

theorem PairedAt.congr {executions : SubTaskExecution F} (h : PairedAt s id executions)
    (hstarted : id ∈ s'.startedIds ↔ id ∈ s.startedIds) (hfinished : id ∈ s'.completedIds ↔ id ∈ s.completedIds)
    (hheld : ∀ dep : Json F, Held s.completedIds dep → Held s'.completedIds dep)
    : PairedAt s' id executions := by
  constructor
  . rw [hstarted]
    exact h.idle
  . intro hqueued dep hdep
    exact hheld dep (h.queued hqueued dep hdep)
  . rw [hstarted, hfinished]
    exact h.running
  . rw [hfinished]
    exact h.unfinished

theorem known_step (h : Advances s turn s' execution execution') {id : String}
    (hid : ∃ execution, s.executions.get id = some execution)
    : ∃ execution, s'.executions.get id = some execution := by
  obtain ⟨found, hfound⟩ := hid
  rw [h.get]
  split
  . exact ⟨execution', rfl⟩
  . exact ⟨found, hfound⟩

theorem paired_step (hp : s.Paired) (h : Advances s turn s' execution execution') : s'.Paired := by
  have hat := hp.each turn.taskId execution h.found
  have hrunning := h.running
  have hsemaphore := h.semaphore
  have hslots := hp.slots
  cases h.effect with
  | quiet hbefore hafter hpassed hcompleted herror hqueue hids =>
    have hstarted : s'.startedIds = s.startedIds := by
      unfold startedIds
      rw [hqueue]
    have hfinished : s'.finishedIds = s.finishedIds := by
      unfold finishedIds
      rw [hqueue]
    have hidle := hat.idle hbefore
    have hnot : turn.taskId ∉ s.completedIds := fun hid => hidle (hp.started _ hid)
    refine ⟨?_, ?_, ?_, ?_, ?_, ?_, ?_⟩
    . rw [hfinished, hids]
      exact hp.finished
    . rw [hstarted]
      exact hp.startedNodup
    . rw [hids]
      exact hp.finishedNodup
    . rw [hstarted]
      exact fun id hid => known_step h (hp.known id hid)
    . rw [hstarted, hids]
      exact hp.started
    . apply h.other (P := s'.PairedAt)
      . intro id other _ hget
        exact (hp.each id other hget).congr (by rw [hstarted]) (by rw [hids]) (fun dep hdep => by rw [hids]; exact hdep)
      . constructor
        . rw [hstarted]
          exact fun _ => hidle
        . rw [h.same, hids]
          exact hpassed
        . rw [hstarted, hids]
          apply iff_of_false
          . rcases hafter with hafter | hafter
            . rw [hafter]
              decide
            . rw [hafter]
              decide
          . exact fun hid => hidle hid.1
        . intro _
          rw [hcompleted, herror]
          exact hat.unfinished hnot
    . rw [if_neg (by rcases hbefore with h | h <;> rw [h] <;> decide),
        if_neg (by rcases hafter with h | h <;> rw [h] <;> decide)] at hrunning
      omega
  | starts name description hbefore hafter hslot hcompleted herror hqueue hids =>
    have hstarted : s'.startedIds = s.startedIds ++ [turn.taskId] := by
      unfold startedIds
      rw [hqueue, List.filterMap_append]
      rfl
    have hfinished : s'.finishedIds = s.finishedIds := by
      unfold finishedIds
      rw [hqueue, List.filterMap_append]
      exact List.append_nil _
    have hidle := hat.idle (.inr hbefore)
    have hnot : turn.taskId ∉ s.completedIds := fun hid => hidle (hp.started _ hid)
    refine ⟨?_, ?_, ?_, ?_, ?_, ?_, ?_⟩
    . rw [hfinished, hids]
      exact hp.finished
    . rw [hstarted]
      exact hp.startedNodup.append (List.nodup_singleton _) (by simpa using hidle)
    . rw [hids]
      exact hp.finishedNodup
    . rw [hstarted]
      intro id hid
      rw [List.mem_append, List.mem_singleton] at hid
      rcases hid with hid | rfl
      . exact known_step h (hp.known id hid)
      . exact known_step h ⟨execution, h.found⟩
    . rw [hstarted, hids]
      exact fun id hid => List.mem_append_left _ (hp.started id hid)
    . apply h.other (P := s'.PairedAt)
      . intro id other hne hget
        exact (hp.each id other hget).congr (by rw [hstarted]; simp [hne]) (by rw [hids])
          (fun dep hdep => by rw [hids]; exact hdep)
      . constructor
        . rw [hafter]
          intro hfalse
          rcases hfalse with hfalse | hfalse
          . cases hfalse
          . cases hfalse
        . rw [hafter]
          intro hfalse
          cases hfalse
        . rw [hafter, hstarted, hids]
          exact iff_of_true rfl ⟨by simp, hnot⟩
        . intro _
          rw [hcompleted, herror]
          exact hat.unfinished hnot
    . rw [if_neg (by rw [hbefore]; decide), if_pos hafter] at hrunning
      omega
  | completes success error hbefore hafter hqueue hids =>
    have hstarted : s'.startedIds = s.startedIds := by
      unfold startedIds
      rw [hqueue, List.filterMap_append]
      exact List.append_nil _
    have hfinished : s'.finishedIds = s.finishedIds ++ [turn.taskId] := by
      unfold finishedIds
      rw [hqueue, List.filterMap_append]
      rfl
    obtain ⟨hin, hnot⟩ := hat.running.mp hbefore
    have hended : execution'.place = .ended := by
      rw [hafter]
      cases turn.outcome <;> rfl
    refine ⟨?_, ?_, ?_, ?_, ?_, ?_, ?_⟩
    . rw [hfinished, hids, hp.finished]
    . rw [hstarted]
      exact hp.startedNodup
    . rw [hids]
      exact hp.finishedNodup.append (List.nodup_singleton _) (by simpa using hnot)
    . rw [hstarted]
      exact fun id hid => known_step h (hp.known id hid)
    . rw [hstarted, hids]
      intro id hid
      rw [List.mem_append, List.mem_singleton] at hid
      rcases hid with hid | rfl
      . exact hp.started id hid
      . exact hin
    . apply h.other (P := s'.PairedAt)
      . intro id other hne hget
        exact (hp.each id other hget).congr (by rw [hstarted]) (by rw [hids]; simp [hne])
          (fun dep hdep => by rw [hids]; exact held_concat hdep)
      . constructor
        . rw [hended]
          intro hfalse
          rcases hfalse with hfalse | hfalse
          . cases hfalse
          . cases hfalse
        . rw [hended]
          intro hfalse
          cases hfalse
        . rw [hended, hids]
          apply iff_of_false (by decide)
          simp
        . rw [hids]
          intro hfalse
          simp at hfalse
    . rw [if_pos hbefore, if_neg (by rw [hended]; decide)] at hrunning
      omega

def SubTaskExecution.counted (execution : SubTaskExecution F) : Bool :=
  execution.completed || execution.error.getD "" ≠ ""

def Accounted (s : RunTaskContext F) : Prop :=
  ∀ id ∈ s.completedIds, ∀ execution, s.executions.get id = some execution → SubTaskExecution.counted execution = true

theorem counted_withOutcome (hcompleted : execution.completed = false) (herror : execution.error = none)
    (id : String) (outcome : ProcessOutcome)
    : SubTaskExecution.counted (withOutcome id execution outcome) = true ↔
        ¬(outcome = .raised "" ∨ outcome = .cancelled) := by
  unfold SubTaskExecution.counted
  cases outcome with
  | finished => simp [withOutcome]
  | timedOut =>
    have htext : s!"Task {id} timed out" ≠ "" := by
      intro hempty
      have hlength := congrArg String.length hempty
      simp only [String.length_append, String.length_empty] at hlength
      have htimed : (toString " timed out").length = 10 := by decide
      omega
    simp [withOutcome, hcompleted, htext]
  | raised message => simp [withOutcome, hcompleted]
  | cancelled => simp [withOutcome, hcompleted, herror]

theorem accounted_step (hp : s.Paired) (h : Advances s turn s' execution execution')
    : s'.Accounted ↔ s.Accounted ∧
        ¬(execution.place = .running ∧ (turn.outcome = .raised "" ∨ turn.outcome = .cancelled)) := by
  have hat := hp.each turn.taskId execution h.found
  have hquiet (hids : s'.completedIds = s.completedIds) (hbefore : execution.place ≠ .running)
      (hnot : turn.taskId ∉ s.completedIds)
      : s'.Accounted ↔ s.Accounted ∧
          ¬(execution.place = .running ∧ (turn.outcome = .raised "" ∨ turn.outcome = .cancelled)) := by
    rw [and_iff_left (fun hlost => hbefore hlost.1)]
    unfold Accounted
    rw [hids]
    apply forall₂_congr
    intro id hid
    have hne : id ≠ turn.taskId := by
      rintro rfl
      exact hnot hid
    rw [h.get, if_neg hne]
  cases h.effect with
  | quiet hbefore _ _ _ _ _ hids =>
    have hidle := hat.idle hbefore
    apply hquiet hids
    . rcases hbefore with hbefore | hbefore
      . rw [hbefore]
        decide
      . rw [hbefore]
        decide
    . exact fun hid => hidle (hp.started _ hid)
  | starts _ _ hbefore _ _ _ _ _ hids =>
    have hidle := hat.idle (.inr hbefore)
    apply hquiet hids
    . rw [hbefore]
      decide
    . exact fun hid => hidle (hp.started _ hid)
  | completes _ _ hbefore hafter _ hids =>
    obtain ⟨-, hnot⟩ := hat.running.mp hbefore
    obtain ⟨hcompleted, herror⟩ := hat.unfinished hnot
    have hself := counted_withOutcome hcompleted herror turn.taskId turn.outcome
    rw [← hafter] at hself
    rw [and_iff_right hbefore, ← hself]
    unfold Accounted
    rw [hids]
    constructor
    . intro hall
      constructor
      . intro id hid other hother
        have hne : id ≠ turn.taskId := by
          rintro rfl
          exact hnot hid
        exact hall id (List.mem_append_left _ hid) other (by rw [h.get, if_neg hne]; exact hother)
      . exact hall turn.taskId (by simp) execution' (by rw [h.get, if_pos rfl])
    . rintro ⟨hall, hself⟩ id hid other hother
      rw [h.get] at hother
      split at hother
      . cases hother
        exact hself
      . next hne =>
        rw [List.mem_append, List.mem_singleton] at hid
        exact hall id (hid.resolve_right hne) other hother

theorem succeeded_add_failed (s : RunTaskContext F)
    : s.succeeded + s.failed = s.executions.values.countP SubTaskExecution.counted := by
  have heach (execution : SubTaskExecution F)
      : (if (execution.completed && decide (execution.error.getD "" = "")) = true then 1 else 0)
          + (if decide (execution.error.getD "" ≠ "") = true then 1 else 0)
          = if SubTaskExecution.counted execution = true then 1 else 0 := by
    unfold SubTaskExecution.counted
    by_cases herror : execution.error.getD "" = ""
    . simp [herror]
    . simp [herror]
  unfold succeeded failed
  induction s.executions.values with
  | nil => rfl
  | cons execution executions ih =>
    have hfirst := heach execution
    rw [List.countP_cons, List.countP_cons, List.countP_cons]
    omega

theorem length_eq_iff_subset {l l' : List String} (hl : l.Nodup) (hl' : l'.Nodup) (hsub : l ⊆ l')
    : l.length = l'.length ↔ l' ⊆ l := by
  have hperm := List.subperm_of_subset hl hsub
  constructor
  . intro hlength
    exact (hperm.perm_of_length_le (Nat.le_of_eq hlength.symm)).symm.subset
  . intro hsup
    exact Nat.le_antisymm hperm.length_le (List.subperm_of_subset hl' hsup).length_le

theorem openIds_le (hp : s.Paired) : s.openIds.length ≤ s.semaphore := by
  let keys := (s.executions.entries.filter fun e => e.2.place = .running).map Prod.fst
  have hsub : s.openIds ⊆ keys := by
    intro id hid
    unfold openIds at hid
    rw [List.mem_filter, decide_eq_true_eq, hp.finished] at hid
    obtain ⟨execution, hget⟩ := hp.known id hid.1
    have hrunning := (hp.each id execution hget).running.mpr hid
    rw [List.mem_map]
    exact ⟨(id, execution), List.mem_filter.mpr ⟨Dict.get_eq_some.mp hget, by simpa using hrunning⟩, rfl⟩
  have hlength : keys.length = s.running := by
    unfold running Dict.values
    rw [List.length_map, List.filter_map, List.length_map]
    rfl
  have hle := (List.subperm_of_subset (hp.startedNodup.filter _) hsub).length_le
  rw [hlength] at hle
  exact Nat.le_trans hle hp.slots

theorem finished_of_sentinel (hp : s.Paired) (hsentinel : s.sentinel) {id : String} (hid : id ∈ s.startedIds)
    : id ∈ s.completedIds := by
  obtain ⟨execution, hget⟩ := hp.known id hid
  have hended := hsentinel execution (Dict.mem_values.mpr ⟨id, hget⟩)
  by_contra hnot
  have hrunning := (hp.each id execution hget).running.mpr ⟨hid, hnot⟩
  rw [hended] at hrunning
  cases hrunning

theorem summary_iff (hp : s.Paired) (hsentinel : s.sentinel)
    : s.succeeded + s.failed = s.startedIds.length ↔ s.Accounted := by
  let keys := (s.executions.entries.filter fun e => SubTaskExecution.counted e.2).map Prod.fst
  have hlength : keys.length = s.succeeded + s.failed := by
    rw [succeeded_add_failed]
    unfold Dict.values
    rw [List.length_map, List.countP_map, List.countP_eq_length_filter]
    rfl
  have hnodup : keys.Nodup := (List.filter_sublist.map _).nodup s.executions.nodup
  have hmem (id : String) : id ∈ keys ↔
      ∃ execution, s.executions.get id = some execution ∧ SubTaskExecution.counted execution = true := by
    rw [List.mem_map]
    constructor
    . rintro ⟨⟨id, execution⟩, hentry, rfl⟩
      rw [List.mem_filter] at hentry
      exact ⟨execution, Dict.get_eq_some.mpr hentry.1, hentry.2⟩
    . rintro ⟨execution, hget, hcounted⟩
      exact ⟨(id, execution), List.mem_filter.mpr ⟨Dict.get_eq_some.mp hget, hcounted⟩, rfl⟩
  have hsub : keys ⊆ s.completedIds := by
    intro id hid
    obtain ⟨execution, hget, hcounted⟩ := (hmem id).mp hid
    by_contra hnot
    obtain ⟨hcompleted, herror⟩ := (hp.each id execution hget).unfinished hnot
    unfold SubTaskExecution.counted at hcounted
    rw [hcompleted, herror] at hcounted
    cases hcounted
  have hsame : s.completedIds.length = s.startedIds.length := by
    apply (length_eq_iff_subset hp.finishedNodup hp.startedNodup hp.started).mpr
    intro id hid
    exact finished_of_sentinel hp hsentinel hid
  rw [← hlength, ← hsame, length_eq_iff_subset hnodup hp.finishedNodup hsub]
  constructor
  . intro hall id hid execution hget
    obtain ⟨execution', hget', hcounted⟩ := (hmem id).mp (hall hid)
    rw [hget, Option.some.injEq] at hget'
    rw [hget']
    exact hcounted
  . intro hall id hid
    obtain ⟨execution, hget⟩ := hp.known id (hp.started id hid)
    exact (hmem id).mpr ⟨execution, hget, hall id hid execution hget⟩

end RunTaskContext

namespace AbortableRun

open ParallelScheduler RunTaskContext

variable {s s' : AbortableRun F} {request : SchedulerRequest}

theorem step_cases (h : s.step request = some s')
    : (request = .setAbort ∧ s'.ctx = s.ctx) ∨
        ∃ turn execution execution', request = .turn turn ∧
          RunTaskContext.Advances s.ctx turn s'.ctx execution execution' := by
  cases request with
  | setAbort =>
    cases h
    exact .inl ⟨rfl, rfl⟩
  | turn turn =>
    right
    refine ⟨turn, ?_⟩
    unfold step at h
    dsimp only at h
    rw [Option.map_eq_some_iff] at h
    obtain ⟨ctx, hctx, rfl⟩ := h
    split at hctx
    . obtain ⟨execution, execution', hadvances⟩ := advances_of_abortedStep hctx
      exact ⟨execution, execution', rfl, hadvances⟩
    . obtain ⟨execution, execution', hadvances⟩ := advances_of_step hctx
      exact ⟨execution, execution', rfl, hadvances⟩

theorem paired_step (hp : s.ctx.Paired) (h : s.step request = some s') : s'.ctx.Paired := by
  rcases step_cases h with ⟨-, hsame⟩ | ⟨turn, execution, execution', -, hadvances⟩
  . rw [hsame]
    exact hp
  . exact RunTaskContext.paired_step hp hadvances

theorem semaphore_step (h : s.step request = some s') : s'.ctx.semaphore = s.ctx.semaphore := by
  rcases step_cases h with ⟨-, hsame⟩ | ⟨turn, execution, execution', -, hadvances⟩
  . rw [hsame]
  . exact hadvances.semaphore

theorem accounted_step (hp : s.ctx.Paired) (h : s.step request = some s')
    : s'.ctx.Accounted ↔ s.ctx.Accounted ∧ ¬s.Loses request := by
  rcases step_cases h with ⟨rfl, hsame⟩ | ⟨turn, execution, execution', rfl, hadvances⟩
  . rw [hsame, iff_self_and]
    rintro _ ⟨turn, execution, hrequest, -⟩
    cases hrequest
  . rw [RunTaskContext.accounted_step hp hadvances]
    apply and_congr_right
    intro _
    apply not_congr
    constructor
    . rintro ⟨hplace, houtcome⟩
      exact ⟨turn, execution, rfl, hadvances.found, hplace, houtcome⟩
    . rintro ⟨turn', execution'', hturn, hget, hplace, houtcome⟩
      cases hturn
      rw [hadvances.found, Option.some.injEq] at hget
      rw [hget]
      exact ⟨hplace, houtcome⟩

theorem held_of_started (hp : s.ctx.Paired) (h : s.step request = some s') {id name : String} {description : Json F}
    (hqueue : s'.ctx.eventQueue = s.ctx.eventQueue ++ [.subtaskStarted id name description])
    : ∃ execution, s.ctx.executions.get id = some execution ∧
        ∀ dep ∈ execution.subtask.dependencies, isCompleted s.ctx.completedIds dep = some true := by
  rcases step_cases h with ⟨-, hsame⟩ | ⟨turn, execution, execution', -, hadvances⟩
  . rw [hsame] at hqueue
    simp at hqueue
  . cases hadvances.effect with
    | quiet _ _ _ _ _ hsame _ =>
      rw [hsame] at hqueue
      simp at hqueue
    | starts _ _ hbefore _ _ _ _ hevents _ =>
      rw [hevents, List.append_cancel_left_eq] at hqueue
      cases hqueue
      refine ⟨execution, hadvances.found, ?_⟩
      intro dep hdep
      obtain ⟨id, hid, rfl⟩ := (hp.each _ execution hadvances.found).queued hbefore dep hdep
      simp [isCompleted, hid]
    | completes _ _ _ _ hevents _ =>
      rw [hevents, List.append_cancel_left_eq] at hqueue
      cases hqueue

end AbortableRun

/--
Over every run of the coroutines: no more sub-tasks are between their events than there are slots, each is
started when its dependencies are completed, and completed once, before the end of the stream. The summary
counts all that were started if and only if no process raises an exception without a text or is cancelled.
-/
theorem started_completed_iff [PyFloat F] (config : ParallelSchedulerConfig) (subtasks : List (SubTask F))
    (agentMap : Dict String SubAgent) (ctx : RunTaskContext F)
    (hlaunch : ParallelScheduler.launch config subtasks agentMap = some ctx) (aborted : Bool)
    (requests : List SchedulerRequest) (s : AbortableRun F)
    (hrun : run AbortableRun.step ⟨ctx, aborted⟩ requests = some s)
    : s.ctx.openIds.length ≤ config.maxConcurrency.toNat ∧
      (∀ request s' id name description, s.step request = some s' →
        s'.ctx.eventQueue = s.ctx.eventQueue ++ [.subtaskStarted id name description] →
        ∃ execution, s.ctx.executions.get id = some execution ∧
          ∀ dep ∈ execution.subtask.dependencies,
            ParallelScheduler.isCompleted s.ctx.completedIds dep = some true) ∧
      (s.ctx.startedIds.Nodup ∧ s.ctx.finishedIds.Nodup ∧ (∀ id ∈ s.ctx.finishedIds, id ∈ s.ctx.startedIds) ∧
        (s.ctx.sentinel → ∀ id ∈ s.ctx.startedIds, id ∈ s.ctx.finishedIds)) ∧
      (s.ctx.sentinel →
        (s.ctx.succeeded + s.ctx.failed = s.ctx.startedIds.length ↔
          ∀ before request, Takes AbortableRun.step ⟨ctx, aborted⟩ requests before request →
            ¬before.Loses request)) := by
  obtain ⟨hcreated, hids, hqueue, hslots⟩ := ParallelScheduler.launch_eq_some hlaunch
  have hstart : ctx.Paired := RunTaskContext.paired_of_fresh (ParallelScheduler.fresh_of_launch hlaunch) hqueue
    (hcreated (fun execution => execution.completed = false ∧ execution.error = none) (fun _ _ => ⟨rfl, rfl⟩))
  have hinv : ∀ (s : AbortableRun F) request s', s.step request = some s' → s.ctx.Paired → s'.ctx.Paired := by
    intro s request s' hstep hp
    exact AbortableRun.paired_step hp hstep
  have hp : s.ctx.Paired := inv_run (I := fun s : AbortableRun F => s.ctx.Paired) hinv hstart hrun
  have hsemaphore : s.ctx.semaphore = config.maxConcurrency.toNat := by
    apply inv_run (I := fun s : AbortableRun F => s.ctx.semaphore = config.maxConcurrency.toNat) _ hslots hrun
    intro s request s' hstep hsame
    rw [AbortableRun.semaphore_step hstep, hsame]
  refine ⟨?_, ?_, ⟨hp.startedNodup, ?_, ?_, ?_⟩, ?_⟩
  . rw [← hsemaphore]
    exact RunTaskContext.openIds_le hp
  . intro request s' id name description hstep hevents
    exact AbortableRun.held_of_started hp hstep hevents
  . rw [hp.finished]
    exact hp.finishedNodup
  . rw [hp.finished]
    exact hp.started
  . rw [hp.finished]
    intro hsentinel id hid
    exact RunTaskContext.finished_of_sentinel hp hsentinel hid
  . intro hsentinel
    rw [RunTaskContext.summary_iff hp hsentinel]
    have hkept := kept_run_iff (I := fun s : AbortableRun F => s.ctx.Paired)
      (P := fun s : AbortableRun F => s.ctx.Accounted) (L := AbortableRun.Loses) hinv
      (fun s request s' hp hstep => AbortableRun.accounted_step hp hstep) hstart hrun
    rw [hkept, and_iff_right]
    intro id hid
    rw [hids] at hid
    cases hid

section Example

def oneTask : List (SubTask Nat) :=
  [⟨.str "t1", .str "read", .null, [], .int 0⟩]

def taskContext (place : TaskPlace) (completedIds : List String) (error : Option String)
    (eventQueue : List (SchedulerEvent Nat))
    : RunTaskContext Nat where
  executions := Dict.empty.set "t1" {
    subtask := ⟨.str "t1", .str "read", .null, [], .int 0⟩
    subagent := ⟨"Coder"⟩
    started := place ≠ .waiting
    completed := false
    error
    place }
  completedIds
  semaphore := 1
  eventQueue

def taskTurns (outcome : ProcessOutcome) : List SchedulerRequest :=
  [.turn ⟨"t1", outcome⟩, .turn ⟨"t1", outcome⟩, .turn ⟨"t1", outcome⟩]

def finalContext (message : String) : RunTaskContext Nat :=
  taskContext .ended ["t1"] (some message)
    [.subtaskStarted "t1" "Coder" (.str "read"), .subtaskCompleted "t1" false (some message)]

theorem launch_oneTask
    : ParallelScheduler.launch ⟨1⟩ oneTask oneAgent = some (taskContext .waiting [] none []) := by
  rfl

theorem run_oneTask_failed (message : String)
    : run AbortableRun.step ⟨taskContext .waiting [] none [], false⟩ (taskTurns (.raised message))
        = some ⟨finalContext message, false⟩ := by
  rfl

theorem sentinel_finalContext (message : String) : (finalContext message).sentinel := by
  intro execution hmem
  rw [List.mem_singleton.mp hmem]

theorem outcome_of_mem {outcome : ProcessOutcome} {turn : Turn} (h : .turn turn ∈ taskTurns outcome)
    : turn.outcome = outcome := by
  unfold taskTurns at h
  simp only [List.mem_cons, List.not_mem_nil, SchedulerRequest.turn.injEq, or_false, or_self] at h
  rw [h]

theorem started_completed_failed
    : (finalContext "refused").succeeded + (finalContext "refused").failed
        = (finalContext "refused").startedIds.length := by
  have hcontract := started_completed_iff ⟨1⟩ oneTask oneAgent _ launch_oneTask false _ _ (run_oneTask_failed "refused")
  apply (hcontract.2.2.2 (sentinel_finalContext "refused")).mpr
  rintro before request htakes ⟨turn, -, rfl, -, -, houtcome⟩
  rw [outcome_of_mem htakes.mem] at houtcome
  revert houtcome
  decide

theorem lost_failure
    : ¬∀ (config : ParallelSchedulerConfig) (subtasks : List (SubTask Nat)) (agentMap : Dict String SubAgent)
        (ctx : RunTaskContext Nat), ParallelScheduler.launch config subtasks agentMap = some ctx →
        ∀ (requests : List SchedulerRequest) (s : AbortableRun Nat),
        (∀ turn, .turn turn ∈ requests → turn.outcome ≠ .cancelled) →
        run AbortableRun.step ⟨ctx, false⟩ requests = some s → s.ctx.sentinel →
        s.ctx.succeeded + s.ctx.failed = s.ctx.startedIds.length := by
  intro h
  have hsum := h ⟨1⟩ oneTask oneAgent _ launch_oneTask _ _ (fun turn hturn => by rw [outcome_of_mem hturn]; decide)
    (run_oneTask_failed "") (sentinel_finalContext "")
  revert hsum
  decide

end Example

end Subagent
end Agent
end MemStack
