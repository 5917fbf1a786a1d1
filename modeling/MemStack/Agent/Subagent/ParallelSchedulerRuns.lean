import MemStack.Agent.Subagent.ParallelScheduler
import MemStack.Util.DictCount
import MemStack.Util.JsonLemmas

/-!
This module contains which decompositions the parallel scheduler gets to the end of, whatever the order in
which their sub-tasks take their steps.
-/

namespace MemStack
namespace Agent
namespace Subagent

open Waiting

variable {F : Type} {s s' : RunTaskContext F} {turn : Turn} {id : String} {ids : List String}
  {dep : Json F}

def SubTask.awaited (task : SubTask F) : List (Json F) :=
  task.dependencies.takeWhile Json.hashable

def SubTask.looksUp (task : SubTask F) : Bool :=
  task.dependencies.all Json.hashable

def SubTask.completable (task : SubTask F) : Bool :=
  task.looksUp && (task.description.sliced 200).isSome

namespace RunTaskContext

def subtask (s : RunTaskContext F) (id : String) : Option (SubTask F) :=
  (s.executions.get id).map (·.subtask)

def Awaits (s : RunTaskContext F) (id dep : String) : Prop :=
  ∃ task, s.subtask id = some task ∧ .str dep ∈ task.awaited

-- Every dependency is one of the executions that can be completed, none depends on itself, and there is a slot
-- unless no execution gets as far as to ask for one.
structure Schedulable (s : RunTaskContext F) : Prop where
  found : ∀ id task, s.subtask id = some task → ∀ dep ∈ task.awaited,
    ∃ id' task', dep = .str id' ∧ s.subtask id' = some task' ∧ task'.completable
  acyclic : Acyclic s.Awaits
  slots : s.semaphore = 0 → ∀ id task, s.subtask id = some task → task.awaited = [] ∧ ¬task.looksUp

def Progresses (s : RunTaskContext F) : Prop :=
  ∀ turns s', run step s turns = some s' → ¬s'.Stuck ∧ turns.length ≤ 3 * s.executions.entries.length

end RunTaskContext

namespace ParallelScheduler

def Held (completedIds : List String) (dep : Json F) : Prop :=
  ∃ id ∈ completedIds, dep = .str id

theorem not_held (ids : List String) (h : ∀ id, dep ≠ .str id) : ¬Held ids dep := by
  rintro ⟨id, -, heq⟩
  exact h id heq

theorem isCompleted_cases (completedIds : List String) (dep : Json F)
    : (isCompleted completedIds dep = some true ∧ Held completedIds dep ∧ dep.hashable) ∨
        (isCompleted completedIds dep = some false ∧ ¬Held completedIds dep ∧ dep.hashable) ∨
        (isCompleted completedIds dep = none ∧ dep.hashable = false) := by
  cases dep with
  | str id =>
    by_cases hid : id ∈ completedIds
    . left
      exact ⟨by simp [isCompleted, hid], ⟨id, hid, rfl⟩, rfl⟩
    . right; left
      refine ⟨by simp [isCompleted, hid], ?_, rfl⟩
      rintro ⟨id', hid', heq⟩
      cases heq
      exact hid hid'
  | list items => exact .inr (.inr ⟨rfl, rfl⟩)
  | dict entries => exact .inr (.inr ⟨rfl, rfl⟩)
  | null => exact .inr (.inl ⟨rfl, not_held _ (by simp), rfl⟩)
  | bool b => exact .inr (.inl ⟨rfl, not_held _ (by simp), rfl⟩)
  | int n => exact .inr (.inl ⟨rfl, not_held _ (by simp), rfl⟩)
  | float x => exact .inr (.inl ⟨rfl, not_held _ (by simp), rfl⟩)

theorem allCompleted_cases (completedIds : List String) (deps : List (Json F))
    : (allCompleted completedIds deps = some true ∧ deps.all Json.hashable ∧
          ∀ dep ∈ deps, Held completedIds dep) ∨
        (allCompleted completedIds deps = some false ∧
          ∃ dep ∈ deps.takeWhile Json.hashable, ¬Held completedIds dep) ∨
        (allCompleted completedIds deps = none ∧ deps.all Json.hashable = false ∧
          ∀ dep ∈ deps.takeWhile Json.hashable, Held completedIds dep) := by
  induction deps with
  | nil => simp [allCompleted]
  | cons dep deps ih =>
    rw [allCompleted]
    rcases isCompleted_cases completedIds dep with ⟨heq, hheld, h⟩ | ⟨heq, hheld, h⟩ | ⟨heq, h⟩
    . rw [heq]
      simp only [List.all_cons, h, List.takeWhile_cons, Bool.true_and, if_true, List.forall_mem_cons]
      rcases ih with ⟨hcheck, hall, hdeps⟩ | ⟨hcheck, dep', hdep', hnot⟩ | ⟨hcheck, hall, hdeps⟩
      . exact .inl ⟨hcheck, hall, hheld, hdeps⟩
      . exact .inr (.inl ⟨hcheck, dep', List.mem_cons_of_mem _ hdep', hnot⟩)
      . exact .inr (.inr ⟨hcheck, hall, hheld, hdeps⟩)
    . rw [heq]
      right; left
      refine ⟨rfl, dep, ?_, hheld⟩
      rw [List.takeWhile_cons, h]
      simp
    . rw [heq]
      right; right
      simp [h]

end ParallelScheduler

namespace RunTaskContext

open ParallelScheduler

-- Everything that a step does.
theorem step_cases (h : s.step turn = some s')
    : ∃ execution, s.executions.get turn.taskId = some execution ∧
        ((execution.place = .waiting ∧ execution.subtask.looksUp ∧
              (∀ dep ∈ execution.subtask.dependencies, Held s.completedIds dep) ∧
                s' = s.put turn.taskId { execution with place := .queued }) ∨
          (execution.place = .waiting ∧ ¬execution.subtask.looksUp ∧
              (∀ dep ∈ execution.subtask.awaited, Held s.completedIds dep) ∧
                s' = s.put turn.taskId { execution with place := .ended }) ∨
          (execution.place = .queued ∧ s.running < s.semaphore ∧
              (execution.subtask.description.sliced 200).isNone ∧
                s' = s.put turn.taskId { execution with started := true, place := .ended }) ∨
          (execution.place = .queued ∧ s.running < s.semaphore ∧
              ∃ description, execution.subtask.description.sliced 200 = some description ∧
                s' = { s.put turn.taskId { execution with started := true, place := .running } with
                  eventQueue := s.eventQueue ++
                    [.subtaskStarted turn.taskId execution.subagent.displayName description] }) ∨
          (execution.place = .running ∧ s' = s.finish turn.taskId execution turn.outcome)) := by
  unfold step at h
  cases hfound : s.executions.get turn.taskId with
  | none =>
    rw [hfound] at h
    cases h
  | some execution =>
    rw [hfound] at h
    dsimp only at h
    refine ⟨execution, rfl, ?_⟩
    cases hplace : execution.place with
    | waiting =>
      rw [hplace] at h
      dsimp only [waitForDependencies] at h
      rcases allCompleted_cases s.completedIds execution.subtask.dependencies with
        ⟨heq, hall, hheld⟩ | ⟨heq, -⟩ | ⟨heq, hall, hheld⟩
      . rw [heq] at h
        cases h
        exact .inl ⟨rfl, hall, hheld, rfl⟩
      . rw [heq] at h
        cases h
      . rw [heq] at h
        cases h
        refine .inr (.inl ⟨rfl, ?_, hheld, rfl⟩)
        rw [SubTask.looksUp, hall]
        simp
    | queued =>
      rw [hplace] at h
      dsimp only [acquire] at h
      split at h
      . next hslot =>
        cases hdescription : execution.subtask.description.sliced 200 with
        | none =>
          rw [hdescription] at h
          cases h
          exact .inr (.inr (.inl ⟨rfl, hslot, rfl, rfl⟩))
        | some description =>
          rw [hdescription] at h
          cases h
          exact .inr (.inr (.inr (.inl ⟨rfl, hslot, description, rfl, rfl⟩)))
      . cases h
    | running =>
      rw [hplace] at h
      cases h
      exact .inr (.inr (.inr (.inr ⟨rfl, rfl⟩)))
    | ended =>
      rw [hplace] at h
      cases h

theorem withOutcome_subtask (id : String) (execution : SubTaskExecution F) (outcome : ProcessOutcome)
    : (withOutcome id execution outcome).subtask = execution.subtask := by
  cases outcome <;> rfl

theorem withOutcome_place (id : String) (execution : SubTaskExecution F) (outcome : ProcessOutcome)
    : (withOutcome id execution outcome).place = .ended := by
  cases outcome <;> rfl

inductive Goes (s : RunTaskContext F) (execution : SubTaskExecution F) (id : String)
    : TaskPlace → TaskPlace → List String → Prop where
  | queues (hall : execution.subtask.looksUp)
    (hheld : ∀ dep ∈ execution.subtask.dependencies, Held s.completedIds dep)
    : Goes s execution id .waiting .queued s.completedIds
  | raises (hall : ¬execution.subtask.looksUp)
    (hheld : ∀ dep ∈ execution.subtask.awaited, Held s.completedIds dep)
    : Goes s execution id .waiting .ended s.completedIds
  | starts (hslot : s.running < s.semaphore)
    (hdescription : (execution.subtask.description.sliced 200).isSome)
    : Goes s execution id .queued .running s.completedIds
  | breaks (hslot : s.running < s.semaphore)
    (hdescription : (execution.subtask.description.sliced 200).isNone)
    : Goes s execution id .queued .ended s.completedIds
  | completes : Goes s execution id .running .ended (s.completedIds ++ [id])

structure Moves (s : RunTaskContext F) (id : String) (s' : RunTaskContext F)
    (execution execution' : SubTaskExecution F) : Prop where
  found : s.executions.get id = some execution
  goes : Goes s execution id execution.place execution'.place s'.completedIds
  same : execution'.subtask = execution.subtask
  executions : s'.executions = s.executions.set id execution'
  semaphore : s'.semaphore = s.semaphore

theorem moves_of_step (h : s.step turn = some s')
    : ∃ execution execution', Moves s turn.taskId s' execution execution' := by
  obtain ⟨execution, hfound, hcases⟩ := step_cases h
  rcases hcases with ⟨hplace, hall, hheld, rfl⟩ | ⟨hplace, hall, hheld, rfl⟩ | ⟨hplace, hslot, hnone, rfl⟩ |
    ⟨hplace, hslot, description, hsome, rfl⟩ | ⟨hplace, rfl⟩
  . refine ⟨execution, { execution with place := .queued }, hfound, ?_, rfl, rfl, rfl⟩
    rw [hplace]
    exact .queues hall hheld
  . refine ⟨execution, { execution with place := .ended }, hfound, ?_, rfl, rfl, rfl⟩
    rw [hplace]
    exact .raises hall hheld
  . refine ⟨execution, { execution with started := true, place := .ended }, hfound, ?_, rfl, rfl, rfl⟩
    rw [hplace]
    exact .breaks hslot hnone
  . refine ⟨execution, { execution with started := true, place := .running }, hfound, ?_, rfl, rfl, rfl⟩
    rw [hplace]
    exact .starts hslot (by rw [hsome]; rfl)
  . refine ⟨execution, _, hfound, ?_, withOutcome_subtask turn.taskId execution turn.outcome, rfl, rfl⟩
    rw [hplace, withOutcome_place]
    exact .completes

variable {execution execution' : SubTaskExecution F}

namespace Moves

theorem get (h : Moves s id s' execution execution') (id' : String)
    : s'.executions.get id' = if id' = id then some execution' else s.executions.get id' := by
  rw [h.executions, Dict.get_set]

theorem subtask_eq (h : Moves s id s' execution execution') : s'.subtask = s.subtask := by
  funext id'
  unfold RunTaskContext.subtask
  rw [h.get]
  split
  . next heq =>
    rw [heq, h.found, Option.map_some, Option.map_some, h.same]
  . rfl

theorem completedIds (h : Moves s id s' execution execution')
    : s'.completedIds = s.completedIds ∨
        execution.place = .running ∧ execution'.place = .ended ∧ s'.completedIds = s.completedIds ++ [id] := by
  have hgoes := h.goes
  generalize execution.place = place at hgoes ⊢
  generalize execution'.place = place' at hgoes ⊢
  generalize s'.completedIds = ids at hgoes ⊢
  cases hgoes with
  | completes => exact .inr ⟨rfl, rfl, rfl⟩
  | _ => exact .inl rfl

end Moves

def TaskPlace.weight : TaskPlace → Nat
  | .waiting => 3
  | .queued => 2
  | .running => 1
  | .ended => 0

def left (s : RunTaskContext F) : Nat :=
  s.executions.total fun execution => TaskPlace.weight execution.place

theorem left_lt (h : s.step turn = some s') : s'.left < s.left := by
  obtain ⟨execution, execution', hmoves⟩ := moves_of_step h
  have htotal := Dict.total_set_of_get (fun execution : SubTaskExecution F => TaskPlace.weight execution.place)
    hmoves.found execution'
  have hweight : TaskPlace.weight execution'.place < TaskPlace.weight execution.place := by
    have hgoes := hmoves.goes
    generalize execution.place = place at hgoes ⊢
    generalize execution'.place = place' at hgoes ⊢
    generalize s'.completedIds = ids at hgoes
    cases hgoes <;> decide
  unfold left
  rw [hmoves.executions]
  omega

-- What holds of one execution when `ids` have been completed.
structure SoundAt (ids : List String) (slots : Nat) (id : String) (execution : SubTaskExecution F) : Prop where
  passed : execution.place ≠ .waiting → ∀ dep ∈ execution.subtask.awaited, Held ids dep
  queued : execution.place = .queued → execution.subtask.looksUp
  running : execution.place = .running → execution.subtask.completable ∧ 0 < slots
  ended : execution.place = .ended →
    id ∈ ids ∨ ¬execution.subtask.looksUp ∨ ¬execution.subtask.completable ∧ 0 < slots
  listed : id ∈ ids → execution.place = .ended ∧ execution.subtask.completable ∧ 0 < slots
  ranked : id ∈ ids → ∀ dep, .str dep ∈ execution.subtask.awaited → ids.idxOf dep < ids.idxOf id

structure Sound (s : RunTaskContext F) : Prop where
  known : ∀ id ∈ s.completedIds, ∃ execution, s.executions.get id = some execution
  each : ∀ id execution, s.executions.get id = some execution → SoundAt s.completedIds s.semaphore id execution

theorem awaited_eq_of_looksUp {subtask : SubTask F} (h : subtask.looksUp) : subtask.awaited = subtask.dependencies := by
  unfold SubTask.awaited
  rw [List.takeWhile_eq_self_iff]
  exact List.all_eq_true.mp h

theorem held_str : Held ids (.str id : Json F) ↔ id ∈ ids := by
  constructor
  . rintro ⟨id', hid', heq⟩
    cases heq
    exact hid'
  . intro hid
    exact ⟨id, hid, rfl⟩

theorem held_concat {id' : String} (h : Held ids dep) : Held (ids ++ [id']) dep := by
  rcases h with ⟨id, hid, heq⟩
  exact ⟨id, List.mem_append_left _ hid, heq⟩

theorem SoundAt.concat {id' : String} {slots : Nat} (h : SoundAt ids slots id execution) (hne : id' ≠ id)
    : SoundAt (ids ++ [id']) slots id execution := by
  have hold : id ∈ ids ++ [id'] → id ∈ ids := by
    intro hid
    rw [List.mem_append, List.mem_singleton] at hid
    exact hid.resolve_right (Ne.symm hne)
  constructor
  . intro hplace dep hdep
    exact held_concat (h.passed hplace dep hdep)
  . exact h.queued
  . exact h.running
  . intro hplace
    rcases h.ended hplace with hid | hrest
    . exact .inl (List.mem_append_left _ hid)
    . exact .inr hrest
  . intro hid
    exact h.listed (hold hid)
  . intro hid dep hdep
    have hheld := h.passed (by rw [(h.listed (hold hid)).1]; decide) _ hdep
    rw [List.idxOf_append_of_mem (hold hid), List.idxOf_append_of_mem (held_str.mp hheld)]
    exact h.ranked (hold hid) dep hdep

theorem SoundAt.moved (h : SoundAt s.completedIds s.semaphore id execution)
    (hmoves : Moves s id s' execution execution')
    : SoundAt s'.completedIds s.semaphore id execution' := by
  have hgoes := hmoves.goes
  have hsame := hmoves.same
  have hnot : execution.place ≠ .ended → id ∉ s.completedIds := by
    intro hplace hid
    exact hplace (h.listed hid).1
  generalize hplace : execution.place = place at hgoes hnot
  generalize hplace' : execution'.place = place' at hgoes
  generalize s'.completedIds = ids at hgoes ⊢
  cases hgoes with
  | queues hall hheld =>
    have hid := hnot (by decide)
    constructor
    . intro _ dep hdep
      rw [hsame, awaited_eq_of_looksUp hall] at hdep
      exact hheld dep hdep
    . intro _
      rw [hsame]
      exact hall
    . intro h
      cases hplace'.symm.trans h
    . intro h
      cases hplace'.symm.trans h
    . intro h
      exact absurd h hid
    . intro h
      exact absurd h hid
  | raises hall hheld =>
    have hid := hnot (by decide)
    constructor
    . intro _
      rw [hsame]
      exact hheld
    . intro h
      cases hplace'.symm.trans h
    . intro h
      cases hplace'.symm.trans h
    . intro _
      rw [hsame]
      exact .inr (.inl hall)
    . intro h
      exact absurd h hid
    . intro h
      exact absurd h hid
  | starts hslot hdescription =>
    have hid := hnot (by decide)
    constructor
    . intro _
      rw [hsame]
      exact h.passed (by rw [hplace]; decide)
    . intro h
      cases hplace'.symm.trans h
    . intro _
      rw [hsame, SubTask.completable, h.queued hplace, hdescription]
      exact ⟨rfl, by omega⟩
    . intro h
      cases hplace'.symm.trans h
    . intro h
      exact absurd h hid
    . intro h
      exact absurd h hid
  | breaks hslot hdescription =>
    have hid := hnot (by decide)
    constructor
    . intro _
      rw [hsame]
      exact h.passed (by rw [hplace]; decide)
    . intro h
      cases hplace'.symm.trans h
    . intro h
      cases hplace'.symm.trans h
    . intro _
      right; right
      rw [hsame, SubTask.completable, Option.isSome_eq_false_iff.mpr hdescription, Bool.and_false]
      exact ⟨by decide, by omega⟩
    . intro h
      exact absurd h hid
    . intro h
      exact absurd h hid
  | completes =>
    have hid := hnot (by decide)
    have hbefore := h.passed (by rw [hplace]; decide)
    constructor
    . intro _ dep hdep
      rw [hsame] at hdep
      exact held_concat (hbefore dep hdep)
    . intro h
      cases hplace'.symm.trans h
    . intro h
      cases hplace'.symm.trans h
    . intro _
      left
      simp
    . intro _
      rw [hsame]
      exact ⟨hplace', h.running hplace⟩
    . intro _ dep hdep
      rw [hsame] at hdep
      have hdep := held_str.mp (hbefore _ hdep)
      rw [List.idxOf_append_of_mem hdep, List.idxOf_append_of_notMem hid]
      have := List.idxOf_lt_length_of_mem hdep
      omega

theorem sound_step (hsound : s.Sound) (h : s.step turn = some s') : s'.Sound := by
  obtain ⟨execution, execution', hmoves⟩ := moves_of_step h
  generalize turn.taskId = id at hmoves
  constructor
  . intro id' hid'
    rw [hmoves.get]
    by_cases heq : id' = id
    . exact ⟨execution', if_pos heq⟩
    . rw [if_neg heq]
      apply hsound.known
      rcases hmoves.completedIds with hids | ⟨-, -, hids⟩
      . rwa [hids] at hid'
      . rw [hids, List.mem_append, List.mem_singleton] at hid'
        exact hid'.resolve_right heq
  . intro id' other hget
    rw [hmoves.get] at hget
    rw [hmoves.semaphore]
    by_cases heq : id' = id
    . rw [if_pos heq] at hget
      cases hget
      rw [heq]
      exact (hsound.each id execution hmoves.found).moved hmoves
    . rw [if_neg heq] at hget
      have hother := hsound.each id' other hget
      rcases hmoves.completedIds with hids | ⟨-, -, hids⟩
      . rw [hids]
        exact hother
      . rw [hids]
        exact hother.concat (Ne.symm heq)

theorem subtask_of_get (h : s.executions.get id = some execution) : s.subtask id = some execution.subtask := by
  rw [RunTaskContext.subtask, h, Option.map_some]

theorem exists_of_subtask {subtask : SubTask F} (h : s.subtask id = some subtask)
    : ∃ execution, s.executions.get id = some execution ∧ execution.subtask = subtask := by
  rw [RunTaskContext.subtask, Option.map_eq_some_iff] at h
  exact h

theorem left_le (s : RunTaskContext F) : s.left ≤ 3 * s.executions.entries.length := by
  have hle := List.sum_le_card_nsmul (s.executions.values.map fun execution => TaskPlace.weight execution.place) 3 <| by
    intro n hn
    rw [List.mem_map] at hn
    rcases hn with ⟨execution, -, rfl⟩
    cases execution.place <;> decide
  rw [List.length_map, Dict.values, List.length_map, smul_eq_mul, Nat.mul_comm] at hle
  exact hle

theorem Schedulable.congr (hsubtask : s'.subtask = s.subtask) (hslots : s'.semaphore = s.semaphore)
    (h : s'.Schedulable)
    : s.Schedulable := by
  have hawaits : s'.Awaits = s.Awaits := by
    unfold Awaits
    rw [hsubtask]
  constructor
  . rw [← hsubtask]
    exact h.found
  . rw [← hawaits]
    exact h.acyclic
  . rw [← hsubtask, ← hslots]
    exact h.slots

theorem same_of_run {turns : List Turn} (h : run step s turns = some s')
    : s'.subtask = s.subtask ∧ s'.semaphore = s.semaphore := by
  apply inv_run (I := fun s' => s'.subtask = s.subtask ∧ s'.semaphore = s.semaphore) _ ⟨rfl, rfl⟩ h
  rintro before turn after hstep ⟨hsubtask, hslots⟩
  obtain ⟨execution, execution', hmoves⟩ := moves_of_step hstep
  exact ⟨hmoves.subtask_eq.trans hsubtask, hmoves.semaphore.trans hslots⟩

section Halted

variable (hnone : ∀ turn, s.step turn = none)
include hnone

theorem not_running_of_halted (h : s.executions.get id = some execution) : execution.place ≠ .running := by
  intro hplace
  have hstep := hnone ⟨id, .finished⟩
  unfold step at hstep
  rw [h] at hstep
  dsimp only at hstep
  rw [hplace] at hstep
  cases hstep

theorem running_eq_zero_of_halted : s.running = 0 := by
  rw [running, List.length_eq_zero_iff, List.filter_eq_nil_iff]
  intro execution hmem
  rw [Dict.mem_values] at hmem
  rcases hmem with ⟨id, hget⟩
  rw [decide_eq_true_eq]
  exact not_running_of_halted hnone hget

theorem slots_of_halted (h : s.executions.get id = some execution) (hplace : execution.place = .queued)
    : s.semaphore = 0 := by
  have hstep := hnone ⟨id, .finished⟩
  unfold step at hstep
  rw [h] at hstep
  dsimp only at hstep
  rw [hplace] at hstep
  dsimp only [acquire] at hstep
  rw [running_eq_zero_of_halted hnone] at hstep
  by_contra hpos
  rw [if_pos (Nat.pos_of_ne_zero hpos)] at hstep
  split at hstep <;> cases hstep

theorem exists_awaited_of_halted (h : s.executions.get id = some execution) (hplace : execution.place = .waiting)
    : ∃ dep ∈ execution.subtask.awaited, ¬Held s.completedIds dep := by
  have hstep := hnone ⟨id, .finished⟩
  unfold step at hstep
  rw [h] at hstep
  dsimp only at hstep
  rw [hplace] at hstep
  dsimp only [waitForDependencies] at hstep
  rcases allCompleted_cases s.completedIds execution.subtask.dependencies with ⟨heq, -⟩ | ⟨-, hdep⟩ | ⟨heq, -⟩
  . rw [heq] at hstep
    cases hstep
  . exact hdep
  . rw [heq] at hstep
    cases hstep

end Halted

theorem looksUp_of_completable {subtask : SubTask F} (h : subtask.completable) : subtask.looksUp := by
  rw [SubTask.completable, Bool.and_eq_true] at h
  exact h.1

theorem not_stuck_of_schedulable (hsound : s.Sound) (h : s.Schedulable) : ¬s.Stuck := by
  rintro ⟨hsentinel, hnone⟩
  have hplaces : ∀ id execution, s.executions.get id = some execution →
      execution.place = .waiting ∨ execution.place = .ended := by
    intro id execution hget
    cases hplace : execution.place with
    | waiting => exact .inl rfl
    | queued =>
      have hslots := h.slots (slots_of_halted hnone hget hplace) id execution.subtask (subtask_of_get hget)
      exact absurd ((hsound.each id execution hget).queued hplace) hslots.2
    | running => exact absurd hplace (not_running_of_halted hnone hget)
    | ended => exact .inr rfl
  let waiting := s.executions.keys.filter fun id => (s.executions.get id).any (·.place = .waiting)
  have hwaiting : ∀ id, id ∈ waiting ↔
      ∃ execution, s.executions.get id = some execution ∧ execution.place = .waiting := by
    intro id
    simp only [waiting, List.mem_filter, Dict.mem_keys, Option.any_eq_true, decide_eq_true_eq]
    constructor
    . exact fun h => h.2
    . rintro ⟨execution, hget, hplace⟩
      exact ⟨⟨execution, hget⟩, execution, hget, hplace⟩
  have hne : waiting ≠ [] := by
    intro hnil
    apply hsentinel
    intro execution hmem
    rw [Dict.mem_values] at hmem
    rcases hmem with ⟨id, hget⟩
    apply (hplaces id execution hget).resolve_left
    intro hplace
    have hmem := (hwaiting id).mpr ⟨execution, hget, hplace⟩
    rw [hnil] at hmem
    cases hmem
  obtain ⟨id, hid, hfree⟩ := h.acyclic.exists_free hne
  obtain ⟨execution, hget, hplace⟩ := (hwaiting id).mp hid
  obtain ⟨dep, hdep, hheld⟩ := exists_awaited_of_halted hnone hget hplace
  obtain ⟨id', task', heq, htask', hcompletable⟩ := h.found id execution.subtask (subtask_of_get hget) dep hdep
  subst heq
  obtain ⟨execution', hget', hsame⟩ := exists_of_subtask htask'
  rw [← hsame] at hcompletable
  cases hplaces id' execution' hget' with
  | inl hplace' =>
    exact hfree id' ((hwaiting id').mpr ⟨execution', hget', hplace'⟩) ⟨execution.subtask, subtask_of_get hget, hdep⟩
  | inr hplace' =>
    rcases (hsound.each id' execution' hget').ended hplace' with hid' | hlooksUp | ⟨hnot, -⟩
    . exact hheld (held_str.mpr hid')
    . exact hlooksUp (looksUp_of_completable hcompletable)
    . exact hnot hcompletable

theorem schedulable_of_sentinel (hsound : s.Sound) (h : s.sentinel) : s.Schedulable := by
  have hat : ∀ id execution, s.executions.get id = some execution →
      SoundAt s.completedIds s.semaphore id execution ∧ execution.place = .ended := by
    intro id execution hget
    exact ⟨hsound.each id execution hget, h execution (Dict.mem_values.mpr ⟨id, hget⟩)⟩
  have hheld : ∀ id execution, s.executions.get id = some execution → ∀ dep ∈ execution.subtask.awaited,
      Held s.completedIds dep := by
    intro id execution hget dep hdep
    obtain ⟨hsoundAt, hplace⟩ := hat id execution hget
    exact hsoundAt.passed (by rw [hplace]; decide) dep hdep
  have hlisted : ∀ id ∈ s.completedIds, ∃ execution, s.executions.get id = some execution ∧
      execution.subtask.completable ∧ 0 < s.semaphore := by
    intro id hid
    obtain ⟨execution, hget⟩ := hsound.known id hid
    exact ⟨execution, hget, ((hat id execution hget).1.listed hid).2⟩
  constructor
  . intro id task htask dep hdep
    obtain ⟨execution, hget, rfl⟩ := exists_of_subtask htask
    obtain ⟨id', hid', rfl⟩ := hheld id execution hget dep hdep
    obtain ⟨execution', hget', hcompletable, -⟩ := hlisted id' hid'
    exact ⟨id', execution'.subtask, rfl, subtask_of_get hget', hcompletable⟩
  . have hrank : ∀ id dep, s.Awaits id dep → s.completedIds.idxOf dep < s.completedIds.idxOf id := by
      rintro id dep ⟨task, htask, hdep⟩
      obtain ⟨execution, hget, rfl⟩ := exists_of_subtask htask
      have hmem := held_str.mp (hheld id execution hget _ hdep)
      by_cases hid : id ∈ s.completedIds
      . exact (hat id execution hget).1.ranked hid dep hdep
      . rw [List.idxOf_of_notMem hid]
        exact List.idxOf_lt_length_of_mem hmem
    exact acyclic_of_rank hrank
  . intro hslots id task htask
    obtain ⟨execution, hget, rfl⟩ := exists_of_subtask htask
    have hnil : s.completedIds = [] := by
      apply List.eq_nil_iff_forall_not_mem.mpr
      intro id' hid'
      obtain ⟨_, -, -, hpos⟩ := hlisted id' hid'
      omega
    constructor
    . apply List.eq_nil_iff_forall_not_mem.mpr
      intro dep hdep
      obtain ⟨id', hid', -⟩ := hheld id execution hget dep hdep
      rw [hnil] at hid'
      cases hid'
    . obtain ⟨hsoundAt, hplace⟩ := hat id execution hget
      rcases hsoundAt.ended hplace with hid | hlooksUp | ⟨-, hpos⟩
      . rw [hnil] at hid
        cases hid
      . exact hlooksUp
      . omega

structure Fresh (s : RunTaskContext F) : Prop where
  completedIds : s.completedIds = []
  waiting : ∀ execution ∈ s.executions.values, execution.place = .waiting

theorem sound_of_fresh (h : s.Fresh) : s.Sound := by
  constructor
  . intro id hid
    rw [h.completedIds] at hid
    cases hid
  . intro id execution hget
    have hplace := h.waiting execution (Dict.mem_values.mpr ⟨id, hget⟩)
    rw [h.completedIds]
    constructor
    . exact fun hne => absurd hplace hne
    all_goals
      intro h
      first
        | cases h
        | cases hplace.symm.trans h

theorem progresses_iff (h : s.Fresh) : s.Progresses ↔ s.Schedulable := by
  have hsound : ∀ turns s', run step s turns = some s' → s'.Sound := by
    intro turns s' hrun
    apply inv_run (I := Sound) _ (sound_of_fresh h) hrun
    intro before turn after hstep hbefore
    exact sound_step hbefore hstep
  constructor
  . intro hprogresses
    obtain ⟨turns, s', hrun, hnone⟩ : ∃ turns s', run step s turns = some s' ∧ ∀ turn, s'.step turn = none :=
      exists_halted (fun _ _ _ => left_lt) s
    have hsentinel : s'.sentinel := by
      by_contra hnot
      exact (hprogresses turns s' hrun).1 ⟨hnot, hnone⟩
    obtain ⟨hsubtask, hslots⟩ := same_of_run hrun
    exact (schedulable_of_sentinel (hsound turns s' hrun) hsentinel).congr hsubtask hslots
  . intro hschedulable turns s' hrun
    obtain ⟨hsubtask, hslots⟩ := same_of_run hrun
    refine ⟨not_stuck_of_schedulable (hsound turns s' hrun) (hschedulable.congr hsubtask.symm hslots.symm), ?_⟩
    have hlength := length_le (fun _ _ _ => left_lt) hrun
    have hleft := s.left_le
    omega

end RunTaskContext

namespace ParallelScheduler

variable [PyFloat F] {config : ParallelSchedulerConfig} {subtasks : List (SubTask F)}
  {agentMap : Dict String SubAgent}

theorem forall_addExecution {P : SubTaskExecution F → Prop} (hcreate : ∀ subtask agent, P (.create subtask agent))
    {subtask : SubTask F} {executions executions' : Dict String (SubTaskExecution F)}
    (hadd : addExecution agentMap executions subtask = some executions')
    (h : ∀ execution ∈ executions.values, P execution)
    : ∀ execution ∈ executions'.values, P execution := by
  rw [addExecution, Option.bind_eq_bind, Option.bind_eq_some_iff] at hadd
  obtain ⟨resolved, -, hadd⟩ := hadd
  cases resolved with
  | none =>
    cases hadd
    exact h
  | some agent =>
    dsimp only at hadd
    split at hadd
    . next id _ =>
      cases hadd
      intro execution hmem
      obtain ⟨id', hget⟩ := Dict.mem_values.mp hmem
      rw [Dict.get_set] at hget
      split at hget
      . cases hget
        exact hcreate subtask agent
      . exact h execution (Dict.mem_values.mpr ⟨id', hget⟩)
    . cases hadd

theorem forall_foldlM {P : SubTaskExecution F → Prop} (hcreate : ∀ subtask agent, P (.create subtask agent))
    {executions executions' : Dict String (SubTaskExecution F)}
    (hfold : subtasks.foldlM (addExecution agentMap) executions = some executions')
    (h : ∀ execution ∈ executions.values, P execution)
    : ∀ execution ∈ executions'.values, P execution := by
  induction subtasks generalizing executions with
  | nil =>
    cases hfold
    exact h
  | cons subtask subtasks ih =>
    rw [List.foldlM_cons, Option.bind_eq_bind, Option.bind_eq_some_iff] at hfold
    obtain ⟨next, hadd, hfold⟩ := hfold
    exact ih hfold (forall_addExecution hcreate hadd h)

theorem launch_eq_some {s : RunTaskContext F} (h : launch config subtasks agentMap = some s)
    : (∀ P : SubTaskExecution F → Prop, (∀ subtask agent, P (.create subtask agent)) →
        ∀ execution ∈ s.executions.values, P execution) ∧
      s.completedIds = [] ∧ s.eventQueue = [] ∧ s.semaphore = config.maxConcurrency.toNat := by
  unfold launch at h
  rw [Option.bind_eq_bind, Option.bind_eq_some_iff] at h
  obtain ⟨executions, hbuild, h⟩ := h
  split at h
  . cases h
  . cases h
    refine ⟨?_, rfl, rfl, rfl⟩
    intro P hcreate
    apply forall_foldlM hcreate hbuild
    intro execution hmem
    cases hmem

theorem fresh_of_launch {s : RunTaskContext F} (h : launch config subtasks agentMap = some s) : s.Fresh := by
  obtain ⟨hcreated, hids, -⟩ := launch_eq_some h
  exact ⟨hids, hcreated (fun execution => execution.place = .waiting) (fun _ _ => rfl)⟩

end ParallelScheduler

theorem launched_progresses_iff [PyFloat F] (maxSubtasks : Int) (args : List (String × Json F))
    (originalQuery : String) (config : ParallelSchedulerConfig) (agentMap : Dict String SubAgent)
    : (∀ s, launched maxSubtasks args originalQuery config agentMap = some s → s.Progresses)
        ↔
      (∀ s, launched maxSubtasks args originalQuery config agentMap = some s → s.Schedulable) := by
  apply forall_congr'
  intro s
  apply imp_congr_right
  intro h
  unfold launched at h
  rw [Option.bind_eq_bind, Option.bind_eq_some_iff] at h
  obtain ⟨decomposition, -, h⟩ := h
  exact RunTaskContext.progresses_iff (ParallelScheduler.fresh_of_launch h)

def cyclicArguments : List (String × Json Nat) := [
  ("subtasks", .list [
    .dict [("id", .str "t1"), ("description", .str "read"), ("depends_on", .list [.str "t2"])],
    .dict [("id", .str "t2"), ("description", .str "write"), ("depends_on", .list [.str "t1"])]
  ]),
  ("reasoning", .str "")
]

def oneAgent : Dict String SubAgent :=
  Dict.empty.set "coder" ⟨"Coder"⟩

def cyclicExecution (id description dep : String) : SubTaskExecution Nat :=
  .create ⟨.str id, .str description, .null, [.str dep], .int 0⟩ ⟨"Coder"⟩

def cyclicRun : RunTaskContext Nat where
  executions := (Dict.empty.set "t1" (cyclicExecution "t1" "read" "t2")).set "t2" (cyclicExecution "t2" "write" "t1")
  completedIds := []
  semaphore := 3
  eventQueue := []

theorem cyclicRun_launched : launched 8 cyclicArguments "" ⟨3⟩ oneAgent = some cyclicRun := by
  rfl

theorem cyclicRun_stuck : cyclicRun.Stuck := by
  constructor
  . intro hsentinel
    have hended := hsentinel (cyclicExecution "t1" "read" "t2") (Dict.mem_values.mpr ⟨"t1", rfl⟩)
    cases hended
  . intro turn
    have hget : cyclicRun.executions.get turn.taskId
        = if turn.taskId = "t2" then some (cyclicExecution "t2" "write" "t1")
          else if turn.taskId = "t1" then some (cyclicExecution "t1" "read" "t2") else none := by
      unfold cyclicRun
      dsimp only
      rw [Dict.get_set, Dict.get_set, Dict.get_empty]
    unfold RunTaskContext.step
    rw [hget]
    split_ifs <;> rfl

theorem cyclic_decomposition_stuck
    : ¬∀ (maxSubtasks : Int) (args : List (String × Json Nat)) (originalQuery : String)
        (config : ParallelSchedulerConfig) (agentMap : Dict String SubAgent), agentMap.entries ≠ [] →
        ∀ s, launched maxSubtasks args originalQuery config agentMap = some s → s.Progresses := by
  intro h
  have hprogresses := h 8 cyclicArguments "" ⟨3⟩ oneAgent (by decide +kernel) cyclicRun cyclicRun_launched
  exact (hprogresses [] cyclicRun rfl).1 cyclicRun_stuck

end Subagent
end Agent
end MemStack
