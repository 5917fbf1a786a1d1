import MemStack.Agent.SubagentRuns.Lifecycle
import MemStack.Util.Since

/-!
This module contains the repository of runs that keeps its snapshot in a database behind a Redis cache
(`HybridSubAgentRunRepository`), for the calls of any number of processes, and the changes that registries
make to the runs while they hold the registry lock.
-/

namespace MemStack
namespace Agent
namespace SubagentRuns

open Machine History

variable {F : Type}

inductive HybridRequest (F : Type) where
  | load (getFails setFails : Bool)
  | save (runs : Conversations F) (setFails : Bool)
  | expire
  | mutate (operation : Operation F) (clock : Clock) (getFails setFails saveFails : Bool)

abbrev HybridRepository (F : Type) := CacheAside (Conversations F)

namespace HybridRepository

def reads (s : HybridRepository F) : HybridRequest F → HybridRepository F × Option (Conversations F)
  | .load getFails setFails => ((s.load getFails setFails).1, some (s.load getFails setFails).2)
  | .save _ _ => (s, none)
  | .expire => (s.expire, none)
  | .mutate _ _ getFails setFails _ => ((s.load getFails setFails).1, some (s.load getFails setFails).2)

def KeepsCache (s : HybridRepository F) : HybridRequest F → Prop
  | .load getFails setFails => s.hit getFails ≠ none ∨ setFails = true
  | .save _ _ => False
  | .expire => False
  | .mutate _ _ getFails setFails _ => s.hit getFails ≠ none ∨ setFails = true

variable [PyFloat F] (config : RegistryConfig)

def mutated (operation : Operation F) (clock : Clock) (loaded : Conversations F) : Option (Conversations F) :=
  (operation.run config clock loaded).written.map Storage.snapshot.settle

def writes (s : HybridRepository F) : HybridRequest F → Option (Conversations F × Bool)
  | .load _ _ => none
  | .save runs setFails => some (Storage.snapshot.settle runs, setFails)
  | .expire => none
  | .mutate operation clock getFails setFails saveFails =>
    (mutated config operation clock (s.load getFails setFails).2).map fun runs => (runs, saveFails)

def step (s : HybridRepository F) (request : HybridRequest F) : HybridRepository F × Option (Conversations F) :=
  match writes config s request with
  | some (runs, setFails) => ((reads s request).1.save runs setFails, (reads s request).2)
  | none => reads s request

abbrev Entry (F : Type) := Machine.Entry (HybridRepository F) (HybridRequest F) (Option (Conversations F))

namespace Entry

def ReadsLatest (e : Entry F) : Prop :=
  (∀ loaded, e.reply = some loaded → loaded = e.before.source) ∧
    ∀ operation clock getFails setFails saveFails,
      e.request = .mutate operation clock getFails setFails saveFails →
      e.after.source = (mutated config operation clock e.before.source).getD e.before.source

def Hits (e : Entry F) : Prop :=
  match e.request with
  | .load getFails _ => e.before.hit getFails ≠ none
  | .mutate _ _ getFails _ _ => e.before.hit getFails ≠ none
  | _ => False

def LeavesStale (e : Entry F) : Prop :=
  ∃ runs, writes config e.before e.request = some (runs, true) ∧
    ∃ cached, (reads e.before e.request).1.cached = some cached ∧ cached ≠ runs

def Quiet (e : Entry F) : Prop :=
  writes config e.before e.request = none ∧ KeepsCache e.before e.request

end Entry

variable {config : RegistryConfig}

theorem step_of_writes {s : HybridRepository F} {request : HybridRequest F} {runs : Conversations F}
    {setFails : Bool} (h : writes config s request = some (runs, setFails))
    : step config s request = ((reads s request).1.save runs setFails, (reads s request).2) := by
  unfold step
  rw [h]

theorem step_of_reads {s : HybridRepository F} {request : HybridRequest F} (h : writes config s request = none)
    : step config s request = reads s request := by
  unfold step
  rw [h]

theorem step_reply (s : HybridRepository F) (request : HybridRequest F)
    : (step config s request).2 = (reads s request).2 := by
  cases h : writes config s request with
  | none => rw [step_of_reads h]
  | some write => rw [step_of_writes h]

omit [PyFloat F] in
theorem reads_source (s : HybridRepository F) (request : HybridRequest F) : (reads s request).1.source = s.source := by
  cases request with
  | load getFails setFails => apply CacheAside.load_source
  | save runs setFails => rfl
  | expire => rfl
  | mutate operation clock getFails setFails saveFails => apply CacheAside.load_source

theorem mutate_source (s : HybridRepository F) (operation : Operation F) (clock : Clock)
    (getFails setFails saveFails : Bool)
    : (step config s (.mutate operation clock getFails setFails saveFails)).1.source
        = (mutated config operation clock (s.load getFails setFails).2).getD s.source := by
  cases h : mutated config operation clock (s.load getFails setFails).2 with
  | none =>
    have hwrites : writes config s (.mutate operation clock getFails setFails saveFails) = none := by
      show (mutated config operation clock (s.load getFails setFails).2).map _ = none
      rw [h]
      rfl
    rw [step_of_reads hwrites, reads_source]
    rfl
  | some runs =>
    have hwrites : writes config s (.mutate operation clock getFails setFails saveFails) = some (runs, saveFails) := by
      show (mutated config operation clock (s.load getFails setFails).2).map _ = _
      rw [h]
      rfl
    rw [step_of_writes hwrites]
    rfl

theorem readsLatest_iff (s : HybridRepository F) (request : HybridRequest F)
    : Entry.ReadsLatest config (entry (step config) s request) ↔
        ¬(s.Stale ∧ Entry.Hits (entry (step config) s request)) := by
  have hreply : (entry (step config) s request).reply = (reads s request).2 := step_reply s request
  unfold Entry.ReadsLatest
  rw [hreply]
  cases request with
  | load getFails setFails =>
    show _ ↔ ¬(s.Stale ∧ s.hit getFails ≠ none)
    rw [← CacheAside.load_value s getFails setFails]
    constructor
    . intro h
      exact h.1 _ rfl
    . intro h
      constructor
      . intro loaded hloaded
        cases hloaded
        exact h
      . intro operation clock getFails setFails saveFails hrequest
        cases hrequest
  | save runs setFails =>
    apply iff_of_true
    . constructor
      . intro loaded hloaded
        cases hloaded
      . intro operation clock getFails setFails saveFails hrequest
        cases hrequest
    . exact fun h => h.2
  | expire =>
    apply iff_of_true
    . constructor
      . intro loaded hloaded
        cases hloaded
      . intro operation clock getFails setFails saveFails hrequest
        cases hrequest
    . exact fun h => h.2
  | mutate operation clock getFails setFails saveFails =>
    show _ ↔ ¬(s.Stale ∧ s.hit getFails ≠ none)
    rw [← CacheAside.load_value s getFails setFails]
    constructor
    . intro h
      exact h.1 _ rfl
    . intro h
      constructor
      . intro loaded hloaded
        cases hloaded
        exact h
      . intro operation' clock' getFails' setFails' saveFails' hrequest
        cases hrequest
        show (step config s (.mutate operation clock getFails setFails saveFails)).1.source = _
        rw [mutate_source, h]
        rfl

theorem stale_reads {s : HybridRepository F} {request : HybridRequest F} (h : writes config s request = none)
    : (reads s request).1.Stale ↔ Entry.Quiet config (entry (step config) s request) ∧ s.Stale := by
  have hquiet : Entry.Quiet config (entry (step config) s request) ↔ KeepsCache s request := and_iff_right h
  rw [hquiet]
  cases request with
  | load getFails setFails => apply CacheAside.stale_load
  | save runs setFails => cases h
  | expire => simp [reads, KeepsCache, CacheAside.not_stale_expire]
  | mutate operation clock getFails setFails saveFails => apply CacheAside.stale_load

theorem stale_step (s : HybridRepository F) (request : HybridRequest F)
    : (step config s request).1.Stale ↔
        Entry.LeavesStale config (entry (step config) s request) ∨
          Entry.Quiet config (entry (step config) s request) ∧ s.Stale := by
  cases h : writes config s request with
  | none =>
    have hleaves : ¬Entry.LeavesStale config (entry (step config) s request) := by
      rintro ⟨runs, hruns, -⟩
      have hruns : writes config s request = some (runs, true) := hruns
      rw [h] at hruns
      cases hruns
    rw [step_of_reads h, stale_reads h, or_iff_right hleaves]
  | some write =>
    have hquiet : ¬Entry.Quiet config (entry (step config) s request) := by
      rintro ⟨hnone, -⟩
      have hnone : writes config s request = none := hnone
      rw [h] at hnone
      cases hnone
    rw [step_of_writes h, CacheAside.stale_save]
    constructor
    . rintro ⟨hfails, hcached⟩
      left
      refine ⟨write.1, ?_, hcached⟩
      show writes config s request = _
      rw [h, ← hfails]
    . rintro (⟨runs, hruns, hcached⟩ | ⟨hnone, -⟩)
      . have hruns : writes config s request = some (runs, true) := hruns
        rw [h, Option.some.injEq] at hruns
        rw [hruns]
        exact ⟨rfl, hcached⟩
      . exact absurd hnone hquiet

/--
Over every sequence of calls, each call that loads the runs finds those that were written last, and no change
under the lock is lost, if and only if no call hits the cache after a write whose command to the cache
failed, with only quiet calls since.
-/
theorem reads_latest_iff (config : RegistryConfig) (runs : Conversations F) (requests : List (HybridRequest F))
    : AtEach (fun _ e => Entry.ReadsLatest config e) (transcript (step config) ⟨runs, none⟩ requests) ↔
        AtEach (fun past e => ¬(Pending (Entry.LeavesStale config) (Entry.Quiet config) past ∧ Entry.Hits e))
          (transcript (step config) ⟨runs, none⟩ requests) := by
  apply atEach_iff
  apply atEach_transcript (C := fun _ _ => True)
    (I := fun past (s : HybridRepository F) => s.Stale ↔ Pending (Entry.LeavesStale config) (Entry.Quiet config) past)
    (P := fun past e => Entry.ReadsLatest config e ↔
      ¬(Pending (Entry.LeavesStale config) (Entry.Quiet config) past ∧ Entry.Hits e))
  . intro past s request hstale _
    constructor
    . rw [readsLatest_iff, hstale]
    . rw [stale_step, pending_concat, hstale]
  . apply iff_of_false
    . rintro ⟨v, hv, -⟩
      cases hv
    . exact not_pending_nil
  . intro e _
    trivial

section Example

def registers (runId : String) (saveFails : Bool) : HybridRequest Nat :=
  .mutate (.createRun "conversation" "coder" "build" .empty runId none none none) ⟨1, 2⟩ false false saveFails

def staleLoad : List (HybridRequest Nat) :=
  [registers "first" false, registers "second" true, .load false false]

theorem stale_snapshot_loaded
    : ¬AtEach (fun _ e => Entry.ReadsLatest ⟨200, 86400⟩ e)
        (transcript (step ⟨200, 86400⟩) ⟨.empty, none⟩ staleLoad) := by
  intro h
  have hlatest := h [_, _] _ [] rfl
  have hloaded := hlatest.1 _ rfl
  have hsecond := congrArg (fun runs => (Conversations.find runs "conversation" "second").isSome) hloaded
  exact absurd hsecond (by decide +kernel)

end Example

end HybridRepository

end SubagentRuns
end Agent
end MemStack
