import MemStack.Agent.SubagentRuns.Lifecycle

/-!
This module contains the registry over a repository that keeps one snapshot of all runs
(`agent/subagent/run_repository.py`), whose reads and writes may fail: when a failed read makes a later
write erase runs.
-/

namespace MemStack
namespace Agent
namespace SubagentRuns

open Machine

variable {F : Type}

-- How the read of the snapshot ends: the registry takes no runs from a read that raises, and the repository
-- gives none when its own statement fails.
inductive Read where
  | loaded
  | raises
  | empty
  deriving DecidableEq

def Read.runs (read : Read) (saved : Conversations F) : Conversations F :=
  match read with
  | .loaded => saved
  | .raises => .empty
  | .empty => .empty

structure RepositoryRequest (F : Type) where
  operation : Operation F
  clock : Clock
  read : Read
  saveFails : Bool

namespace Stored

variable [PyFloat F]

def repositoryStep (config : RegistryConfig) (s : Stored F) (request : RepositoryRequest F)
    : Stored F × Except String (Option (SubAgentRun F)) :=
  let outcome := request.operation.run config request.clock (request.read.runs s.runs)
  let saved := if request.saveFails then none else outcome.written
  (⟨(saved.map Storage.snapshot.settle).getD s.runs⟩, outcome.reply)

abbrev RepositoryEntry (F : Type) :=
  Machine.Entry (Stored F) (RepositoryRequest F) (Except String (Option (SubAgentRun F)))

def EvictedByRule (config : RegistryConfig) (now : Int) (runs : Conversations F) (written : SubAgentRun F)
    (conversationId runId : String) : Prop :=
  conversationId = written.conversationId ∧
    (∀ run, changedTo runs written conversationId runId = some run → run.status.isActive = false) ∧
    (config.evictIfNeeded now ((runs.bucket conversationId).set written.runId written)).get runId = none

namespace RepositoryEntry

def KeepsSaved (config : RegistryConfig) (e : RepositoryEntry F) : Prop :=
  ∀ conversationId runId run, e.before.runs.find conversationId runId = some run →
    e.after.runs.find conversationId runId = none →
    ∃ written, e.reply = .ok (some written) ∧
      EvictedByRule config e.request.clock.evicts e.before.runs written conversationId runId

def Erases (config : RegistryConfig) (e : RepositoryEntry F) : Prop :=
  e.request.read ≠ .loaded ∧ e.request.saveFails = false ∧
    ∃ written, e.reply = .ok (some written) ∧
      e.request.operation.creation = some (written.conversationId, written.runId) ∧
      ∃ conversationId runId run, e.before.runs.find conversationId runId = some run ∧
        ¬(written.conversationId = conversationId ∧ written.runId = runId) ∧
        ¬EvictedByRule config e.request.clock.evicts e.before.runs written conversationId runId

end RepositoryEntry

variable {config : RegistryConfig} {s : Stored F} {request : RepositoryRequest F}

theorem repositoryStep_of_saveFails (config : RegistryConfig) (s : Stored F) (h : request.saveFails = true)
    : (repositoryStep config s request).1 = s := by
  unfold repositoryStep
  rw [h]
  rfl

theorem repositoryStep_of_loaded (config : RegistryConfig) (s : Stored F) (hread : request.read = .loaded)
    (hsave : request.saveFails = false)
    : repositoryStep config s request = step config .snapshot s ⟨request.operation, request.clock⟩ := by
  unfold repositoryStep step
  rw [hread, hsave]
  rfl

theorem repositoryStep_of_failed (config : RegistryConfig) (s : Stored F) (hread : request.read ≠ .loaded)
    (hsave : request.saveFails = false)
    : repositoryStep config s request
        = ((((request.operation.run config request.clock .empty).written.map
              fun runs => (⟨runs.settled⟩ : Stored F)).getD s),
            (request.operation.run config request.clock .empty).reply) := by
  have hruns : request.read.runs s.runs = .empty := by
    cases hkind : request.read with
    | loaded => exact absurd hkind hread
    | raises => rfl
    | empty => rfl
  unfold repositoryStep
  rw [hruns, hsave]
  dsimp only
  rw [if_neg Bool.false_ne_true]
  cases (request.operation.run config request.clock .empty).written with
  | none => rfl
  | some runs => rfl

omit [PyFloat F] in
theorem find_empty (conversationId runId : String)
    : Conversations.find (.empty : Conversations F) conversationId runId = none := by
  unfold Conversations.find
  rw [Dict.get_empty]
  rfl

theorem failed_cases (config : RegistryConfig) (s : Stored F) (hread : request.read ≠ .loaded)
    (hsave : request.saveFails = false)
    : ((∀ run, (repositoryStep config s request).2 ≠ .ok (some run)) ∧ (repositoryStep config s request).1 = s) ∨
        ∃ written, (repositoryStep config s request).2 = .ok (some written) ∧
          request.operation.creation = some (written.conversationId, written.runId) ∧ written.status = .pending ∧
          Written config .snapshot .empty written (repositoryStep config s request).1.runs := by
  rw [repositoryStep_of_failed config s hread hsave]
  cases htarget : request.operation.target with
  | none =>
    rcases Operation.run_of_creation config request.clock (.empty : Conversations F) htarget with
      ⟨error, hrun⟩ | ⟨written, hcreation, hpending, hrun⟩
    . left
      rw [hrun]
      refine ⟨?_, rfl⟩
      intro run h
      cases h
    . right
      rw [hrun]
      exact ⟨written, rfl, hcreation, hpending,
        (sound_empty .snapshot).upserted config request.clock.evicts written⟩
  | some target =>
    rcases Operation.run_of_target config request.clock (.empty : Conversations F) htarget with
      ⟨reply, hreply, hrun, -⟩ | ⟨run, updated, hfind, -⟩
    . left
      rw [hrun]
      exact ⟨hreply, rfl⟩
    . rw [find_empty] at hfind
      cases hfind

theorem sound_repositoryStep (hs : s.Sound .snapshot) (request : RepositoryRequest F)
    : (repositoryStep config s request).1.Sound .snapshot := by
  cases hsave : request.saveFails with
  | true =>
    rw [repositoryStep_of_saveFails config s hsave]
    exact hs
  | false =>
    by_cases hread : request.read = .loaded
    . rw [repositoryStep_of_loaded config s hread hsave]
      apply sound_step config hs
    . rcases failed_cases config s hread hsave with ⟨-, hsame⟩ | ⟨written, -, -, hpending, hwritten⟩
      . rw [hsame]
        exact hs
      . apply sound_of_written (sound_empty .snapshot) _ hwritten
        intro hterminal
        rw [hpending] at hterminal
        cases hterminal

theorem written_of_reply {operation : Operation F} {clock : Clock} {runs : Conversations F} {run : SubAgentRun F}
    (h : (operation.run config clock runs).reply = .ok (some run))
    : (operation.run config clock runs).written = some (config.upsertLocked clock.evicts runs run) := by
  cases htarget : operation.target with
  | none =>
    rcases Operation.run_of_creation config clock runs htarget with ⟨error, hrun⟩ | ⟨written, -, -, hrun⟩
    . rw [hrun] at h
      cases h
    . rw [hrun] at h ⊢
      cases h
      rfl
  | some target =>
    rcases Operation.run_of_target config clock runs htarget with
      ⟨reply, hreply, hrun, -⟩ | ⟨_, updated, -, -, hrun⟩
    . rw [hrun] at h
      exact absurd h (hreply run)
    . rw [hrun] at h ⊢
      cases h
      rfl

omit [PyFloat F] in
theorem evictedByRule_of_lost {clock : Clock} {written : SubAgentRun F} {conversationId runId : String}
    (hs : s.Sound .snapshot) (hfound : s.runs.find conversationId runId ≠ none)
    (hgone : (Storage.snapshot.settle (config.upsertLocked clock.evicts s.runs written)).find conversationId runId =
      none)
    : EvictedByRule config clock.evicts s.runs written conversationId runId := by
  by_cases hsame : conversationId = written.conversationId
  . refine ⟨hsame, ?_, ?_⟩
    . intro run hchanged
      by_contra hactive
      have hkept := (hs.upserted config clock.evicts written).active conversationId runId run hchanged
        (by simpa using hactive)
      rw [hgone] at hkept
      cases hkept
    . rw [Storage.find_settle, Conversations.find_eq, RegistryConfig.bucket_upsertLocked, if_pos hsame,
        Option.map_eq_none_iff] at hgone
      rw [hsame]
      exact hgone
  . rw [find_upsert_of_ne hsame, Option.map_eq_none_iff] at hgone
    exact absurd hgone hfound

theorem keepsSaved_of_loaded (hs : s.Sound .snapshot) (hread : request.read = .loaded)
    (hsave : request.saveFails = false)
    : RepositoryEntry.KeepsSaved config (entry (repositoryStep config) s request) := by
  intro conversationId runId run hfind hgone
  have hfind : s.runs.find conversationId runId = some run := hfind
  have hgone : (repositoryStep config s request).1.runs.find conversationId runId = none := hgone
  show ∃ written, (repositoryStep config s request).2 = .ok (some written) ∧
    EvictedByRule config request.clock.evicts s.runs written conversationId runId
  rw [repositoryStep_of_loaded config s hread hsave] at hgone ⊢
  rcases step_cases config hs ⟨request.operation, request.clock⟩ with ⟨-, hsame, -⟩ | ⟨written, hreply, -, -⟩
  . rw [hsame, hfind] at hgone
    cases hgone
  . refine ⟨written, hreply, ?_⟩
    apply evictedByRule_of_lost hs
    . rw [hfind]
      simp
    . have hwritten := written_of_reply hreply
      unfold step at hgone
      dsimp only at hgone
      rw [hwritten] at hgone
      exact hgone

theorem keepsSaved_iff_of_failed {written : SubAgentRun F} (hread : request.read ≠ .loaded)
    (hsave : request.saveFails = false) (hreply : (repositoryStep config s request).2 = .ok (some written))
    (hcreation : request.operation.creation = some (written.conversationId, written.runId))
    (hpending : written.status = .pending)
    (hwritten : Written config .snapshot .empty written (repositoryStep config s request).1.runs)
    : RepositoryEntry.KeepsSaved config (entry (repositoryStep config) s request) ↔
        ¬RepositoryEntry.Erases config (entry (repositoryStep config) s request) := by
  have hgone : ∀ conversationId runId,
      (repositoryStep config s request).1.runs.find conversationId runId = none ↔
        ¬(written.conversationId = conversationId ∧ written.runId = runId) := by
    intro conversationId runId
    constructor
    . intro hnone hids
      have hchanged : changedTo (.empty : Conversations F) written conversationId runId = some written :=
        changedTo_eq_some.mpr (.inl ⟨rfl, hids⟩)
      have hkept := hwritten.active conversationId runId written hchanged (by rw [hpending]; rfl)
      rw [hnone] at hkept
      cases hkept
    . intro hids
      by_contra hsome
      obtain ⟨run', hrun'⟩ := Option.ne_none_iff_exists'.mp hsome
      obtain ⟨run, hchanged, -⟩ := hwritten.kept conversationId runId run' hrun'
      rw [changedTo_eq_some] at hchanged
      rcases hchanged with ⟨-, hsame⟩ | ⟨-, hfind⟩
      . exact hids hsame
      . rw [find_empty] at hfind
        cases hfind
  constructor
  . rintro hkeeps ⟨-, -, written', hreply', -, conversationId, runId, run, hfind, hids, hrule⟩
    have hreply' : (repositoryStep config s request).2 = .ok (some written') := hreply'
    rw [hreply] at hreply'
    cases hreply'
    obtain ⟨written', hreply', hevicted⟩ := hkeeps conversationId runId run hfind
      ((hgone conversationId runId).mpr hids)
    have hreply' : (repositoryStep config s request).2 = .ok (some written') := hreply'
    rw [hreply] at hreply'
    cases hreply'
    exact hrule hevicted
  . intro herases conversationId runId run hfind hnone
    refine ⟨written, hreply, ?_⟩
    by_contra hrule
    exact herases ⟨hread, hsave, written, hreply, hcreation, conversationId, runId, run, hfind,
      (hgone conversationId runId).mp hnone, hrule⟩

theorem keepsSaved_iff (hs : s.Sound .snapshot) (request : RepositoryRequest F)
    : RepositoryEntry.KeepsSaved config (entry (repositoryStep config) s request) ↔
        ¬RepositoryEntry.Erases config (entry (repositoryStep config) s request) := by
  have hunchanged (hsame : (repositoryStep config s request).1 = s)
      : RepositoryEntry.KeepsSaved config (entry (repositoryStep config) s request) := by
    intro conversationId runId run hfind hgone
    have hgone : (repositoryStep config s request).1.runs.find conversationId runId = none := hgone
    rw [hsame] at hgone
    exact absurd (hfind.symm.trans hgone) (by simp)
  cases hsave : request.saveFails with
  | true =>
    apply iff_of_true (hunchanged (repositoryStep_of_saveFails config s hsave))
    rintro ⟨-, hsaved, -⟩
    have hsaved : request.saveFails = false := hsaved
    rw [hsave] at hsaved
    cases hsaved
  | false =>
    by_cases hread : request.read = .loaded
    . apply iff_of_true (keepsSaved_of_loaded hs hread hsave)
      rintro ⟨hfailed, -⟩
      exact hfailed hread
    . rcases failed_cases config s hread hsave with ⟨hreply, hsame⟩ | ⟨written, hreply, hcreation, hpending, hwritten⟩
      . apply iff_of_true (hunchanged hsame)
        rintro ⟨-, -, written, hwritten, -⟩
        exact hreply written hwritten
      . exact keepsSaved_iff_of_failed hread hsave hreply hcreation hpending hwritten

/--
Over every run of operations whose reads and writes may fail, no persisted run is lost but by the rule, if
and only if no run is created after a failed read while the snapshot holds a run that the rule keeps.
-/
theorem saved_kept_iff (config : RegistryConfig) (s : Stored F) (hs : s.Sound .snapshot)
    (requests : List (RepositoryRequest F))
    : (∀ e ∈ transcript (repositoryStep config) s requests, RepositoryEntry.KeepsSaved config e) ↔
        ∀ e ∈ transcript (repositoryStep config) s requests, ¬RepositoryEntry.Erases config e := by
  have hiff := forall_transcript_iff
    (C := fun s request => ¬RepositoryEntry.Erases config (entry (repositoryStep config) s request))
    (I := fun s => s.Sound .snapshot) (P := RepositoryEntry.KeepsSaved config) (by
      intro s request hs
      exact ⟨keepsSaved_iff hs request, fun _ => sound_repositoryStep hs request⟩) hs requests
  rw [hiff]
  constructor
  . intro h e he
    rw [eq_entry_of_mem he]
    exact h e he
  . intro h e he
    rw [← eq_entry_of_mem he]
    exact h e he

section Example

def creates (runId : String) (read : Read) : RepositoryRequest Nat :=
  ⟨.createRun "conversation" "coder" "build" .empty runId none none none, ⟨1, 2⟩, read, false⟩

/--
The second run is created while the snapshot cannot be read, and the first one is gone.
-/
theorem failed_read_erases
    : ¬∀ e ∈ transcript (repositoryStep ⟨200, 86400⟩) empty [creates "first" .loaded, creates "second" .raises],
        RepositoryEntry.KeepsSaved ⟨200, 86400⟩ e := by
  intro h
  have hkeeps := h _ (List.mem_cons_of_mem _ List.mem_cons_self)
  have hbefore : (((repositoryStep ⟨200, 86400⟩ empty (creates "first" .loaded)).1.runs.find "conversation"
      "first").map (·.status)) = some .pending := by
    decide +kernel
  rw [Option.map_eq_some_iff] at hbefore
  obtain ⟨run, hfind, hpending⟩ := hbefore
  have hgone : (repositoryStep ⟨200, 86400⟩ (repositoryStep ⟨200, 86400⟩ empty (creates "first" .loaded)).1
      (creates "second" .raises)).1.runs.find "conversation" "first" = none := by
    rfl
  obtain ⟨written, hreply, -, hterminal, -⟩ := hkeeps "conversation" "first" run hfind hgone
  have hsecond : written.runId = "second" := by
    cases hreply
    rfl
  have hchanged : changedTo (repositoryStep ⟨200, 86400⟩ empty (creates "first" .loaded)).1.runs written
      "conversation" "first" = some run := by
    rw [changedTo_eq_some]
    right
    refine ⟨?_, hfind⟩
    rintro ⟨-, hid⟩
    rw [hsecond] at hid
    exact absurd hid (by decide)
  have := hterminal run hchanged
  rw [hpending] at this
  cases this

theorem saved_kept_loaded
    : ((final (repositoryStep ⟨200, 86400⟩) empty [creates "first" .loaded, creates "second" .loaded]).runs.find
          "conversation" "first").map (·.status) = some .pending ∧
        ∀ e ∈ transcript (repositoryStep ⟨200, 86400⟩) empty [creates "first" .loaded, creates "second" .loaded],
          RepositoryEntry.KeepsSaved ⟨200, 86400⟩ e := by
  refine ⟨by decide +kernel, ?_⟩
  rw [saved_kept_iff ⟨200, 86400⟩ empty (sound_empty .snapshot)]
  intro e he
  rintro ⟨hread, -⟩
  apply hread
  have hrequest := request_mem_of_mem he
  rw [List.mem_cons, List.mem_singleton] at hrequest
  cases hrequest with
  | inl h =>
    rw [h]
    rfl
  | inr h =>
    rw [h]
    rfl

end Example

end Stored

end SubagentRuns
end Agent
end MemStack
