import MemStack.Agent.SubagentRuns.Lifecycle

/-!
This module contains when the protected keys of a run, which say who asked for it and which runs it descends from,
keep the values that they were created with.
-/

namespace MemStack
namespace Agent
namespace SubagentRuns

open Machine Checked

variable {F : Type}

namespace Operation

def metadata : Operation F → Dict String (Json F)
  | .createRun .. => .empty
  | .markRunning _ _ metadata _ => metadata
  | .markCompleted _ _ _ _ _ metadata _ => metadata
  | .markFailed _ _ _ _ metadata _ => metadata
  | .markCancelled _ _ _ metadata _ => metadata
  | .markTimedOut _ _ _ metadata _ => metadata
  | .attachMetadata _ _ metadata _ => metadata
  | .setTraceContext .. => .empty

theorem get_metadata_of_makes {clock : Clock} {operation : Operation F} {run updated : SubAgentRun F}
    (h : operation.Makes clock run updated) (key : String)
    : updated.metadata.get key = (operation.metadata.get key).or (run.metadata.get key) := by
  have hmerged (result : Except String (SubAgentRun F)) (metadata : Dict String (Json F))
      (hresult : result.map (·.withMetadata metadata) = .ok updated)
      (hkept : ∀ changed, result = .ok changed → changed.metadata = run.metadata)
      : updated.metadata.get key = (metadata.get key).or (run.metadata.get key) := by
    cases result with
    | error e => cases hresult
    | ok changed =>
      cases hresult
      show (changed.metadata.update metadata).get key = _
      rw [Dict.get_update, hkept changed rfl]
  have hok := h.2
  cases operation with
  | createRun => cases hok
  | markRunning =>
    apply hmerged _ _ hok
    intro changed hchanged
    unfold SubAgentRun.start at hchanged
    rw [guarded_eq_ok] at hchanged
    rw [hchanged.2]
  | markCompleted =>
    apply hmerged _ _ hok
    intro changed hchanged
    unfold SubAgentRun.complete at hchanged
    rw [guarded_eq_ok] at hchanged
    rw [hchanged.2]
  | markFailed =>
    apply hmerged _ _ hok
    intro changed hchanged
    unfold SubAgentRun.fail at hchanged
    rw [guarded_eq_ok] at hchanged
    rw [hchanged.2]
  | markCancelled =>
    apply hmerged _ _ hok
    intro changed hchanged
    unfold SubAgentRun.cancel at hchanged
    rw [guarded_eq_ok] at hchanged
    rw [hchanged.2]
  | markTimedOut =>
    apply hmerged _ _ hok
    intro changed hchanged
    unfold SubAgentRun.timeOut at hchanged
    rw [guarded_eq_ok] at hchanged
    rw [hchanged.2]
  | attachMetadata _ _ metadata _ =>
    dsimp only [Operation.mutator] at hok
    rw [bind_eq_ok] at hok
    obtain ⟨_, -, hok⟩ := hok
    cases hok
    apply Dict.get_update
  | setTraceContext _ _ traceId parentSpanId _ =>
    have hok : run.withTraceContext traceId parentSpanId = .ok updated := hok
    rw [withTraceContext_eq_ok] at hok
    rw [hok.2.2]
    show _ = ((Dict.empty : Dict String (Json F)).get key).or _
    rw [Dict.get_empty, Option.none_or]

end Operation

namespace Stored

namespace Entry

def KeepsLineage (created : SubAgentRun F) (e : Entry F) : Prop :=
  ∀ run, e.after.runs.find created.conversationId created.runId = some run →
    ∀ key ∈ protectedMetadataKeys, run.metadata.get key = created.metadata.get key

def Forges (created : SubAgentRun F) (e : Entry F) : Prop :=
  e.request.operation.target = some (created.conversationId, created.runId) ∧
    e.after.runs.find created.conversationId created.runId ≠ none ∧
    ∃ run updated, e.before.runs.find created.conversationId created.runId = some run ∧
      e.request.operation.Makes e.request.clock run updated ∧
      ∃ key ∈ protectedMetadataKeys, ∃ value, e.request.operation.metadata.get key = some value ∧
        run.metadata.get key ≠ some value

end Entry

theorem or_eq_iff {value value' : Option (Json F)}
    : value.or value' = value' ↔ ¬∃ v, value = some v ∧ value' ≠ some v := by
  cases value with
  | none => simp
  | some v =>
    rw [Option.some_or]
    constructor
    . rintro heq ⟨w, hw, hne⟩
      rw [hw] at heq
      exact hne heq.symm
    . intro h
      by_contra hne
      exact h ⟨v, rfl, fun heq => hne heq.symm⟩

variable [PyFloat F] {config : RegistryConfig} {storage : Storage} {s : Stored F} {created : SubAgentRun F}

def HasLineage (created : SubAgentRun F) (s : Stored F) : Prop :=
  ∀ run, s.runs.find created.conversationId created.runId = some run →
    ∀ key ∈ protectedMetadataKeys, run.metadata.get key = created.metadata.get key

theorem keepsLineage_iff_of_makes {request : Request F} {run written : SubAgentRun F}
    (hs : s.HasLineage created) (hids : written.conversationId = created.conversationId ∧ written.runId = created.runId)
    (htarget : request.operation.target = some (written.conversationId, written.runId))
    (hfind : s.runs.find written.conversationId written.runId = some run)
    (hmakes : request.operation.Makes request.clock run written)
    (hwritten : Written config storage s.runs written (step config storage s request).1.runs)
    : Entry.KeepsLineage created (entry (step config storage) s request) ↔
        ¬Entry.Forges created (entry (step config storage) s request) := by
  rw [hids.1, hids.2] at htarget hfind
  unfold Entry.KeepsLineage Entry.Forges entry
  dsimp only
  cases hafter : (step config storage s request).1.runs.find created.conversationId created.runId with
  | none =>
    constructor
    . rintro - ⟨-, hleft, -⟩
      exact hleft rfl
    . intro _ run' h
      cases h
  | some run' =>
    have hmetadata : run'.metadata = written.metadata := by
      obtain ⟨changed, hchanged, hrun'⟩ := hwritten.kept _ _ run' hafter
      rw [changedTo_eq_some] at hchanged
      rcases hchanged with ⟨rfl, -⟩ | ⟨hother, -⟩
      . rw [hrun', settleRun_metadata]
      . exact absurd hids hother
    have hkeys : ∀ key ∈ protectedMetadataKeys, run'.metadata.get key = created.metadata.get key ↔
        ¬∃ value, request.operation.metadata.get key = some value ∧ run.metadata.get key ≠ some value := by
      intro key hkey
      rw [hmetadata, Operation.get_metadata_of_makes hmakes, ← hs run hfind key hkey, or_eq_iff]
    constructor
    . rintro hkept ⟨-, -, run₀, updated, hrun₀, -, key, hkey, hvalue⟩
      rw [hfind, Option.some.injEq] at hrun₀
      rw [← hrun₀] at hvalue
      exact (hkeys key hkey).mp (hkept run' rfl key hkey) hvalue
    . intro hforges run'' hrun'' key hkey
      rw [Option.some.injEq] at hrun''
      rw [← hrun'', hkeys key hkey]
      intro hvalue
      exact hforges ⟨htarget, by simp, run, written, hfind, hmakes, key, hkey, hvalue⟩

theorem hasLineage_of_other {request : Request F} {written : SubAgentRun F} (hs : s.HasLineage created)
    (hids : ¬(written.conversationId = created.conversationId ∧ written.runId = created.runId))
    (hwritten : Written config storage s.runs written (step config storage s request).1.runs)
    : Entry.KeepsLineage created (entry (step config storage) s request) := by
  intro run' hrun' key hkey
  obtain ⟨run, hchanged, rfl⟩ := hwritten.kept _ _ run' hrun'
  rw [changedTo_eq_some] at hchanged
  rcases hchanged with ⟨rfl, hsame⟩ | ⟨-, hfind⟩
  . exact absurd hsame hids
  . rw [settleRun_metadata]
    exact hs run hfind key hkey

theorem keepsLineage_iff (config : RegistryConfig) (hsound : s.Sound storage) (hs : s.HasLineage created)
    {request : Request F}
    (hother : request.operation.creation ≠ some (created.conversationId, created.runId))
    : Entry.KeepsLineage created (entry (step config storage) s request) ↔
        ¬Entry.Forges created (entry (step config storage) s request) := by
  rcases step_cases config hsound request with ⟨-, hsame, hrefused⟩ | ⟨written, -, horigin, hwritten⟩
  . constructor
    . rintro - ⟨htarget, -, run, updated, hfind, hmakes, -⟩
      exact hrefused _ _ run htarget hfind updated hmakes
    . intro _ run hrun key hkey
      have hrun : (step config storage s request).1.runs.find created.conversationId created.runId = some run := hrun
      rw [hsame] at hrun
      exact hs run hrun key hkey
  . by_cases hids : written.conversationId = created.conversationId ∧ written.runId = created.runId
    . rcases horigin with ⟨hcreation, -⟩ | ⟨run, htarget, hfind, hmakes⟩
      . rw [hids.1, hids.2] at hcreation
        exact absurd hcreation hother
      . exact keepsLineage_iff_of_makes hs hids htarget hfind hmakes hwritten
    . constructor
      . rintro - ⟨htarget, -, run, updated, hfind, hmakes, -⟩
        apply hids
        rcases horigin with ⟨hcreation, -⟩ | ⟨run', htarget', -, -⟩
        . have hnone : request.operation.target = none := by
            cases hoperation : request.operation with
            | createRun => rfl
            | _ =>
              rw [hoperation] at hcreation
              cases hcreation
          have htarget : request.operation.target = some (created.conversationId, created.runId) := htarget
          rw [hnone] at htarget
          cases htarget
        . have htarget : request.operation.target = some (created.conversationId, created.runId) := htarget
          rw [htarget', Option.some.injEq, Prod.mk.injEq] at htarget
          exact htarget
      . intro _
        exact hasLineage_of_other hs hids hwritten

/--
The protected keys of a run keep the values that `create_run` gave them, for as long as the run is stored,
if and only if no change that the run accepts brings another value for one of them.
-/
theorem lineage_kept_iff (config : RegistryConfig) (storage : Storage) (s : Stored F) (hs : s.Sound storage)
    (first : Request F) (created : SubAgentRun F)
    (hfirst : first.operation.creation = some (created.conversationId, created.runId))
    (hcreated : (step config storage s first).2 = .ok (some created)) (requests : List (Request F))
    (hothers : ∀ e ∈ transcript (step config storage) (step config storage s first).1 requests,
      e.request.operation.creation ≠ some (created.conversationId, created.runId))
    : (∀ e ∈ transcript (step config storage) (step config storage s first).1 requests,
          Entry.KeepsLineage created e)
        ↔
      (∀ e ∈ transcript (step config storage) (step config storage s first).1 requests,
          ¬Entry.Forges created e) := by
  have hstart : (step config storage s first).1.HasLineage created := by
    rcases step_cases config hs first with ⟨hreply, -, -⟩ | ⟨written, hreply, -, hwritten⟩
    . exact absurd hcreated (hreply created)
    . rw [hcreated] at hreply
      cases hreply
      intro run' hrun' key _
      obtain ⟨run, hchanged, rfl⟩ := hwritten.kept _ _ run' hrun'
      rw [changedTo_eq_some] at hchanged
      rcases hchanged with ⟨rfl, -⟩ | ⟨hother, -⟩
      . rw [settleRun_metadata]
      . exact absurd ⟨rfl, rfl⟩ hother
  have hiff := forall_transcript_iff_of
    (C := fun s request => ¬Entry.Forges created (entry (step config storage) s request))
    (D := fun _ request => request.operation.creation ≠ some (created.conversationId, created.runId))
    (I := fun s => s.Sound storage ∧ s.HasLineage created) (P := Entry.KeepsLineage created) (by
      intro s request hinv hother
      have hkeeps := keepsLineage_iff config hinv.1 hinv.2 hother
      refine ⟨hkeeps, ?_⟩
      intro hforges
      exact ⟨sound_step config hinv.1 request, hkeeps.mpr hforges⟩)
        ⟨sound_step config hs first, hstart⟩ requests hothers
  rw [hiff]
  constructor
  . intro h e he
    rw [eq_entry_of_mem he]
    exact h e he
  . intro h e he
    rw [← eq_entry_of_mem he]
    exact h e he

section Example

def defaultConfig : RegistryConfig :=
  ⟨200, 86400⟩

def createsChild : Request Nat :=
  ⟨.createRun "conversation" "coder" "build" .empty "run" none (some "parent") none, ⟨1, 2⟩⟩

def child : SubAgentRun Nat where
  conversationId := "conversation"
  subagentName := "coder"
  task := "build"
  runId := "run"
  createdAt := 1
  metadata := (Dict.empty.set "parent_run_id" (.str "parent")).set "lineage_root_run_id" (.str "run")
  named := by decide +kernel

def starts (metadata : Dict String (Json Nat)) : Request Nat :=
  ⟨.markRunning "conversation" "run" metadata [], ⟨3, 4⟩⟩

theorem lineage_forged
    : (step defaultConfig .memory empty createsChild).2 = .ok (some child) ∧
        ¬∀ e ∈ transcript (step defaultConfig .memory) (step defaultConfig .memory empty createsChild).1
            [starts (Dict.empty.set "parent_run_id" (.str "other"))],
          Entry.KeepsLineage child e := by
  refine ⟨rfl, ?_⟩
  intro h
  have hkept := h _ List.mem_cons_self
  have hother : ((step defaultConfig .memory (step defaultConfig .memory empty createsChild).1
      (starts (Dict.empty.set "parent_run_id" (.str "other")))).1.runs.find "conversation" "run").map
        (fun run => (run.metadata.get "parent_run_id").bind Json.asStr) = some (some "other") := by
    decide +kernel
  rw [Option.map_eq_some_iff] at hother
  obtain ⟨run, hrun, hvalue⟩ := hother
  rw [hkept run hrun "parent_run_id" (by decide)] at hvalue
  have hparent : (child.metadata.get "parent_run_id").bind Json.asStr = some "parent" := by
    decide +kernel
  rw [hparent] at hvalue
  exact absurd hvalue (by decide)

theorem lineage_kept_starts
    : ((step defaultConfig .memory (step defaultConfig .memory empty createsChild).1 (starts .empty)).1.runs.find
          "conversation" "run").map (·.status) = some .running ∧
        ∀ e ∈ transcript (step defaultConfig .memory) (step defaultConfig .memory empty createsChild).1 [starts .empty],
          Entry.KeepsLineage child e := by
  refine ⟨by decide +kernel, ?_⟩
  have hkept := lineage_kept_iff defaultConfig .memory empty (sound_empty .memory) createsChild child rfl rfl
    [starts .empty] (by
      intro e he
      rw [transcript, transcript, List.mem_singleton] at he
      rw [he]
      intro hcreation
      cases hcreation)
  rw [hkept]
  intro e he
  rw [transcript, transcript, List.mem_singleton] at he
  rw [he]
  rintro ⟨-, -, run, updated, -, -, key, -, value, hvalue, -⟩
  cases hvalue

end Example

end Stored

end SubagentRuns
end Agent
end MemStack
