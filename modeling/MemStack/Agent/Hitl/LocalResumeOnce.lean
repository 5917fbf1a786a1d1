import MemStack.Agent.Hitl.LocalResume

/-!
This module contains just when an answered request is resumed at most once.
-/

namespace MemStack
namespace Agent
namespace Hitl
namespace ResumeWorld

variable {P : Type} {s s' : ResumeWorld P} {n : Nat} {process : P}

abbrev Entry (P : Type) := Machine.Entry (ResumeWorld P) (ResumeRequest P) Unit

def Entry.Once (e : Entry P) : Prop :=
  e.after.resumed.length ≤ 1

def NobodyLive (s : ResumeWorld P) : Prop :=
  ∀ process, s.live process ≠ .delivered

def Alone (s : ResumeWorld P) : ResumeRequest P → Prop
  | .claim n => ∀ task ∈ s.tasks[n]?, task.stage = .claiming → s.status = .answered → NobodyLive s
  | .resolve n accepted =>
    ∀ task ∈ s.tasks[n]?, task.stage = .resuming → s.live task.process = .waiting → accepted = true →
      s.status ≠ .processing ∧ s.status ≠ .completed ∧ NobodyLive s
  | _ => True

inductive Counted (s : ResumeWorld P) : Prop where
  | nobody (hresumed : s.resumed = []) (hstatus : s.status ≠ .processing ∧ s.status ≠ .completed)
      (hlive : NobodyLive s)
  | handed (process : P) (hresumed : s.resumed = [.handed process]) (hstatus : s.status ≠ .processing)
      (hlive : s.live process = .delivered ∨ s.status = .completed)
      (hothers : ∀ other, other ≠ process → s.live other ≠ .delivered)
  | continued (process : P) (hresumed : s.resumed = [.continued process])
      (hstatus : s.status = .processing ∨ s.status = .completed) (hlive : NobodyLive s)

theorem Counted.once (h : Counted s) : s.resumed.length ≤ 1 := by
  cases h with
  | nobody hresumed hstatus hlive => simp [hresumed]
  | handed process hresumed hstatus hlive hothers => simp [hresumed]
  | continued process hresumed hstatus hlive => simp [hresumed]

structure SameCount (s s' : ResumeWorld P) : Prop where
  status : s'.status = s.status
  live : s'.live = s.live
  resumed : s'.resumed = s.resumed

theorem Counted.same (h : Counted s) (hsame : SameCount s s') : Counted s' := by
  rcases hsame with ⟨hst, hli, hre⟩
  cases h with
  | nobody hresumed hstatus hlive =>
    apply Counted.nobody
    . rw [hre, hresumed]
    . rw [hst]
      exact hstatus
    . intro process
      rw [hli]
      exact hlive process
  | handed process hresumed hstatus hlive hothers =>
    apply Counted.handed process
    . rw [hre, hresumed]
    . rw [hst]
      exact hstatus
    . rw [hst, hli]
      exact hlive
    . intro other hne
      rw [hli]
      exact hothers other hne
  | continued process hresumed hstatus hlive =>
    apply Counted.continued process
    . rw [hre, hresumed]
    . rw [hst]
      exact hstatus
    . intro process
      rw [hli]
      exact hlive process

theorem SameCount.refl (s : ResumeWorld P) : SameCount s s :=
  ⟨rfl, rfl, rfl⟩

theorem sameCount_setStage (n : Nat) (stage : Stage P) : SameCount s (s.setStage n stage) :=
  ⟨rfl, rfl, rfl⟩

theorem sameCount_ack (n : Nat) : SameCount s (s.ack n) :=
  ⟨rfl, rfl, rfl⟩

theorem continued_of_processing (h : Counted s) (hstatus : s.status = .processing)
    : ∃ process, s.resumed = [.continued process] ∧ NobodyLive s := by
  cases h with
  | nobody hresumed hne hlive => exact absurd hstatus hne.1
  | handed process hresumed hne hlive hothers => exact absurd hstatus hne
  | continued process hresumed _ hlive => exact ⟨process, hresumed, hlive⟩

theorem sameCount_load (n : Nat) (leaseStale : Bool) : SameCount s (s.load n leaseStale) := by
  unfold load
  split
  . split
    . exact sameCount_ack n
    . exact sameCount_setStage n _
    . exact sameCount_setStage n _
    . exact sameCount_setStage n _
  . exact SameCount.refl s

theorem sameCount_deliver (process : P) (pendingIdleMs : Option Int)
    : SameCount s (s.deliver process pendingIdleMs) := by
  unfold deliver
  split
  . exact SameCount.refl s
  . exact ⟨rfl, rfl, rfl⟩

theorem sameCount_released (n : Nat) : SameCount s (s.released n) := by
  unfold released
  split
  . split
    . exact sameCount_ack n
    . exact SameCount.refl s
  . exact SameCount.refl s

theorem Counted.of_status (h : Counted s) (hlive : s'.live = s.live) (hresumed : s'.resumed = s.resumed)
    (hbefore : s.status ≠ .processing ∧ s.status ≠ .completed)
    (hafter : s'.status ≠ .processing ∧ s'.status ≠ .completed)
    : Counted s' := by
  cases h with
  | nobody hnone hstatus hnobody =>
    apply Counted.nobody
    . rw [hresumed, hnone]
    . exact hafter
    . intro process
      rw [hlive]
      exact hnobody process
  | handed process hhanded hstatus hdelivered hothers =>
    apply Counted.handed process
    . rw [hresumed, hhanded]
    . exact hafter.1
    . left
      rw [hlive]
      exact hdelivered.resolve_right hbefore.2
    . intro other hne
      rw [hlive]
      exact hothers other hne
  | continued process hcontinued hstatus hnobody =>
    exfalso
    rcases hstatus with hstatus | hstatus
    . exact hbefore.1 hstatus
    . exact hbefore.2 hstatus

theorem reopen_counted (h : Counted s) (n : Nat) : Counted (s.reopen n) := by
  unfold reopen
  split
  . split
    . next hstatus =>
      refine h.of_status rfl rfl ?_ ?_
      . simp [hstatus]
      . show HITLRequestStatus.pending ≠ .processing ∧ HITLRequestStatus.pending ≠ .completed
        decide
    . exact h.same (sameCount_setStage n _)
  . exact h

theorem answer_counted (h : Counted s) : Counted s.answer := by
  unfold answer
  split
  . next hstatus =>
    refine h.of_status rfl rfl ?_ ?_
    . simp [hstatus]
    . show HITLRequestStatus.answered ≠ .processing ∧ HITLRequestStatus.answered ≠ .completed
      decide
  . exact h

theorem markLiveCompleted_counted (h : Counted s) (process : P) : Counted (s.markLiveCompleted process) := by
  unfold markLiveCompleted
  split
  . next hcondition =>
    cases h with
    | nobody hresumed hstatus hlive => exact absurd hcondition.1 (hlive process)
    | handed owner hresumed hstatus hlive hothers =>
      exact Counted.handed owner hresumed (by simp) (Or.inr rfl) hothers
    | continued owner hresumed hstatus hlive => exact absurd hcondition.1 (hlive process)
  . exact h

theorem resumed_eq_nil_iff (h : Counted s)
    : s.resumed = [] ↔ s.status ≠ .processing ∧ s.status ≠ .completed ∧ NobodyLive s := by
  cases h with
  | nobody hresumed hstatus hlive => simp [hresumed, hstatus, hlive]
  | handed process hresumed hstatus hlive hothers =>
    simp only [hresumed, List.cons_ne_nil, false_iff, not_and]
    intro _ hne hnobody
    exact hnobody process (hlive.resolve_right hne)
  | continued process hresumed hstatus hlive =>
    simp only [hresumed, List.cons_ne_nil, false_iff, not_and]
    intro hne hne' _
    rcases hstatus with hstatus | hstatus
    . exact hne hstatus
    . exact hne' hstatus

theorem length_concat_le_one {α : Type} {l : List α} {a : α} : (l ++ [a]).length ≤ 1 ↔ l = [] := by
  rw [List.length_append, List.length_singleton, ← List.length_eq_zero_iff]
  omega

theorem claim_of_claiming (htask : s.tasks[n]? = some ⟨process, .claiming⟩)
    : s.claim n =
        if s.status = .answered then
          { s.setStage n .continuing with
            status := .processing
            processingOwner := some process
            resumed := s.resumed ++ [.continued process] }
        else s.setStage n .done := by
  unfold claim
  rw [htask]

theorem claim_of_not (h : ∀ process, s.tasks[n]? ≠ some ⟨process, .claiming⟩) : s.claim n = s := by
  unfold claim
  split
  . next process htask => exact absurd htask (h process)
  . rfl

theorem alone_claim_iff (htask : s.tasks[n]? = some ⟨process, .claiming⟩) (hstatus : s.status = .answered)
    : Alone s (.claim n) ↔ NobodyLive s := by
  constructor
  . intro halone
    exact halone _ (Option.mem_def.mpr htask) rfl hstatus
  . intro hnobody _ _ _ _
    exact hnobody

theorem claim_counted (h : Counted s) (n : Nat)
    : ((s.claim n).resumed.length ≤ 1 ↔ Alone s (.claim n)) ∧ (Alone s (.claim n) → Counted (s.claim n)) := by
  by_cases hclaiming : ∃ process, s.tasks[n]? = some ⟨process, .claiming⟩
  . rcases hclaiming with ⟨process, htask⟩
    rw [claim_of_claiming htask]
    by_cases hstatus : s.status = .answered
    . have hnil : s.resumed = [] ↔ NobodyLive s := by
        rw [resumed_eq_nil_iff h, hstatus]
        simp
      rw [if_pos hstatus, alone_claim_iff htask hstatus, ← hnil]
      refine ⟨length_concat_le_one, ?_⟩
      intro hresumed
      apply Counted.continued process
      . show s.resumed ++ [.continued process] = [.continued process]
        rw [hresumed, List.nil_append]
      . exact Or.inl rfl
      . exact hnil.mp hresumed
    . rw [if_neg hstatus]
      have halone : Alone s (.claim n) := by
        intro _ _ _ hanswered
        exact absurd hanswered hstatus
      exact ⟨iff_of_true h.once halone, fun _ => h.same (sameCount_setStage n _)⟩
  . push Not at hclaiming
    rw [claim_of_not hclaiming]
    have halone : Alone s (.claim n) := by
      intro task hmem hstage
      rcases task with ⟨process, stage⟩
      cases hstage
      exact absurd hmem (hclaiming process)
    exact ⟨iff_of_true h.once halone, fun _ => h⟩

section Processes

variable [DecidableEq P]

theorem revertToAnswered_counted (h : Counted s) {leaseOwner : Option P} {leaseBefore : Bool}
    (hrevert : s.revertToAnswered leaseOwner leaseBefore = some s')
    : Counted s' := by
  unfold revertToAnswered at hrevert
  split at hrevert
  . next hcondition =>
    cases hrevert
    rcases continued_of_processing h hcondition.1 with ⟨process, hresumed, hlive⟩
    apply Counted.nobody
    . simp [hresumed]
    . simp
    . exact hlive
  . cases hrevert

theorem recover_counted (h : Counted s) (n : Nat) (leaseBefore : Bool) : Counted (s.recover n leaseBefore) := by
  unfold recover
  split
  . next leaseOwner _ =>
    cases hrevert : s.revertToAnswered leaseOwner leaseBefore with
    | none => exact h.same (sameCount_setStage n _)
    | some s' => exact (revertToAnswered_counted h hrevert).same (sameCount_setStage n _)
  . exact h

theorem continueFailed_counted (h : Counted s) (n : Nat) : Counted (s.continueFailed n) := by
  unfold continueFailed
  split
  . next process _ =>
    cases hrevert : s.revertToAnswered (some process) true with
    | none => exact h.same (sameCount_setStage n _)
    | some s' => exact (revertToAnswered_counted h hrevert).same (sameCount_setStage n _)
  . exact h

theorem continueCompleted_counted (h : Counted s) (n : Nat) : Counted (s.continueCompleted n) := by
  unfold continueCompleted
  split
  . split
    . next hcondition =>
      rcases continued_of_processing h hcondition.1 with ⟨process, hresumed, hlive⟩
      exact Counted.continued process hresumed (Or.inr rfl) hlive
    . exact h.same (sameCount_ack n)
  . exact h

theorem live_setLive (s : ResumeWorld P) (process : P) (state : LiveRequest) (other : P)
    : (s.setLive process state).live other = if other = process then state else s.live other := by
  unfold setLive
  dsimp only
  rw [Function.update_apply]

theorem giveUp_counted (h : Counted s) (process : P) : Counted (s.giveUp process) := by
  have hnobody : NobodyLive s → ∀ other, (s.setLive process .absent).live other ≠ .delivered := by
    intro hlive other
    rw [live_setLive]
    split
    . simp
    . exact hlive other
  unfold giveUp
  cases h with
  | nobody hresumed hstatus hlive =>
    rw [if_neg (fun hcondition => hlive process hcondition.1)]
    exact Counted.nobody hresumed hstatus (hnobody hlive)
  | continued owner hresumed hstatus hlive =>
    rw [if_neg (fun hcondition => hlive process hcondition.1)]
    exact Counted.continued owner hresumed hstatus (hnobody hlive)
  | handed owner hresumed hstatus hlive hothers =>
    split
    . next hcondition =>
      have hsame : process = owner := by
        by_contra hne
        exact hothers process hne hcondition.1
      rw [hsame]
      apply Counted.nobody
      . simp [hresumed]
      . rw [hsame] at hcondition
        exact ⟨hstatus, hcondition.2⟩
      . intro other
        show (s.setLive owner .absent).live other ≠ .delivered
        rw [live_setLive]
        split
        . simp
        . next hne => exact hothers other hne
    . next hcondition =>
      refine Counted.handed owner hresumed hstatus ?_ ?_
      . rw [live_setLive]
        by_cases hsame : owner = process
        . right
          by_contra hne
          apply hcondition
          rw [← hsame]
          exact ⟨hlive.resolve_right hne, hne⟩
        . rw [if_neg hsame]
          exact hlive
      . intro other hne
        rw [live_setLive]
        split
        . simp
        . exact hothers other hne

theorem crash_counted (h : Counted s) (process : P) : Counted (s.crash process) :=
  (giveUp_counted h process).same ⟨rfl, rfl, rfl⟩

theorem expireLive_counted (h : Counted s) (process : P) : Counted (s.expireLive process) := by
  unfold expireLive
  split
  . next hwaiting =>
    have hgiven : s.giveUp process = s.setLive process .absent := by
      unfold giveUp
      rw [if_neg]
      intro hcondition
      rw [hwaiting] at hcondition
      cases hcondition.1
    have hcounted := giveUp_counted h process
    rw [hgiven] at hcounted
    by_cases hstatus : s.status = .pending
    . rw [if_pos hstatus]
      refine hcounted.of_status rfl rfl ?_ ?_
      . show s.status ≠ .processing ∧ s.status ≠ .completed
        simp [hstatus]
      . show HITLRequestStatus.timeout ≠ .processing ∧ HITLRequestStatus.timeout ≠ .completed
        decide
    . rw [if_neg hstatus]
      exact hcounted
  . exact h

theorem resolve_of_waiting (htask : s.tasks[n]? = some ⟨process, .resuming⟩) (hwaiting : s.live process = .waiting)
    : s.resolve n true
        = { (s.setLive process .delivered).setStage n .waiting with resumed := s.resumed ++ [.handed process] } := by
  unfold resolve
  rw [htask]
  dsimp only
  rw [hwaiting]
  rfl

theorem sameCount_resolve {accepted : Bool}
    (h : ∀ process, s.tasks[n]? = some ⟨process, .resuming⟩ → s.live process = .waiting → accepted = false)
    : SameCount s (s.resolve n accepted) := by
  unfold resolve
  split
  . next process htask =>
    cases hlive : s.live process with
    | absent => exact sameCount_setStage n _
    | delivered => exact sameCount_setStage n _
    | waiting =>
      rw [h process htask hlive]
      exact sameCount_setStage n _
  . exact SameCount.refl s

theorem resolve_counted (h : Counted s) (n : Nat) (accepted : Bool)
    : ((s.resolve n accepted).resumed.length ≤ 1 ↔ Alone s (.resolve n accepted)) ∧
        (Alone s (.resolve n accepted) → Counted (s.resolve n accepted)) := by
  by_cases hhands : ∃ process, s.tasks[n]? = some ⟨process, .resuming⟩ ∧ s.live process = .waiting ∧ accepted = true
  . rcases hhands with ⟨process, htask, hwaiting, rfl⟩
    have hnil := resumed_eq_nil_iff h
    have halone : Alone s (.resolve n true) ↔ s.resumed = [] := by
      rw [hnil]
      constructor
      . intro halone
        exact halone _ (Option.mem_def.mpr htask) rfl hwaiting rfl
      . intro hnobody _ _ _ _ _
        exact hnobody
    rw [resolve_of_waiting htask hwaiting, halone]
    refine ⟨length_concat_le_one, ?_⟩
    intro hresumed
    have hnobody := hnil.mp hresumed
    refine Counted.handed process ?_ hnobody.1 ?_ ?_
    . show s.resumed ++ [.handed process] = [.handed process]
      rw [hresumed, List.nil_append]
    . left
      show (s.setLive process .delivered).live process = .delivered
      rw [live_setLive, if_pos rfl]
    . intro other hne
      show (s.setLive process .delivered).live other ≠ .delivered
      rw [live_setLive, if_neg hne]
      exact hnobody.2.2 other
  . have hsame : SameCount s (s.resolve n accepted) := by
      apply sameCount_resolve
      intro process htask hwaiting
      by_contra haccepted
      exact hhands ⟨process, htask, hwaiting, by simpa using haccepted⟩
    have halone : Alone s (.resolve n accepted) := by
      intro task hmem hstage hwaiting haccepted
      rcases task with ⟨process, stage⟩
      cases hstage
      exact absurd ⟨process, hmem, hwaiting, haccepted⟩ hhands
    exact ⟨iff_of_true (h.same hsame).once halone, fun _ => h.same hsame⟩

theorem step_counted (h : Counted s) (request : ResumeRequest P)
    : ((step s request).1.resumed.length ≤ 1 ↔ Alone s request) ∧ (Alone s request → Counted (step s request).1) := by
  have hcounts : Alone s request → Counted (step s request).1 →
      ((step s request).1.resumed.length ≤ 1 ↔ Alone s request) ∧ (Alone s request → Counted (step s request).1) := by
    intro halone hcounted
    exact ⟨iff_of_true hcounted.once halone, fun _ => hcounted⟩
  cases request with
  | deliver process pendingIdleMs => exact hcounts trivial (h.same (sameCount_deliver process pendingIdleMs))
  | load n leaseStale => exact hcounts trivial (h.same (sameCount_load n leaseStale))
  | recover n leaseBefore => exact hcounts trivial (recover_counted h n leaseBefore)
  | resolve n accepted => exact resolve_counted h n accepted
  | reopen n => exact hcounts trivial (reopen_counted h n)
  | claim n => exact claim_counted h n
  | continueCompleted n => exact hcounts trivial (continueCompleted_counted h n)
  | continueFailed n => exact hcounts trivial (continueFailed_counted h n)
  | markLiveCompleted process => exact hcounts trivial (markLiveCompleted_counted h process)
  | cleanupLive process => exact hcounts trivial (giveUp_counted h process)
  | released n => exact hcounts trivial (h.same (sameCount_released n))
  | expireLive process => exact hcounts trivial (expireLive_counted h process)
  | answer => exact hcounts trivial (answer_counted h)
  | crash process => exact hcounts trivial (crash_counted h process)

omit [DecidableEq P] in
theorem answered_counted (waits : P → Bool) : Counted (answered waits) := by
  apply Counted.nobody
  . rfl
  . show HITLRequestStatus.answered ≠ .processing ∧ HITLRequestStatus.answered ≠ .completed
    decide
  . intro process
    unfold answered
    dsimp only
    split <;> decide

/--
The request is resumed at most once just in those runs where each claim, and each hand-over, comes while no
other process works on the response.
-/
theorem resumed_once_iff (waits : P → Bool) (requests : List (ResumeRequest P))
    : (∀ e ∈ Machine.transcript step (answered waits) requests, Entry.Once e) ↔
        ∀ e ∈ Machine.transcript step (answered waits) requests, Alone e.before e.request := by
  apply @Machine.forall_transcript_iff _ _ _ step Alone Counted Entry.Once
  . intro s request h
    exact step_counted h request
  . exact answered_counted waits

/--
The agent of one process has got the response and is at work, when another process reclaims the entry, finds
no coordinator, and claims the request.
-/
theorem live_and_fallback
    : ∃ requests : List (ResumeRequest Nat),
        ¬∀ e ∈ Machine.transcript step (answered fun process => process == 0) requests, Entry.Once e := by
  refine ⟨[.deliver 0 none, .load 0 false, .resolve 0 true, .deliver 1 (some 30000), .load 1 false,
    .resolve 1 true, .claim 1], ?_⟩
  intro h
  have hlast := h _ (List.mem_of_getElem? (i := 6) rfl)
  revert hlast
  unfold Entry.Once
  decide

end Processes

end ResumeWorld
end Hitl
end Agent
end MemStack
